import DocIdent.Proofs.Ancestry
import DocIdent.Proofs.Metadata.Blob
import Mathlib.Data.List.Induction

/-!
# Facts over the history of an identifier

An identifier is made in steps (`Identifier.Step`). Some begin anew or go to the parent, and with
that the facts are gone (`Step.clears`); setting a fact stores its text under its key
(`Step.stored?`); the others leave the facts alone. So what stands under a key after a history is
the text that was stored there last, unless the facts were cleared since
(`Identifier.lastStored`). A step does to the facts what it does to the last text stored under each
key (`Identifier.Carries.step`), as long as no blob is put in that nobody read. What that means for
reading and setting facts is said by `Identifier.fact?_run_eq_lastStored`.
-/

namespace DocIdent.Identifier

/-! ## Steps -/

/-- What is done to an identifier. -/
inductive Step : Type 1 where
  /-- It becomes the root. -/
  | root
  /-- It becomes that of a package, or of a class in it. -/
  | declared (package : String) (classPath : Option String)
  /-- It becomes that of the unit type. -/
  | unit
  /-- It becomes that of the top type. -/
  | any
  /-- It moves to another package. -/
  | withPackage (name : String)
  /-- It gets another class path. -/
  | withClassPath (path : Option String)
  /-- It becomes that of a class nested in the innermost class. -/
  | withClass (name : String)
  /-- It gets another callable. -/
  | withCallable (callable : Option Callable)
  /-- It becomes that of another part of the declaration. -/
  | withTarget (target : Target)
  /-- It becomes that of the declaration itself. -/
  | ofDeclaration
  /-- It gets another metadata blob, whether well formed or not. -/
  | withMetadata (blob : Option String)
  /-- One fact is set. -/
  | withFact {α : Type} (p : Property α) (a : α)
  /-- It becomes that of the enclosing element. -/
  | parent

/-- The identifier after a step. A fact that cannot be set leaves it as it is. -/
def step (d : Identifier) : Step → Identifier
  | .root => root
  | .declared package classPath => declared package classPath
  | .unit => unit
  | .any => any
  | .withPackage name => d.withPackage name
  | .withClassPath path => d.withClassPath path
  | .withClass name => d.withClass name
  | .withCallable callable => d.withCallable callable
  | .withTarget target => d.withTarget target
  | .ofDeclaration => d.ofDeclaration
  | .withMetadata blob => d.withMetadata blob
  | .withFact p a =>
    match d.withFact p a with
    | .ok changed => changed
    | .error _ => d
  | .parent => d.parent

/-- The identifier after steps one after the other. -/
def run (d : Identifier) : List Step → Identifier
  | [] => d
  | s :: steps => run (d.step s) steps

theorem run_append (d : Identifier) (steps later : List Step) :
    d.run (steps ++ later) = (d.run steps).run later := by
  induction steps generalizing d with
  | nil => rfl
  | cons s steps ih => exact ih (d.step s)

/-! ## What is stored -/

/-- The step leaves no fact. -/
def Step.clears : Step → Bool
  | .root | .declared .. | .unit | .any | .parent => true
  | _ => false

/-- The text that a step stores under a key, if it stores one there. -/
def Step.stored? (key : String) : Step → Option String
  | .withFact p a => if p.key = key ∧ ¬ Metadata.Refused p a then p.encode a else none
  | _ => none

/-- Nothing is stored under another key, nor for a value that is refused or has nothing to store. -/
theorem Step.stored?_eq_none {key : String} {α : Type} {p : Property α} {a : α}
    (h : p.key ≠ key ∨ Metadata.Refused p a ∨ p.encode a = none) :
    (Step.withFact p a).stored? key = none := by
  rw [stored?]
  rcases h with hkey | hrefused | hnone
  · exact if_neg fun hstored => hkey hstored.1
  · exact if_neg fun hstored => hstored.2 hrefused
  · rw [hnone, ite_self]

/-- The text stored last under a key in steps, of those after the last step that left no fact. -/
def lastStored (key : String) (steps : List Step) : Option String :=
  (steps.reverse.takeWhile fun s => !s.clears).findSome? (Step.stored? key)

/-- A further step clears what was stored, or stores something else, or changes nothing. -/
theorem lastStored_append_singleton (key : String) (steps : List Step) (s : Step) :
    lastStored key (steps ++ [s]) =
      if s.clears then none else (s.stored? key).or (lastStored key steps) := by
  rw [lastStored, List.reverse_append, List.reverse_singleton, List.singleton_append,
    List.takeWhile_cons]
  cases s.clears with
  | true => rfl
  | false =>
    rw [Bool.not_false, if_pos rfl, List.findSome?_cons, if_neg Bool.false_ne_true]
    cases s.stored? key <;> rfl

/-! ## What is carried along -/

/-- The identifier's metadata is the blob of clean facts. -/
structure Carries (d : Identifier) (m : Metadata) : Prop where
  clean : m.Clean
  metadata : d.metadata = m.blob

theorem carries_root : root.Carries {} where
  clean := Metadata.clean_empty
  metadata := rfl

variable {d : Identifier} {m : Metadata}

/-- The facts of an identifier are those that it carries. -/
theorem Carries.facts (h : d.Carries m) : d.facts = .ok m := by
  rw [Identifier.facts, h.metadata, h.clean.read_blob]

/-- An identifier without metadata carries no facts. -/
theorem carries_empty (h : d.metadata = none) : d.Carries {} where
  clean := Metadata.clean_empty
  metadata := h

/-- No metadata is left in the parent. -/
@[simp] theorem metadata_parent (d : Identifier) : d.parent.metadata = none := by
  rcases eq_or_ne d root with rfl | hd
  · rfl
  rcases parent_cases hd with ⟨-, hparent⟩ | ⟨hnone, -, hparent⟩ | ⟨hnone, -, -, hparent⟩ |
    ⟨package, path, -, hparent⟩ | ⟨package, -, hparent⟩
  · rw [hparent]
  · rw [hparent]
    exact hnone
  · rw [hparent]
    exact hnone
  · rw [hparent]
  · rw [hparent]
    rfl

/-- Setting a fact fails if the value is refused; else it changes nothing if the value has nothing
to store, and stores its text if it has one. -/
theorem Carries.withFact_cases (h : d.Carries m) {α : Type} (p : Property α) (a : α) :
    (Metadata.Refused p a ∧ ∃ fault, d.withFact p a = .error fault) ∨
      (¬ Metadata.Refused p a ∧ p.encode a = none ∧ d.withFact p a = .ok d) ∨
      ∃ text, ¬ Metadata.Refused p a ∧ p.encode a = some text ∧
        d.withFact p a = .ok { d with metadata := Metadata.blob (m.store p.key text) } := by
  have hset : d.withFact p a =
      (m.set p a).map fun facts => { d with metadata := facts.blob } := by
    rw [withFact, h.facts]
    show (m.set p a).bind (fun facts => .ok { d with metadata := facts.blob }) = _
    cases m.set p a with
    | error fault => rfl
    | ok facts => rfl
  rcases m.set_cases p a with ⟨hrefused, fault, herror⟩ | ⟨hnot, hnone, hok⟩ |
    ⟨text, hnot, htext, hok⟩
  · exact .inl ⟨hrefused, fault, by rw [hset, herror]; rfl⟩
  · refine .inr (.inl ⟨hnot, hnone, ?_⟩)
    rw [hset, hok, Except.map, ← h.metadata]
  · exact .inr (.inr ⟨text, hnot, htext, by rw [hset, hok]; rfl⟩)

/-- A step on an identifier that carries facts leaves one that carries facts: under each key the
text that the step stores there, or what was there before. -/
theorem Carries.step (h : d.Carries m) {s : Step} (hs : ∀ blob, s ≠ .withMetadata blob) :
    ∃ m' : Metadata, (d.step s).Carries m' ∧
      ∀ key, m'.get? key = if s.clears then none else (s.stored? key).or (m.get? key) := by
  cases s with
  -- what begins anew and what goes to the parent carries no fact
  | root => exact ⟨{}, carries_root, fun _ => rfl⟩
  | declared package classPath => exact ⟨{}, carries_empty rfl, fun _ => rfl⟩
  | unit => exact ⟨{}, carries_empty rfl, fun _ => rfl⟩
  | any => exact ⟨{}, carries_empty rfl, fun _ => rfl⟩
  | parent => exact ⟨{}, carries_empty d.metadata_parent, fun _ => rfl⟩
  -- the other parts are set beside the facts
  | withPackage | withClassPath | withClass | withCallable | withTarget | ofDeclaration =>
    exact ⟨m, ⟨h.clean, h.metadata⟩, fun _ => rfl⟩
  | withMetadata blob => exact absurd rfl (hs blob)
  | withFact p a =>
    rw [Identifier.step]
    rcases h.withFact_cases p a with ⟨hrefused, fault, herror⟩ | ⟨hnot, hnone, hok⟩ |
      ⟨text, hnot, htext, hok⟩
    · rw [herror]
      refine ⟨m, h, fun key => ?_⟩
      show m.get? key = ((Step.withFact p a).stored? key).or (m.get? key)
      rw [Step.stored?_eq_none (.inr (.inl hrefused)), Option.none_or]
    · rw [hok]
      refine ⟨m, h, fun key => ?_⟩
      show m.get? key = ((Step.withFact p a).stored? key).or (m.get? key)
      rw [Step.stored?_eq_none (.inr (.inr hnone)), Option.none_or]
    · rw [hok]
      have hclean : Metadata.Clean (m.store p.key text) :=
        h.clean.store (fun hkey => hnot (.inr (.inl hkey)))
          fun hbroken => hnot (.inr (.inr ⟨text, htext, hbroken⟩))
      refine ⟨m.store p.key text, ⟨hclean, rfl⟩, fun key => ?_⟩
      show (m.store p.key text).get? key = ((Step.withFact p a).stored? key).or (m.get? key)
      rw [Ledger.get?_store]
      by_cases hkey : key = p.key
      · rw [if_pos hkey, Step.stored?, if_pos ⟨hkey.symm, hnot⟩, htext, Option.some_or]
      · rw [if_neg hkey, Step.stored?_eq_none (.inl (Ne.symm hkey)), Option.none_or]

/-- **What stands under a key after a history** is the text stored there last. -/
theorem exists_carries_run {steps : List Step} (hs : ∀ s ∈ steps, ∀ blob, s ≠ .withMetadata blob) :
    ∃ m : Metadata, (root.run steps).Carries m ∧ ∀ key, m.get? key = lastStored key steps := by
  induction steps using List.reverseRecOn with
  | nil => exact ⟨{}, carries_root, fun _ => rfl⟩
  | append_singleton steps s ih =>
    obtain ⟨m, hm, hget⟩ := ih fun t ht => hs t (List.mem_append_left _ ht)
    obtain ⟨m', hm', hget'⟩ := hm.step (hs s (List.mem_append_right _ (.head _)))
    rw [run_append]
    refine ⟨m', hm', fun key => ?_⟩
    rw [hget', lastStored_append_singleton, hget]

/-- A step that sets a fact under another key, or a fact that has nothing to store, changes
nothing under a key. -/
theorem lastStored_append_withFact {key : String} {α : Type} {p : Property α} {a : α}
    (h : p.key ≠ key ∨ p.encode a = none) (steps : List Step) :
    lastStored key (steps ++ [.withFact p a]) = lastStored key steps := by
  rw [lastStored_append_singleton]
  show ((Step.withFact p a).stored? key).or (lastStored key steps) = lastStored key steps
  rw [Step.stored?_eq_none (h.imp_right .inr), Option.none_or]

/-- **A fact reads as it was last stored, over any history.** Let an identifier be made from the
root in any steps that put in no blob. Then its metadata can be read. Setting a fact fails exactly
if its key is empty or has a separator, or if its text has one. The value of a fact is that of the
text which was stored last under its key since the identifier began anew or went to its parent, and
there is none if no text was. So to set a fact under another key, or one that has nothing to store,
does not change it. -/
theorem fact?_run_eq_lastStored (steps : List Step)
    (hs : ∀ s ∈ steps, ∀ blob, s ≠ .withMetadata blob) :
    (∃ m, (root.run steps).facts = .ok m) ∧
      (∀ {α : Type} (p : Property α) (a : α),
        (∃ fault, (root.run steps).withFact p a = .error fault) ↔
          p.key = "" ∨ Metadata.separator ∈ p.key.toList ∨
            ∃ text ∈ p.encode a, Metadata.separator ∈ text.toList) ∧
      (∀ {α : Type} (p : Property α),
        (root.run steps).fact? p = .ok ((lastStored p.key steps).bind p.decode)) ∧
      ∀ {α β : Type} (p : Property α) (q : Property β) (b : β),
        q.key ≠ p.key ∨ q.encode b = none →
          (root.run (steps ++ [.withFact q b])).fact? p = (root.run steps).fact? p := by
  have hfact : ∀ {α : Type} (p : Property α) {steps : List Step},
      (∀ s ∈ steps, ∀ blob, s ≠ .withMetadata blob) →
        (root.run steps).fact? p = .ok ((lastStored p.key steps).bind p.decode) := by
    intro α p steps hs
    obtain ⟨m, hm, hget⟩ := exists_carries_run hs
    rw [fact?, hm.facts, ← hget]
    rfl
  obtain ⟨m, hm, hget⟩ := exists_carries_run hs
  refine ⟨⟨m, hm.facts⟩, fun p a => ?_, fun p => hfact p hs, fun p q b hother => ?_⟩
  · rcases hm.withFact_cases p a with ⟨hrefused, herror⟩ | ⟨hnot, -, hok⟩ | ⟨text, hnot, -, hok⟩
    · exact iff_of_true herror hrefused
    · exact iff_of_false (by simp [hok]) hnot
    · exact iff_of_false (by simp [hok]) hnot
  · have hs' : ∀ s ∈ steps ++ [.withFact q b], ∀ blob, s ≠ .withMetadata blob := by
      intro s hmem
      rcases List.mem_append.1 hmem with hmem | hmem
      · exact hs s hmem
      · rw [List.mem_singleton.1 hmem]
        exact fun blob => nofun
    rw [hfact p hs', hfact p hs, lastStored_append_withFact hother]

/-- A number reads as the text that another property stored under its key, whatever was refused
there later and stored elsewhere. -/
theorem fact?_run_eq_lastStored_arity :
    (root.run ([.unit, .withFact .arity 2, .parent, .withFact (.text "Arity") "+7",
        .withFact (.text "Arity") "a/b", .withClass "Companion"] ++
          [.withFact .enumEntry ()])).fact? .arity = .ok (some 7) := by
  have hs : ∀ s ∈ [Step.unit, .withFact .arity 2, .parent, .withFact (.text "Arity") "+7",
      .withFact (.text "Arity") "a/b", .withClass "Companion"], ∀ blob, s ≠ .withMetadata blob := by
    simp
  obtain ⟨-, -, hfact, hother⟩ := fact?_run_eq_lastStored _ hs
  rw [hother .arity .enumEntry () (.inl (by decide)), hfact .arity]
  decide +kernel

end DocIdent.Identifier
