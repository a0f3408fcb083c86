import DocIdent.Proofs.Metadata.Blob

/-!
# The order of facts

A step replaces all facts, stores a text under a key, removes a key, or does nothing
(`Metadata.Effect`). What is found under a key after some steps is what the last of them left there
that did anything to it (`Metadata.get?_run`). The keys that no step took out stay before all
others, in the order they had (`Metadata.keys_run`). Together with what storing and removing do to
the entries, and with the laws that writes obey, this says that facts are a map in the order of
insertion (`Metadata.run_insertion_ordered`).
-/

namespace DocIdent.Metadata

/-! ## What a step does -/

/-- What is done to facts. -/
inductive Effect where
  /-- Others take the place of all. -/
  | replace (found : Metadata)
  /-- A text is stored under a key. -/
  | store (key text : String)
  /-- A key is removed. -/
  | erase (key : String)
  /-- Nothing. -/
  | keep

/-- The facts after what is done to them. -/
def Effect.on (m : Metadata) : Effect → Metadata
  | .replace found => found
  | .store key text => m.store key text
  | .erase key => m.erase key
  | .keep => m

/-- What a step does to facts. Nothing is done by a blob that cannot be read, by a value that is
refused, and by one that has nothing to store. -/
def Step.effect : Step → Effect
  | .clear => .replace {}
  | .parse blob =>
    match read blob with
    | .ok found => .replace found
    | .error _ => .keep
  | .set p a =>
    if Refused p a then .keep
    else
      match p.encode a with
      | some text => .store p.key text
      | none => .keep
  | .unset p => .erase p.key

/-- A value that is not refused and has nothing to store changes nothing. -/
theorem set_of_encode_eq_none {α : Type} {p : Property α} {a : α} (m : Metadata)
    (hp : ¬ Refused p a) (htext : p.encode a = none) : m.set p a = .ok m := by
  rcases m.set_cases p a with ⟨hrefused, -⟩ | ⟨-, -, hset⟩ | ⟨text, -, hsome, -⟩
  · exact absurd hrefused hp
  · exact hset
  · rw [htext] at hsome
    cases hsome

/-- The text of a value that is not refused is stored under its key. -/
theorem set_of_encode_eq_some {α : Type} {p : Property α} {a : α} {text : String} (m : Metadata)
    (hp : ¬ Refused p a) (htext : p.encode a = some text) :
    m.set p a = .ok (m.store p.key text) := by
  rcases m.set_cases p a with ⟨hrefused, -⟩ | ⟨-, hnone, -⟩ | ⟨other, -, hsome, hset⟩
  · exact absurd hrefused hp
  · rw [htext] at hnone
    cases hnone
  · rw [htext] at hsome
    cases hsome
    exact hset

/-- The facts after a step are those after its effect. -/
theorem step_eq_on (m : Metadata) (s : Step) : m.step s = s.effect.on m := by
  cases s with
  | clear => rfl
  | parse blob =>
    rw [step, Step.effect]
    cases read blob with
    | ok found => rfl
    | error fault => rfl
  | set p a =>
    rw [step, Step.effect]
    by_cases hp : Refused p a
    · rw [if_pos hp]
      rcases m.set_cases p a with ⟨-, fault, hset⟩ | ⟨hnot, -, -⟩ | ⟨text, hnot, -, -⟩
      · rw [hset]
        rfl
      · exact absurd hp hnot
      · exact absurd hp hnot
    · rw [if_neg hp]
      cases htext : p.encode a with
      | none =>
        rw [set_of_encode_eq_none m hp htext]
        rfl
      | some text =>
        rw [set_of_encode_eq_some m hp htext]
        rfl
  | unset p => rfl

/-! ## What is found under a key -/

/-- What is left under a key, a text or nothing, by what does anything to it. -/
def Effect.leaves? (key : String) : Effect → Option (Option String)
  | .replace found => some (found.get? key)
  | .store k text => if k = key then some (some text) else none
  | .erase k => if k = key then some none else none
  | .keep => none

/-- The text that the last of some steps left under a key, of those that did anything to it. -/
def lastText (key : String) (steps : List Step) : Option String :=
  (steps.reverse.findSome? fun s => s.effect.leaves? key).join

/-- Under a key is found what was left there, or else what was there before. -/
theorem get?_on (m : Metadata) (e : Effect) (key : String) :
    (e.on m).get? key = (e.leaves? key).getD (m.get? key) := by
  cases e with
  | replace found => rfl
  | store k text =>
    rw [Effect.on, Effect.leaves?]
    grind
  | erase k =>
    rw [Effect.on, Effect.leaves?]
    grind
  | keep => rfl

/-- **What is found under a key after some steps** was left there by the last of them that did
anything to it. -/
theorem get?_run (m : Metadata) (steps : List Step) (key : String) :
    (m.run steps).get? key =
      (steps.reverse.findSome? fun s => s.effect.leaves? key).getD (m.get? key) := by
  induction steps generalizing m with
  | nil => rfl
  | cons s steps ih =>
    rw [run, ih, step_eq_on, get?_on, List.reverse_cons, List.findSome?_append,
      List.findSome?_singleton]
    cases steps.reverse.findSome? fun s => s.effect.leaves? key <;> rfl

/-! ## The order of the keys -/

/-- A key is taken out of its place, whether or not it comes back. -/
def Effect.drops (key : String) : Effect → Bool
  | .replace _ => true
  | .erase k => k = key
  | .store .. | .keep => false

/-- A key is taken out by one of some steps. -/
def dropped (key : String) (steps : List Step) : Bool :=
  steps.any fun s => s.effect.drops key

/-- The keys that are not taken out stay before the others, in their order. The others were not
there or were taken out. -/
theorem keys_on (m : Metadata) (e : Effect) :
    ∃ later, (e.on m).keys = (m.keys.filter fun key => !e.drops key) ++ later ∧
      ∀ key ∈ later, key ∉ m.keys ∨ e.drops key := by
  have hkept : ∀ keys : List String, (keys.filter fun _ => !false) = keys := by simp
  cases e with
  | replace found => exact ⟨found.keys, by simp [Effect.on, Effect.drops], fun key _ => .inr rfl⟩
  | store k text =>
    by_cases hk : k ∈ m.keys
    · refine ⟨[], ?_, by simp⟩
      rw [Effect.on, Ledger.keys_store, if_pos hk, List.append_nil]
      exact (hkept m.keys).symm
    · refine ⟨[k], ?_, fun key hkey => .inl (List.mem_singleton.1 hkey ▸ hk)⟩
      rw [Effect.on, Ledger.keys_store, if_neg hk]
      exact congrArg (· ++ [k]) (hkept m.keys).symm
  | erase k =>
    refine ⟨[], ?_, by simp⟩
    rw [Effect.on, Ledger.keys_erase, List.append_nil]
    refine List.filter_congr fun key _ => ?_
    simp [Effect.drops, eq_comm]
  | keep => exact ⟨[], by rw [List.append_nil]; exact (hkept m.keys).symm, by simp⟩

/-- **The keys that no step takes out** stay before the others, in their order. The others were not
there or were taken out by a step. -/
theorem keys_run (m : Metadata) (steps : List Step) :
    ∃ later, (m.run steps).keys = (m.keys.filter fun key => !dropped key steps) ++ later ∧
      ∀ key ∈ later, key ∉ m.keys ∨ dropped key steps := by
  induction steps generalizing m with
  | nil => exact ⟨[], by simp [run, dropped], by simp⟩
  | cons s steps ih =>
    obtain ⟨first, hfirst, hfirst'⟩ := keys_on m s.effect
    obtain ⟨later, hlater, hlater'⟩ := ih (m.step s)
    have hdropped : ∀ key, dropped key (s :: steps) = (s.effect.drops key || dropped key steps) :=
      fun key => rfl
    rw [step_eq_on, hfirst] at hlater hlater'
    refine ⟨(first.filter fun key => !dropped key steps) ++ later, ?_, fun key hkey => ?_⟩
    · rw [run, step_eq_on, hlater, List.filter_append, List.filter_filter, List.append_assoc]
      refine congrArg (· ++ _) (List.filter_congr fun key _ => ?_)
      rw [hdropped, Bool.not_or, Bool.and_comm]
    · rw [hdropped, Bool.or_eq_true]
      rcases List.mem_append.1 hkey with hkey | hkey
      · exact (hfirst' key (List.mem_of_mem_filter hkey)).imp_right .inl
      · rcases hlater' key hkey with hnot | hdrop
        -- a key that the first step did not leave was not there, or this step took it out
        · by_cases hmem : key ∈ m.keys
          · cases hdrop : s.effect.drops key with
            | true => exact .inr (.inl rfl)
            | false =>
              refine absurd (List.mem_append_left first ?_) hnot
              exact List.mem_filter.2 ⟨hmem, by rw [hdrop, Bool.not_false]⟩
          · exact .inl hmem
        · exact .inr (.inr hdrop)

/-! ## Writes -/

variable {α β : Type} {p : Property α} {a : α} {q : Property β} {b : β}

/-- A value that is not refused is set. -/
theorem set_eq_ok_step (m : Metadata) (hp : ¬ Refused p a) :
    m.set p a = .ok (m.step (.set p a)) := by
  rw [step]
  cases htext : p.encode a with
  | none => rw [set_of_encode_eq_none m hp htext]
  | some text => rw [set_of_encode_eq_some m hp htext]

/-- A step that sets a value with a text stores it. -/
theorem step_set {m : Metadata} {text : String} (hp : ¬ Refused p a)
    (htext : p.encode a = some text) : m.step (.set p a) = m.store p.key text := by
  rw [step, set_of_encode_eq_some m hp htext]

/-- Setting a property leaves nothing under another key. -/
theorem leaves?_set_eq_none {key : String} (hne : p.key ≠ key) :
    (Step.set p a).effect.leaves? key = none := by
  rw [Step.effect]
  split
  next => rfl
  next =>
    split
    next => exact if_neg hne
    next => rfl

/-- Writes under different keys can change places: the facts are the same but for their order. -/
theorem set_comm {m : Metadata} (hm : m.Clean) (hne : p.key ≠ q.key) (hp : ¬ Refused p a)
    (hq : ¬ Refused q b) :
    ∃ pq qp, (m.set p a).bind (·.set q b) = .ok pq ∧ (m.set q b).bind (·.set p a) = .ok qp ∧
      pq.same qp := by
  refine ⟨(m.step (.set p a)).step (.set q b), (m.step (.set q b)).step (.set p a), ?_, ?_, ?_⟩
  · rw [set_eq_ok_step m hp]
    exact set_eq_ok_step _ hq
  · rw [set_eq_ok_step m hq]
    exact set_eq_ok_step _ hp
  · have hpq := ((hm.step (.set p a)).step (.set q b)).distinct
    have hqp := ((hm.step (.set q b)).step (.set p a)).distinct
    rw [Ledger.same_iff_perm hpq hqp, Ledger.perm_iff_get?_eq hpq hqp]
    intro key
    simp only [step_eq_on, get?_on]
    by_cases hkey : p.key = key
    · rw [leaves?_set_eq_none (p := q) fun h => hne (hkey.trans h.symm)]
      rfl
    · rw [leaves?_set_eq_none hkey]
      rfl

/-- Of two writes under one key the later one stays. -/
theorem set_set {m : Metadata} (heq : p.key = q.key) (hp : ¬ Refused p a) (hq : ¬ Refused q b)
    (htext : q.encode b ≠ none) : (m.set p a).bind (·.set q b) = m.set q b := by
  obtain ⟨text, htext⟩ := Option.ne_none_iff_exists'.1 htext
  rw [set_of_encode_eq_some m hq htext]
  cases hpa : p.encode a with
  | none =>
    rw [set_of_encode_eq_none m hp hpa, Except.bind]
    exact set_of_encode_eq_some m hq htext
  | some old =>
    rw [set_of_encode_eq_some m hp hpa, Except.bind, set_of_encode_eq_some _ hq htext, heq,
      Ledger.store, Ledger.store, Ledger.storeIn_storeIn, Ledger.store]

/-- A fact that was not there is written and removed without a trace. -/
theorem unset_set {m : Metadata} (hnew : p.key ∉ m.keys) (hp : ¬ Refused p a) :
    (m.set p a).map (·.unset p) = .ok m := by
  cases htext : p.encode a with
  | none =>
    rw [set_of_encode_eq_none m hp htext]
    exact congrArg Except.ok (Ledger.erase_of_notMem hnew)
  | some text =>
    rw [set_of_encode_eq_some m hp htext]
    exact congrArg Except.ok (Ledger.erase_store_of_notMem hnew)

/-- **Facts are a map in the order of insertion.** Whatever was done to some facts, no key stands
twice, and under each stands the text that was last left there. What cannot be read, is refused, or
has nothing to store changes nothing. A text takes the place of the one under its key; a new key
goes to the end, also one that was removed before; and the keys that no step takes out stay before
all others, in their order. Writes under different keys can change places, of two under one key the
later one stays, and one under a new key is removed without a trace. Facts are the same exactly if
their entries are, up to the order. -/
theorem run_insertion_ordered (steps : List Step) {m : Metadata} (hm : run {} steps = m) :
    (m.keys.Nodup ∧ ∀ key, m.get? key = lastText key steps) ∧
    ((∀ blob fault, read blob = .error fault → m.step (.parse blob) = m) ∧
      ∀ {α : Type} (p : Property α) (a : α), Refused p a ∨ p.encode a = none →
        m.step (.set p a) = m) ∧
    (∀ {α : Type} (p : Property α) (a : α) (text : String),
      ¬ Refused p a → p.encode a = some text →
        (∀ before old after, m.entries = before ++ (p.key, old) :: after →
          (m.step (.set p a)).entries = before ++ (p.key, text) :: after) ∧
        (p.key ∉ m.keys → (m.step (.set p a)).entries = m.entries ++ [(p.key, text)]) ∧
        ((m.step (.unset p)).step (.set p a)).entries =
          m.entries.filter (fun e => e.1 ≠ p.key) ++ [(p.key, text)]) ∧
    (∀ more : List Step, ∃ later,
      (m.run more).keys = (m.keys.filter fun key => !dropped key more) ++ later ∧
        ∀ key ∈ later, key ∉ m.keys ∨ dropped key more) ∧
    (∀ {α β : Type} (p : Property α) (a : α) (q : Property β) (b : β),
      ¬ Refused p a → ¬ Refused q b →
        (p.key ≠ q.key → ∃ pq qp, (m.set p a).bind (·.set q b) = .ok pq ∧
          (m.set q b).bind (·.set p a) = .ok qp ∧ pq.same qp) ∧
        (p.key = q.key → q.encode b ≠ none → (m.set p a).bind (·.set q b) = m.set q b) ∧
        (p.key ∉ m.keys → (m.set p a).map (·.unset p) = .ok m)) ∧
    ∀ others : List Step,
      m.same (run {} others) ↔ m.entries.Perm (run {} others).entries := by
  have hclean : m.Clean := hm ▸ clean_empty.run steps
  refine ⟨⟨hclean.distinct, fun key => ?_⟩, ⟨fun blob fault h => ?_, fun p a h => ?_⟩,
    fun p a text hp htext => ⟨fun before old after hentries => ?_, fun hnew => ?_, ?_⟩,
    keys_run m, fun p a q b hp hq => ⟨fun hne => set_comm hclean hne hp hq,
      fun heq htext => set_set heq hp hq htext, fun hnew => unset_set hnew hp⟩,
    fun others => Ledger.same_iff_perm hclean.distinct (clean_empty.run others).distinct⟩
  · rw [← hm, get?_run, lastText]
    cases steps.reverse.findSome? fun s => s.effect.leaves? key <;> rfl
  · rw [step, h]
  · rw [step_eq_on, Step.effect]
    rcases h with hrefused | hnone
    · rw [if_pos hrefused]
      rfl
    · rw [hnone, ite_self]
      rfl
  · rw [step_set hp htext]
    exact Ledger.store_of_split hclean.distinct hentries
  · rw [step_set hp htext, Ledger.store_of_notMem hnew]
  · rw [step_set hp htext, Ledger.store_of_notMem]
    · rfl
    · rw [step, unset, Ledger.keys_erase]
      simp

/-- A fact that is set again stays in its place, and one that is removed and set again goes to the
end, whatever is refused in between. Two more facts can be set in any order. -/
theorem run_insertion_ordered_foreign :
    run {} [.parse (some "a/1/b/2/c/3"), .set (.text "a") "9", .unset (.text "b"),
        .set (.text "c") "x/y", .parse (some "a"), .set (.text "b") "4"] =
      ⟨[("a", "9"), ("c", "3"), ("b", "4")]⟩ ∧
    ∃ pq qp, (set ⟨[("a", "9"), ("c", "3"), ("b", "4")]⟩ .arity 2).bind (·.set .enumEntry ()) =
        .ok pq ∧
      (set ⟨[("a", "9"), ("c", "3"), ("b", "4")]⟩ .enumEntry ()).bind (·.set .arity 2) = .ok qp ∧
      pq.same qp := by
  have hrun : run {} [.parse (some "a/1/b/2/c/3"), .set (.text "a") "9", .unset (.text "b"),
      .set (.text "c") "x/y", .parse (some "a"), .set (.text "b") "4"] =
        ⟨[("a", "9"), ("c", "3"), ("b", "4")]⟩ := by decide +kernel
  obtain ⟨-, -, -, -, hwrites, -⟩ := run_insertion_ordered _ hrun
  exact ⟨hrun, (hwrites .arity 2 .enumEntry () (by decide +kernel) (by decide +kernel)).1
    (by decide +kernel)⟩

end DocIdent.Metadata
