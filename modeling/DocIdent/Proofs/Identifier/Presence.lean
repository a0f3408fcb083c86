import DocIdent.Proofs.Identifier.History
import DocIdent.Proofs.Inputs
import DocIdent.Proofs.Schema.Element

/-!
# No optional text is there but empty

A key cannot tell an absent text from an empty one, so no identifier should hold an empty one. Its
type allows it all the same: only reading and most steps go through `Identifier.present`, while
setting a fact and going to the parent put texts in place directly. What they put there is not
empty either: a blob has a separator (`Identifier.WellFormed.withFact`), and an enclosing path that
is blank is none (`Identifier.WellFormed.parent`).

`Identifier.Made` says which identifiers there are: the root, those that stand in an accepted text,
on their own or within something larger (`Identifier.ReadFrom`), and what steps and ancestors make
of them. `Identifier.wellFormed_of_made` is the statement about all of these.
-/

namespace DocIdent

variable {dialect : Dialect}

/-! ## Steps -/

namespace Identifier

variable {d d' : Identifier}

/-- An optional text that goes through `present` is not there but empty. -/
theorem bind_present_ne_some_empty (s : Option String) : s.bind present ≠ some "" := by
  cases s with
  | none => exact nofun
  | some s => exact present_ne_some_empty s

theorem wellFormed_root : root.WellFormed :=
  ⟨nofun, nofun, nofun⟩

theorem wellFormed_declared (package : String) (classPath : Option String) :
    (declared package classPath).WellFormed :=
  ⟨present_ne_some_empty package, bind_present_ne_some_empty classPath, nofun⟩

/-- The blob that setting a fact leaves is none or has a separator. -/
theorem WellFormed.withFact (h : d.WellFormed) {α : Type} {p : Property α} {a : α}
    (hset : d.withFact p a = .ok d') : d'.WellFormed := by
  obtain ⟨facts, -, hset⟩ := bind_eq_ok_iff.1 hset
  obtain ⟨changed, -, hset⟩ := bind_eq_ok_iff.1 hset
  cases hset
  refine { h with metadata := fun hblob => ?_ }
  exact absurd (Metadata.separator_mem_of_blob hblob) List.not_mem_nil

/-- A path is not cut down to nothing. -/
theorem enclosingPath_ne_some_empty (path : String) : enclosingPath path ≠ some "" := by
  unfold enclosingPath
  split
  next outer houter =>
    split
    next => exact nofun
    next hblank =>
      intro h
      have hnil : outer = [] := String.ofList_inj.1 (Option.some.inj h)
      exact hblank (hnil ▸ rfl)
  next => exact nofun

/-- The parent of a well-formed identifier is well formed, whichever part it gives up. -/
theorem WellFormed.parent (h : d.WellFormed) : d.parent.WellFormed := by
  rcases eq_or_ne d root with rfl | hd
  · exact h
  rcases parent_cases hd with ⟨-, hparent⟩ | ⟨-, -, hparent⟩ | ⟨-, -, -, hparent⟩ |
    ⟨package, path, rfl, hparent⟩ | ⟨package, -, hparent⟩
  · rw [hparent]
    exact ⟨h.package, h.classPath, nofun⟩
  · rw [hparent]
    exact ⟨h.package, h.classPath, h.metadata⟩
  · rw [hparent]
    exact ⟨h.package, h.classPath, h.metadata⟩
  · rw [hparent]
    exact ⟨h.package, enclosingPath_ne_some_empty path, nofun⟩
  · rw [hparent]
    exact wellFormed_root

/-- **A step leaves a well-formed identifier well formed**, whatever texts it is given. -/
theorem WellFormed.step (h : d.WellFormed) (s : Step) : (d.step s).WellFormed := by
  cases s with
  | root => exact wellFormed_root
  | declared package classPath => exact wellFormed_declared package classPath
  | unit => exact wellFormed_declared "kotlin" (some "Unit")
  | any => exact wellFormed_declared "kotlin" (some "Any")
  | withPackage name => exact ⟨present_ne_some_empty name, h.classPath, h.metadata⟩
  | withClassPath path => exact ⟨h.package, bind_present_ne_some_empty path, h.metadata⟩
  | withClass name =>
    exact ⟨h.package, bind_present_ne_some_empty (some (nestedPath d.classPath name)), h.metadata⟩
  | withCallable callable => exact ⟨h.package, h.classPath, h.metadata⟩
  | withTarget target => exact ⟨h.package, h.classPath, h.metadata⟩
  | ofDeclaration => exact ⟨h.package, h.classPath, h.metadata⟩
  | withMetadata blob => exact ⟨h.package, h.classPath, bind_present_ne_some_empty blob⟩
  | withFact p a =>
    rw [Identifier.step]
    split
    next changed hset => exact h.withFact hset
    next => exact h
  | parent => exact h.parent

/-- The ancestors of a well-formed identifier are well formed. -/
theorem WellFormed.ancestors (h : d.WellFormed) : ∀ a ∈ d.ancestors, a.WellFormed := by
  induction d using ancestors.induct with
  | case1 =>
    rw [ancestors_root]
    exact List.forall_mem_nil _
  | case2 d hd ih =>
    rw [ancestors_of_ne_root hd]
    exact List.forall_mem_cons.2 ⟨h.parent, ih h.parent⟩

end Identifier

/-! ## Reading -/

namespace Element

/-- The identifiers of an element that is read within a bound are well formed, at any depth. -/
theorem wellFormed_of_ofDocumentWithin? {bound : Nat} {document : Document} {e : Element}
    (h : ofDocumentWithin? dialect bound document = some e) :
    ∀ x ∈ e.walk, x.identifier.WellFormed := by
  induction bound generalizing document e with
  | zero => cases h
  | succ bound ih =>
    rw [ofDocumentWithin?] at h
    split at h
    next identifier name kind children hfields =>
      obtain ⟨i, hi, h⟩ := Option.bind_eq_some_iff.1 h
      obtain ⟨s, -, h⟩ := Option.bind_eq_some_iff.1 h
      obtain ⟨k, -, h⟩ := Option.bind_eq_some_iff.1 h
      obtain ⟨es, hes, h⟩ := Option.bind_eq_some_iff.1 h
      cases h
      intro x hx
      rw [walk, walkEach_eq_flatMap] at hx
      rcases List.mem_cons.1 hx with rfl | hx
      · exact Identifier.wellFormed_of_ofDocument? hi
      obtain ⟨child, hchild, hx⟩ := List.mem_flatMap.1 hx
      cases children with
      | none =>
        cases hes
        cases hchild
      | some listed =>
        obtain ⟨items, -, hitems⟩ := Option.bind_eq_some_iff.1 hes
        obtain ⟨item, -, hitem⟩ := exists_of_mapM_eq_some hitems child hchild
        exact ih hitem x hx
    next => cases h

theorem wellFormed_of_ofDocument? {document : Document} {e : Element}
    (h : ofDocument? dialect document = some e) : ∀ x ∈ e.walk, x.identifier.WellFormed :=
  wellFormed_of_ofDocumentWithin? h

end Element

/-- The identifiers of a module that is read are well formed. -/
theorem Module.wellFormed_of_ofDocument? {document : Document} {m : Module}
    (h : ofDocument? dialect document = some m) : ∀ d ∈ m.identifiers, d.WellFormed := by
  rw [ofDocument?] at h
  split at h
  next name platformData packages hfields =>
    obtain ⟨s, -, h⟩ := Option.bind_eq_some_iff.1 h
    obtain ⟨data, -, h⟩ := Option.bind_eq_some_iff.1 h
    obtain ⟨es, hes, h⟩ := Option.bind_eq_some_iff.1 h
    cases h
    obtain ⟨items, -, hitems⟩ := Option.bind_eq_some_iff.1 hes
    intro d hd
    obtain ⟨x, hx, rfl⟩ := List.mem_map.1 hd
    rw [elements, Element.walkEach_eq_flatMap] at hx
    obtain ⟨package, hpackage, hx⟩ := List.mem_flatMap.1 hx
    obtain ⟨item, -, hitem⟩ := exists_of_mapM_eq_some hitems package hpackage
    exact Element.wellFormed_of_ofDocument? hitem x hx
  next => cases h

/-- The identifier of a lock entry that is read is well formed. -/
theorem LockEntry.wellFormed_of_ofDocument? {document : Document} {e : LockEntry}
    (h : ofDocument? dialect document = some e) : e.identifier.WellFormed := by
  rw [ofDocument?] at h
  split at h
  next key identifier hfields =>
    obtain ⟨k, -, h⟩ := Option.bind_eq_some_iff.1 h
    obtain ⟨d, hd, h⟩ := Option.bind_eq_some_iff.1 h
    cases h
    exact Identifier.wellFormed_of_ofDocument? hd
  next => cases h

namespace Identifier

variable {d : Identifier} {document : Document}

/-- An identifier is read from a document: on its own, from a list, from the tables of a file, from
one lock entry or from those of a lock, or from the tree of an element or of a module. -/
inductive ReadFrom (dialect : Dialect) (document : Document) : Identifier → Prop
  | alone {d : Identifier} (h : ofDocument? dialect document = some d) : ReadFrom dialect document d
  | listed {ds : List Identifier} {d : Identifier}
    (h : listOfDocument? dialect document = some ds) (hd : d ∈ ds) :
    ReadFrom dialect document d
  | tabled {ds : List Identifier} {d : Identifier}
    (h : Inputs.identifiersOfTable? document = some ds) (hd : d ∈ ds) :
    ReadFrom dialect document d
  | pinned {e : LockEntry} (h : LockEntry.ofDocument? dialect document = some e) :
    ReadFrom dialect document e.identifier
  | locked {es : List LockEntry} {e : LockEntry}
    (h : Lock.entriesOfDocument? dialect document = some es) (he : e ∈ es) :
    ReadFrom dialect document e.identifier
  | element {e x : Element} (h : Element.ofDocument? dialect document = some e) (hx : x ∈ e.walk) :
    ReadFrom dialect document x.identifier
  | module {m : Module} {d : Identifier}
    (h : Module.ofDocument? dialect document = some m) (hd : d ∈ m.identifiers) :
    ReadFrom dialect document d

/-- **What is read is well formed**, wherever it stands. -/
theorem wellFormed_of_readFrom (h : ReadFrom dialect document d) : d.WellFormed := by
  cases h with
  | alone h => exact wellFormed_of_ofDocument? h
  | listed h hd => exact wellFormed_of_listOfDocument? h d hd
  | tabled h hd => exact Inputs.wellFormed_of_identifiersOfTable? h d hd
  | pinned h => exact LockEntry.wellFormed_of_ofDocument? h
  | locked h he =>
    rw [Lock.entriesOfDocument?] at h
    split at h
    next entries hfields =>
      obtain ⟨items, -, hitems⟩ := Option.bind_eq_some_iff.1 h
      obtain ⟨item, -, hitem⟩ := exists_of_mapM_eq_some hitems _ he
      exact LockEntry.wellFormed_of_ofDocument? hitem
    next => cases h
  | element h hx => exact Element.wellFormed_of_ofDocument? h _ hx
  | module h hd => exact Module.wellFormed_of_ofDocument? h d hd

/-! ## All identifiers -/

/-- The identifiers that there are: the root, those that stand in a JSON or TOML text, and what is
made of them by steps and by going up to ancestors, in any order. -/
inductive Made : Identifier → Prop
  | root : Made root
  | json {text : String} {document : Document} {d : Identifier}
    (hread : Json.read? text = some document) (h : ReadFrom .json document d) : Made d
  | toml {text : String} {document : Document} {d : Identifier}
    (hread : Toml.read? text = some document) (h : ReadFrom .toml document d) : Made d
  | step {d : Identifier} (h : Made d) (s : Step) : Made (d.step s)
  | ancestor {d a : Identifier} (h : Made d) (ha : a ∈ d.ancestors) : Made a

/-- **No optional text of an identifier is ever there but empty**, wherever the identifier was read
and whatever was made of it. -/
theorem wellFormed_of_made (h : Made d) : d.WellFormed := by
  induction h with
  | root => exact wellFormed_root
  | json _ h => exact wellFormed_of_readFrom h
  | toml _ h => exact wellFormed_of_readFrom h
  | step _ s ih => exact ih.step s
  | ancestor _ ha ih => exact ih.ancestors _ ha

/-- A class in a path that begins with a dot, with metadata. -/
def dotted : Identifier where
  classPath := some ".A"
  metadata := some "a/b"

/-- A text that says that the package is empty is read, and what is made of it has no empty part:
before the dot of its class path nothing is left, and the empty class is none. -/
theorem wellFormed_of_made_dotted :
    ((Json.read? "\x7b\"package_name\":\"\",\"class_names\":\".A\",\"extra\":\"a/b\"\x7d").bind
        (ofDocument? .json) = some dotted) ∧
      dotted.WellFormed ∧ dotted.parent.parent ∈ dotted.ancestors ∧
      (dotted.parent.parent.step (.withClass "")).WellFormed := by
  have hread : (Json.read?
      "\x7b\"package_name\":\"\",\"class_names\":\".A\",\"extra\":\"a/b\"\x7d").bind
        (ofDocument? .json) = some dotted := by
    decide +kernel
  obtain ⟨document, hdocument, hd⟩ := Option.bind_eq_some_iff.1 hread
  have hmade : Made dotted := .json hdocument (.alone hd)
  have hmem : dotted.parent.parent ∈ dotted.ancestors := by
    rw [ancestors_of_ne_root (by decide), ancestors_of_ne_root (by decide)]
    exact .tail _ (.head _)
  exact ⟨hread, wellFormed_of_made hmade, hmem,
    wellFormed_of_made ((hmade.ancestor hmem).step (.withClass ""))⟩

end Identifier

end DocIdent
