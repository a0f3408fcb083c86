import DocIdent.Proofs.Identifier.Presence
import DocIdent.Proofs.Index
import DocIdent.Proofs.Key.Slots
import Mathlib.Data.String.Basic

/-!
# Keys get shorter on the way to the root

Slashes within slots can make two identifiers share a key, but never an identifier and one that
encloses it: what a parent gives up leaves its slot (`Identifier.length_key_parent_lt`), and the
text of the declaration is shorter than that of any parameter (`Target.size_chars_lt`). This holds
whether a text is measured by its characters or by its bytes (`Text.IsMeasure`). So an identifier
and its ancestors have keys of their own, and an index takes them all in
(`Identifier.ofList_cons_ancestors`).
-/

namespace DocIdent

/-! ## Measuring texts -/

/-- A size of texts that adds up along a text, that only the empty text has not, and that counts the
characters of plain text. -/
structure Text.IsMeasure (size : List Char → Nat) : Prop where
  append : ∀ cs ds, size (cs ++ ds) = size cs + size ds
  pos : ∀ cs, cs ≠ [] → 0 < size cs
  plain : ∀ cs, cs.all (fun c => c.val ≤ 127) → size cs = cs.length

namespace Text

theorem isMeasure_length : IsMeasure List.length where
  append _ _ := List.length_append
  pos _ := List.length_pos_of_ne_nil
  plain _ _ := rfl

theorem isMeasure_utf8Len : IsMeasure String.utf8Len where
  append := String.utf8Len_append
  pos _ h := Nat.pos_of_ne_zero fun hzero => h (String.utf8Len_eq_zero.1 hzero)
  plain cs h := by
    induction cs with
    | nil => rfl
    | cons c cs ih =>
      rw [List.all_cons, Bool.and_eq_true, decide_eq_true_iff] at h
      rw [String.utf8Len_cons, ih h.2, Char.utf8Size_eq_one_iff.2 h.1, List.length_cons]

end Text

variable {size : List Char → Nat}

/-- The text of the declaration is shorter than that of a parameter, even without its position. -/
theorem Target.size_chars_lt (hsize : Text.IsMeasure size) {t : Target}
    (h : t.isDeclaration = false) : size Target.declaration.chars < size t.chars := by
  have hdeclaration : size declarationChars = 21 := hsize.plain declarationChars (by decide)
  have hgeneric : size genericOpening = 28 := hsize.plain genericOpening (by decide)
  have hcallable : size callableOpening = 29 := hsize.plain callableOpening (by decide)
  cases t with
  | declaration => cases h
  | genericParameter index =>
    simp only [chars, hsize.append]
    omega
  | callableParameter index =>
    simp only [chars, hsize.append]
    omega

namespace Identifier

/-! ## One step to the root -/

/-- A key is as long as its slots and the slashes between them. -/
theorem size_keyChars (hsize : Text.IsMeasure size) (d : Identifier) :
    size d.keyChars =
      size (optionalChars d.package) + size (optionalChars d.classPath) + size d.nameSlot +
        size d.signatureSlot + size d.target.chars + size (optionalChars d.metadata) + 5 := by
  have hslash : ∀ cs, size ('/' :: cs) = 1 + size cs := fun cs =>
    (hsize.append ['/'] cs).trans (by rw [hsize.plain ['/'] (by decide)]; rfl)
  rw [keyChars_eq_slots]
  simp only [hsize.append, hslash]
  omega

/-- What is absent has no length. -/
theorem size_optionalChars_none (hsize : Text.IsMeasure size) : size (optionalChars none) = 0 :=
  hsize.plain [] rfl

/-- What is there, and not empty, has a length. -/
theorem size_optionalChars_pos (hsize : Text.IsMeasure size) {s : Option String}
    (hsome : s.isSome) (hpresent : s ≠ some "") : 0 < size (optionalChars s) := by
  obtain ⟨text, rfl⟩ := Option.isSome_iff_exists.1 hsome
  refine hsize.pos _ fun hnil => hpresent ?_
  rw [← String.toList_eq_nil_iff.1 hnil]
  rfl

/-- An enclosing path is shorter. -/
theorem size_enclosingPath_lt (hsize : Text.IsMeasure size) {path : String} (h : path ≠ "") :
    size (optionalChars (enclosingPath path)) < size (optionalChars (some path)) := by
  have hnone : size (optionalChars none) < size (optionalChars (some path)) := by
    rw [size_optionalChars_none hsize]
    exact size_optionalChars_pos hsize rfl fun hempty => h (Option.some.inj hempty)
  unfold enclosingPath
  split
  next outer hcut =>
    split
    next => exact hnone
    next =>
      obtain ⟨tail, hpath, -⟩ := Text.beforeLast_eq_some_iff.1 hcut
      have hrest : 0 < size ('.' :: tail) := hsize.pos _ (List.cons_ne_nil _ _)
      simp only [optionalChars, Option.getD_some, String.toList_ofList, hpath, hsize.append]
      omega
  next => exact hnone

/-- **The parent of an identifier has a shorter key**, whichever part it gives up. -/
theorem size_keyChars_parent_lt (hsize : Text.IsMeasure size) {d : Identifier} (h : d.WellFormed)
    (hd : d ≠ root) : size d.parent.keyChars < size d.keyChars := by
  have hnone := size_optionalChars_none hsize
  rw [size_keyChars hsize, size_keyChars hsize]
  rcases parent_cases hd with ⟨hsome, hparent⟩ | ⟨-, htarget, hparent⟩ | ⟨-, -, hsome, hparent⟩ |
    ⟨package, path, rfl, hparent⟩ | ⟨package, rfl, hparent⟩
  · have hblob := size_optionalChars_pos hsize hsome h.metadata
    simp only [hparent, nameSlot, signatureSlot]
    omega
  · have hshorter := Target.size_chars_lt hsize htarget
    simp only [hparent, nameSlot, signatureSlot]
    omega
  · obtain ⟨c, hc⟩ := Option.isSome_iff_exists.1 hsome
    have hsignature : 0 < size c.signatureChars := hsize.pos _ c.signatureChars_ne_nil
    have hnil : size [] = 0 := hnone
    simp only [hparent, nameSlot, signatureSlot, hc]
    omega
  · have hpath := size_enclosingPath_lt hsize fun hempty : path = "" => h.classPath (hempty ▸ rfl)
    simp only [hparent, nameSlot, signatureSlot]
    omega
  · have hpackage := size_optionalChars_pos hsize (s := some package) rfl h.package
    simp only [hparent, root, nameSlot, signatureSlot]
    omega

/-- The key of the parent has fewer characters. -/
theorem length_key_parent_lt {d : Identifier} (h : d.WellFormed) (hd : d ≠ root) :
    d.parent.key.length < d.key.length := by
  rw [key, key, String.length_ofList, String.length_ofList]
  exact size_keyChars_parent_lt Text.isMeasure_length h hd

/-- The key of the parent has fewer bytes. -/
theorem utf8ByteSize_key_parent_lt {d : Identifier} (h : d.WellFormed) (hd : d ≠ root) :
    d.parent.key.utf8ByteSize < d.key.utf8ByteSize := by
  rw [key, key, String.utf8ByteSize_ofList, String.utf8ByteSize_ofList]
  exact size_keyChars_parent_lt Text.isMeasure_utf8Len h hd

/-! ## The way to the root -/

/-- On the way to the root each key is shorter than all before it. -/
theorem pairwise_length_key_cons_ancestors {d : Identifier} (h : d.WellFormed) :
    (d :: d.ancestors).Pairwise fun inner outer => outer.key.length < inner.key.length := by
  induction d using ancestors.induct with
  | case1 =>
    rw [ancestors_root]
    exact List.pairwise_singleton _ _
  | case2 d hd ih =>
    have hparent := length_key_parent_lt h hd
    have hchain := ih h.parent
    rw [ancestors_of_ne_root hd]
    refine List.pairwise_cons.2 ⟨fun a ha => ?_, hchain⟩
    rcases List.mem_cons.1 ha with rfl | ha
    · exact hparent
    · exact (List.rel_of_pairwise_cons hchain ha).trans hparent

/-- **An identifier shares its key with none that encloses it**, whatever its names are: the key of
the parent is shorter, in characters and in bytes. So all keys on the way to the root differ, and an
index that takes in the identifier and its ancestors has an entry for each. -/
theorem ofList_cons_ancestors {d : Identifier} (h : d.WellFormed) :
    (d ≠ root → d.parent.key.length < d.key.length ∧
        d.parent.key.utf8ByteSize < d.key.utf8ByteSize) ∧
      ((d :: d.ancestors).map key).Nodup ∧
      Index.ofList (d :: d.ancestors) = .ok ⟨(d :: d.ancestors).map fun a => (a.key, a)⟩ := by
  have hnodup : ((d :: d.ancestors).map key).Nodup := by
    rw [List.Nodup, List.pairwise_map]
    refine (pairwise_length_key_cons_ancestors h).imp fun hlt heq => ?_
    rw [heq] at hlt
    exact Nat.lt_irrefl _ hlt
  refine ⟨fun hd => ⟨length_key_parent_lt h hd, utf8ByteSize_key_parent_lt h hd⟩, hnodup, ?_⟩
  exact Index.ofList_eq_ok_iff.2 (Index.insertEach_of_nodup hnodup)

/-- A parameter with slashes in its names and in its metadata, in a class whose path begins with
blanks. -/
def slashedThroughout : Identifier where
  package := some "/é"
  classPath := some " . .A/.B"
  metadata := some "/"
  callable := some { name := "/", parameters := [.named "/#"] }
  target := .genericParameter 7

/-- Its seven ancestors have keys of their own, up to the root. -/
theorem ofList_cons_ancestors_slashedThroughout :
    slashedThroughout.WellFormed ∧ slashedThroughout ≠ root ∧
      slashedThroughout.parent.key.utf8ByteSize < slashedThroughout.key.utf8ByteSize ∧
      ∃ index, Index.ofList (slashedThroughout :: slashedThroughout.ancestors) = .ok index ∧
        index.size = 8 := by
  have h : slashedThroughout.WellFormed := ⟨by decide, by decide, by decide⟩
  have hd : slashedThroughout ≠ root := by decide
  obtain ⟨hshorter, -, hindex⟩ := ofList_cons_ancestors h
  refine ⟨h, hd, (hshorter hd).2, _, hindex, ?_⟩
  rw [Ledger.size, List.length_map, List.length_cons, length_ancestors]
  decide

end Identifier

end DocIdent
