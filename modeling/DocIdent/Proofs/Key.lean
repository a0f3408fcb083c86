import DocIdent.Identifier
import DocIdent.Proofs.TypeText

/-!
# What a key says

A key is six slots with a slash between any two, the last of which may itself hold slashes. The key
of an identifier says all that the identifier says, up to the two spellings of a type that has no
arguments (`Identifier.key_eq_key_iff`), as long as the slots before the last have no slash of their
own and the names in the types are plain (`Identifier.IsPlain`). The slots are read off one by one:
`Text.slot_append_inj` for the three names, `Callable.signature_append_inj` for the signature, and
`Target.chars_inj` for the target.
-/

namespace DocIdent

/-! ## Targets -/

namespace Target

/-- The eleventh character of a target's text tells its kind. -/
def kindLetter : Target → Char
  | declaration => 'D'
  | genericParameter _ => 'G'
  | callableParameter _ => 'C'

theorem chars_getElem? (t : Target) : t.chars[10]? = some t.kindLetter := by
  cases t with
  | declaration => exact (by decide : declarationChars[10]? = some 'D')
  | genericParameter i =>
    rw [chars, List.append_assoc, List.getElem?_append_left (by decide)]
    exact (by decide : genericOpening[10]? = some 'G')
  | callableParameter i =>
    rw [chars, List.append_assoc, List.getElem?_append_left (by decide)]
    exact (by decide : callableOpening[10]? = some 'C')

/-- Targets are known by their texts. -/
theorem chars_inj {s t : Target} (h : s.chars = t.chars) : s = t := by
  have hkind : s.kindLetter = t.kindLetter := by
    have := congrArg (·[10]?) h
    simpa [chars_getElem?] using this
  match s, t with
  | declaration, declaration => rfl
  | genericParameter i, genericParameter j =>
    simp only [chars, List.append_assoc, List.append_cancel_left_eq] at h
    have hd := Text.decimal_inj (List.append_cancel_right h)
    rw [UInt32.toNat_inj.1 hd]
  | callableParameter i, callableParameter j =>
    simp only [chars, List.append_assoc, List.append_cancel_left_eq] at h
    have hd := Text.decimal_inj (List.append_cancel_right h)
    rw [UInt32.toNat_inj.1 hd]
  | declaration, genericParameter _ | declaration, callableParameter _
  | genericParameter _, declaration | genericParameter _, callableParameter _
  | callableParameter _, declaration | callableParameter _, genericParameter _ =>
    exact absurd hkind (by simp [kindLetter])

/-- No target has a slash in its text. -/
theorem slash_not_mem_chars (t : Target) : '/' ∉ t.chars := by
  have hdigits : ∀ n : Nat, '/' ∉ Text.decimal n := by
    intro n h
    exact absurd (Text.isDigit_of_mem_decimal h) (by decide)
  cases t with
  | declaration => exact (by decide : '/' ∉ declarationChars)
  | genericParameter i =>
    simp only [chars, List.mem_append, not_or]
    exact ⟨⟨by decide, hdigits _⟩, by decide⟩
  | callableParameter i =>
    simp only [chars, List.mem_append, not_or]
    exact ⟨⟨by decide, hdigits _⟩, by decide⟩

end Target

/-! ## Signatures -/

namespace Callable

/-- The types of a callable: its receiver's, if it has one, and those of its parameters. -/
def types (c : Callable) : List TypeRef :=
  c.receiver.toList ++ c.parameters

/-- The callable with each of its types folded. -/
def folded (c : Callable) : Callable :=
  { c with receiver := c.receiver.map TypeRef.folded, parameters := c.parameters.map TypeRef.folded }

/-- Folding the types does not change the signature. -/
@[simp]
theorem signatureChars_folded (c : Callable) : c.folded.signatureChars = c.signatureChars := by
  have hmap : (c.parameters.map TypeRef.folded).map TypeRef.chars =
      c.parameters.map TypeRef.chars := by
    rw [List.map_map]
    exact List.map_congr_left fun t _ => t.chars_folded
  cases hr : c.receiver with
  | none => simp only [signatureChars, folded, hr, Option.map_none, hmap]
  | some t => simp only [signatureChars, folded, hr, Option.map_some, hmap, TypeRef.chars_folded]

/-- A number sign or a slash ends a type. -/
theorem ends_cons {c : Char} (h : c ∈ ['#', '/']) (r : List Char) : TypeRef.Ends (c :: r) := by
  intro d hd
  obtain rfl := Option.some.inj hd
  simp only [List.mem_cons] at h ⊢
  tauto

/-- A slash closes the parameters of a signature. -/
theorem closes_slash (r : List Char) : TypeRef.Closes '#' ('/' :: r) := by
  refine ⟨ends_cons (by decide) r, fun c hc => ?_⟩
  obtain rfl := Option.some.inj hc
  decide

/-- The parameters of a signature are known by their characters. -/
theorem parameters_append_inj {ts us : List TypeRef} {r r' : List Char}
    (hts : ∀ t ∈ ts, t.IsPlain) (hus : ∀ u ∈ us, u.IsPlain)
    (h : '#' :: (['#'].intercalate (ts.map TypeRef.chars) ++ '/' :: r) =
      '#' :: (['#'].intercalate (us.map TypeRef.chars) ++ '/' :: r')) :
    ts.map TypeRef.folded = us.map TypeRef.folded ∧ r = r' := by
  obtain ⟨hmap, hrest⟩ := TypeRef.list_append_inj (by decide) (closes_slash r) (closes_slash r')
    hts hus (fun t ht u hu => (hts t ht).distinguished (hus u hu)) (List.cons.inj h).2
  exact ⟨hmap, (List.cons.inj hrest).2⟩

/-- The types of a callable are known by its signature. -/
theorem signature_append_inj {c d : Callable} {r r' : List Char} (hc : ∀ t ∈ c.types, t.IsPlain)
    (hd : ∀ t ∈ d.types, t.IsPlain)
    (h : c.signatureChars ++ '/' :: r = d.signatureChars ++ '/' :: r') :
    c.receiver.map TypeRef.folded = d.receiver.map TypeRef.folded ∧
      c.parameters.map TypeRef.folded = d.parameters.map TypeRef.folded ∧ r = r' := by
  have hcp : ∀ t ∈ c.parameters, t.IsPlain := fun t ht => hc t (List.mem_append_right _ ht)
  have hdp : ∀ t ∈ d.parameters, t.IsPlain := fun t ht => hd t (List.mem_append_right _ ht)
  simp only [signatureChars, List.append_assoc, List.cons_append] at h
  cases hcr : c.receiver with
  | none =>
    cases hdr : d.receiver with
    | none =>
      rw [hcr, hdr] at h
      exact ⟨rfl, parameters_append_inj hcp hdp h⟩
    | some u =>
      have hu : u.IsPlain := hd u (List.mem_append_left _ (by simp [hdr]))
      rw [hcr, hdr] at h
      exact absurd h.symm (hu.ne_of_ends (ends_cons (by decide) _))
  | some t =>
    have ht : t.IsPlain := hc t (List.mem_append_left _ (by simp [hcr]))
    cases hdr : d.receiver with
    | none =>
      rw [hcr, hdr] at h
      exact absurd h (ht.ne_of_ends (ends_cons (by decide) _))
    | some u =>
      have hu : u.IsPlain := hd u (List.mem_append_left _ (by simp [hdr]))
      rw [hcr, hdr] at h
      obtain ⟨hfold, hrest⟩ := ht.distinguished hu (ends_cons (by decide) _)
        (ends_cons (by decide) _) h
      exact ⟨by rw [Option.map_some, Option.map_some, hfold], parameters_append_inj hcp hdp hrest⟩

/-- A signature is never empty. -/
theorem signature_append_ne {c : Callable} {r r' : List Char} (hc : ∀ t ∈ c.types, t.IsPlain) :
    c.signatureChars ++ r ≠ '/' :: r' := by
  intro h
  rw [signatureChars, List.append_assoc] at h
  cases hcr : c.receiver with
  | none => simp [hcr] at h
  | some t =>
    have ht : t.IsPlain := hc t (List.mem_append_left _ (by simp [hcr]))
    rw [hcr] at h
    exact absurd h (ht.ne_of_ends (ends_cons (by decide) _))

end Callable

/-! ## Identifiers -/

namespace Identifier

/-- No slot before the last has a slash of its own, and the names in the types are plain. -/
structure IsPlain (d : Identifier) : Prop where
  package : ∀ s ∈ d.package, '/' ∉ s.toList
  classPath : ∀ s ∈ d.classPath, '/' ∉ s.toList
  name : ∀ c ∈ d.callable, '/' ∉ c.name.toList
  types : ∀ c ∈ d.callable, ∀ t ∈ c.types, t.IsPlain

/-- The identifier with each of its types folded. -/
def folded (d : Identifier) : Identifier :=
  { d with callable := d.callable.map Callable.folded }

/-- Folding the types does not change the key. -/
@[simp] theorem key_folded (d : Identifier) : d.folded.key = d.key := by
  cases hc : d.callable with
  | none => simp only [key, keyChars, folded, hc, Option.map_none]
  | some c =>
    simp only [key, keyChars, folded, hc, Option.map_some, Callable.signatureChars_folded]
    rfl

/-- An optional text without slashes has none in its slot. -/
theorem slash_not_mem_optionalChars {s : Option String} (h : ∀ a ∈ s, '/' ∉ a.toList) :
    '/' ∉ optionalChars s := by
  cases s with
  | none => simp [optionalChars]
  | some a => exact h a rfl

/-- Optional texts that are not there but empty are known by their slots. -/
theorem optionalChars_inj {s s' : Option String} (hs : s ≠ some "") (hs' : s' ≠ some "")
    (h : optionalChars s = optionalChars s') : s = s' := by
  have hget : s.getD "" = s'.getD "" := String.toList_inj.1 h
  cases s with
  | none =>
    cases s' with
    | none => rfl
    | some b => exact absurd (congrArg some hget.symm) hs'
  | some a =>
    cases s' with
    | none => exact absurd (congrArg some hget) hs
    | some b => exact congrArg some hget

/-- The name and the signature of a key, which may both be empty, are known by their characters. -/
theorem callable_append_inj {x y : Identifier} {r r' : List Char} (hx : x.IsPlain)
    (hy : y.IsPlain)
    (h : (match x.callable with | some c => c.name.toList | none => []) ++ '/' ::
        ((match x.callable with | some c => c.signatureChars | none => []) ++ '/' :: r) =
      (match y.callable with | some c => c.name.toList | none => []) ++ '/' ::
        ((match y.callable with | some c => c.signatureChars | none => []) ++ '/' :: r')) :
    x.callable.map Callable.folded = y.callable.map Callable.folded ∧ r = r' := by
  cases hxc : x.callable with
  | none =>
    cases hyc : y.callable with
    | none =>
      rw [hxc, hyc] at h
      exact ⟨rfl, by simpa using h⟩
    | some d =>
      rw [hxc, hyc] at h
      obtain ⟨-, hsig⟩ := Text.slot_append_inj (List.not_mem_nil) (hy.name d hyc) h
      exact absurd hsig.symm (Callable.signature_append_ne (hy.types d hyc))
  | some c =>
    cases hyc : y.callable with
    | none =>
      rw [hxc, hyc] at h
      obtain ⟨-, hsig⟩ := Text.slot_append_inj (hx.name c hxc) (List.not_mem_nil) h
      exact absurd hsig (Callable.signature_append_ne (hx.types c hxc))
    | some d =>
      rw [hxc, hyc] at h
      obtain ⟨hname, hsig⟩ := Text.slot_append_inj (hx.name c hxc) (hy.name d hyc) h
      obtain ⟨hreceiver, hparameters, hrest⟩ :=
        Callable.signature_append_inj (hx.types c hxc) (hy.types d hyc) hsig
      refine ⟨?_, hrest⟩
      simp only [Option.map_some, Callable.folded, hreceiver, hparameters,
        String.toList_inj.1 hname]

/-- Two identifiers have one key exactly if they differ in nothing but the spelling of types without
arguments. -/
theorem key_eq_key_iff {x y : Identifier} (hx : x.WellFormed) (hy : y.WellFormed)
    (px : x.IsPlain) (py : y.IsPlain) : x.key = y.key ↔ x.folded = y.folded := by
  constructor
  · intro h
    have hchars : x.keyChars = y.keyChars := String.ofList_inj.1 h
    simp only [keyChars, List.append_assoc, List.cons_append] at hchars
    obtain ⟨hpackage, hchars⟩ := Text.slot_append_inj (slash_not_mem_optionalChars px.package)
      (slash_not_mem_optionalChars py.package) hchars
    obtain ⟨hclass, hchars⟩ := Text.slot_append_inj (slash_not_mem_optionalChars px.classPath)
      (slash_not_mem_optionalChars py.classPath) hchars
    obtain ⟨hcallable, hchars⟩ := callable_append_inj px py hchars
    obtain ⟨htarget, hmetadata⟩ := Text.slot_append_inj x.target.slash_not_mem_chars
      y.target.slash_not_mem_chars hchars
    simp only [folded, Identifier.mk.injEq]
    exact ⟨optionalChars_inj hx.package hy.package hpackage,
      optionalChars_inj hx.classPath hy.classPath hclass,
      optionalChars_inj hx.metadata hy.metadata hmetadata, hcallable, Target.chars_inj htarget⟩
  · intro h
    rw [← x.key_folded, h, y.key_folded]

/-- A function of one parameter, with metadata. -/
def taking (t : TypeRef) : Identifier where
  package := some "kotlin.collections"
  metadata := some "a/b"
  callable := some { name := "map", parameters := [t] }
  target := .callableParameter 0

theorem wellFormed_taking (t : TypeRef) : (taking t).WellFormed where
  package h := absurd (Option.some.inj h) (by decide)
  classPath h := nomatch h
  metadata h := absurd (Option.some.inj h) (by decide)

theorem isPlain_taking {t : TypeRef} (h : t.IsPlain) : (taking t).IsPlain where
  package := by
    rintro _ ⟨⟩
    decide
  classPath := by rintro _ ⟨⟩
  name := by
    rintro _ ⟨⟩
    exact (by decide : '/' ∉ "map".toList)
  types := by
    rintro _ ⟨⟩ u hu
    rwa [List.mem_singleton.1 hu]

/-- A class and the constructor of its name without arguments share a key inside another type; a
list that may be null and a list of what may be null do not. -/
theorem key_eq_key_iff_taking :
    (taking (.applied "List" [.named "Int"])).key =
        (taking (.applied "List" [.applied "Int" []])).key ∧
      (taking (.nullable (.applied "List" [.named "Int"]))).key ≠
        (taking (.applied "List" [.nullable (.named "Int")])).key := by
  have hInt : TypeRef.IsPlainName "Int" := ⟨by decide, by simp [TypeRef.marks]⟩
  have hList : TypeRef.IsPlainName "List" := ⟨by decide, by simp [TypeRef.marks]⟩
  have hclass : (TypeRef.applied "List" [.named "Int"]).IsPlain := ⟨hList, hInt, trivial⟩
  have hbare : (TypeRef.applied "List" [.applied "Int" []]).IsPlain :=
    ⟨hList, ⟨hInt, trivial⟩, trivial⟩
  have houter : (TypeRef.nullable (.applied "List" [.named "Int"])).IsPlain := hclass
  have hinner : (TypeRef.applied "List" [.nullable (.named "Int")]).IsPlain := hclass
  refine ⟨(key_eq_key_iff (wellFormed_taking _) (wellFormed_taking _) (isPlain_taking hclass)
    (isPlain_taking hbare)).2 rfl, fun h => ?_⟩
  have hfold := (key_eq_key_iff (wellFormed_taking _) (wellFormed_taking _) (isPlain_taking houter)
    (isPlain_taking hinner)).1 h
  exact absurd hfold (by decide)

end Identifier

end DocIdent
