import DocIdent.Inputs
import DocIdent.Proofs.FileTree

/-!
# Identifiers from files

An optional text that stands empty in a file is read as absent (`Identifier.presentText?`), so every
identifier that is read from a document is well formed (`Identifier.wellFormed_of_ofDocument?`), and
with it every identifier of an input, be it a file or a directory (`Inputs.wellFormed_of_load`).
-/

namespace DocIdent

/-! ## Identifiers -/

namespace Identifier

variable {dialect : Dialect}

/-- No text is read that is there but empty. -/
theorem ne_some_empty_of_presentText? {d : Option Document} {s : Option String}
    (h : presentText? d = some s) : s ≠ some "" := by
  obtain ⟨text, -, rfl⟩ := Option.map_eq_some_iff.1 h
  cases text with
  | none => exact nofun
  | some text => exact present_ne_some_empty text

/-- **An identifier that is read from a document is well formed.** -/
theorem wellFormed_of_ofDocument? {d : Document} {i : Identifier}
    (h : ofDocument? dialect d = some i) : i.WellFormed := by
  rw [ofDocument?] at h
  split at h
  next package classPath metadata callable target hfields =>
    obtain ⟨p, hp, h⟩ := Option.bind_eq_some_iff.1 h
    obtain ⟨c, hc, h⟩ := Option.bind_eq_some_iff.1 h
    obtain ⟨m, hm, h⟩ := Option.bind_eq_some_iff.1 h
    obtain ⟨f, -, h⟩ := Option.bind_eq_some_iff.1 h
    obtain ⟨t, -, h⟩ := Option.bind_eq_some_iff.1 h
    cases h
    exact ⟨ne_some_empty_of_presentText? hp, ne_some_empty_of_presentText? hc,
      ne_some_empty_of_presentText? hm⟩
  next => cases h

/-- Identifiers that are read from a list are well formed. -/
theorem wellFormed_of_listOfDocument? {d : Document} {ds : List Identifier}
    (h : listOfDocument? dialect d = some ds) : ∀ i ∈ ds, i.WellFormed := by
  obtain ⟨items, -, hitems⟩ := Option.bind_eq_some_iff.1 h
  intro i hi
  obtain ⟨x, -, hx⟩ := exists_of_mapM_eq_some hitems i hi
  exact wellFormed_of_ofDocument? hx

end Identifier

/-! ## Inputs -/

namespace Inputs

/-- A JSON file gives what is read from its text. -/
theorem ofFile_json {path : String} (husable : Path.isUsable path = true)
    (hextension : Path.extension? path = some "json") (text : String) :
    ofFile (path, text.toUTF8) =
      match (Json.read? text).bind (Identifier.listOfDocument? .json) with
      | some ds => .ok ds
      | none => .error (.json "") := by
  rw [ofFile, if_pos husable, ofBytes, textOfBytes_toUTF8, ok_bind]
  simp only [hextension]
  rfl

theorem wellFormed_of_identifiersOfTable? {d : Document} {ds : List Identifier}
    (h : identifiersOfTable? d = some ds) : ∀ i ∈ ds, i.WellFormed := by
  rw [identifiersOfTable?] at h
  split at h
  next identifiers hfields =>
    cases identifiers with
    | none =>
      cases h
      exact nofun
    | some identifiers => exact Identifier.wellFormed_of_listOfDocument? h
  next => cases h

/-- The identifiers of a file are well formed, in either notation. -/
theorem wellFormed_of_ofBytes {path : String} {bytes : ByteArray} {ds : List Identifier}
    (h : ofBytes path bytes = .ok ds) : ∀ i ∈ ds, i.WellFormed := by
  rw [ofBytes] at h
  obtain ⟨text, -, h⟩ := bind_eq_ok_iff.1 h
  split at h
  next =>
    split at h
    next ds' hread =>
      cases h
      obtain ⟨d, -, hd⟩ := Option.bind_eq_some_iff.1 hread
      exact wellFormed_of_identifiersOfTable? hd
    next => cases h
  next =>
    split at h
    next ds' hread =>
      cases h
      obtain ⟨d, -, hd⟩ := Option.bind_eq_some_iff.1 hread
      exact Identifier.wellFormed_of_listOfDocument? hd
    next => cases h
  next => cases h

/-- **The identifiers of an input are well formed.** -/
theorem wellFormed_of_load {t : FileTree} {settings : Settings} {path : String}
    {ds : List Identifier} (h : load t settings path = .ok ds) : ∀ i ∈ ds, i.WellFormed := by
  rw [load] at h
  split at h
  next => cases h
  next bytes hfind => exact wellFormed_of_ofBytes h
  next directory hnot hfind =>
    obtain ⟨files, hfiles, rfl⟩ := map_eq_ok_iff.1 h
    intro i hi
    obtain ⟨file, hfile, hi⟩ := List.mem_flatten.1 hi
    obtain ⟨f, -, hf⟩ := exists_mem_of_forall₂ (mapM_eq_ok_iff.1 hfiles) file hfile
    rw [ofFile] at hf
    split at hf
    next => exact wellFormed_of_ofBytes hf i hi
    next => cases hf

end Inputs

end DocIdent
