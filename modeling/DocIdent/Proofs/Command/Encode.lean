import DocIdent.Proofs.Json.Pretty
import DocIdent.Proofs.Json.RoundTrip
import DocIdent.Proofs.Lock.Making

/-!
# Writing keys out

Keys are written out as lines or as a list of records, one for each identifier with its key
(`Command.keyedDocument`). The list is read back from its text by every reader that goes as deep as
it nests, and from the list each key with its identifier, since what was loaded is well formed
(`Command.listOf?_keyedDocument`). So both ways of writing say the same about an input that can be
loaded (`Command.run_encode_eq`).
-/

namespace DocIdent.Command

variable {t : FileTree} {input : String} {settings : Settings} {ds : List Identifier}

/-- The list of identifiers with their keys is made of texts, words, lists and records. -/
theorem isBasic_keyedDocument (ds : List Identifier) : (keyedDocument ds).IsBasic := by
  refine (Document.itemsBasic_iff _).2 fun item hitem => ?_
  obtain ⟨d, -, rfl⟩ := List.mem_map.1 hitem
  exact LockEntry.isBasic_toDocument ⟨d.key, d⟩

/-- Each key is read back with its identifier from the list of them. -/
theorem listOf?_keyedDocument (hds : ∀ d ∈ ds, d.WellFormed) :
    (keyedDocument ds).listOf? (LockEntry.ofDocument? .json) =
      some (ds.map fun d => ⟨d.key, d⟩) := by
  have hentries : ∀ e ∈ ds.map fun d => (⟨d.key, d⟩ : LockEntry),
      LockEntry.ofDocument? .json e.toDocument = some e := by
    intro e he
    obtain ⟨d, hd, rfl⟩ := List.mem_map.1 he
    exact LockEntry.ofDocument?_toDocument (hds d hd)
  have hread := mapM_map_eq_some hentries
  rw [List.map_map] at hread
  exact hread

/-- **Both ways of writing keys say the same.** Let an input be loaded with some identifiers. As
lines, exactly their keys are written, in their order and each with its end. As JSON, one list is
written that has a record for each of them, and if it does not nest too deep, each key with its
identifier is read back from it, in their order. The tree is left as it was. -/
theorem run_encode_eq (h : loadInputs t input = .ok (settings, ds)) :
    run t (.encode input false) = (.ok ⟨String.join (ds.map fun d => d.key ++ "\n"), 0⟩, t) ∧
    ∃ text, run t (.encode input true) = (.ok ⟨text, 0⟩, t) ∧
      (∀ limit, (keyedDocument ds).depth ≤ limit → Json.readWithin? limit text =
        some (.list (ds.map fun d => .record [("key", .text d.key), ("dri", d.toDocument)]))) ∧
      ((keyedDocument ds).depth ≤ Json.nestingLimit →
        (Json.read? text).bind (·.listOf? (LockEntry.ofDocument? .json)) =
          some (ds.map fun d => ⟨d.key, d⟩)) := by
  have hrun : ∀ json, run t (.encode input json) = (.ok ⟨encodeOutput ds json, 0⟩, t) := by
    intro json
    rw [run_encode, h]
    rfl
  have hread : ∀ limit, (keyedDocument ds).depth ≤ limit →
      Json.readWithin? limit (encodeOutput ds true) = some (keyedDocument ds) :=
    fun limit hlimit => Json.readWithin?_pretty (isBasic_keyedDocument ds) hlimit
  refine ⟨?_, encodeOutput ds true, hrun true, hread, fun hdepth => ?_⟩
  · have hlines : encodeOutput ds false = String.join (ds.map fun d => d.key ++ "\n") :=
      congrArg String.join (List.map_map ..)
    rw [hrun, hlines]
  · rw [Json.read?, hread _ hdepth]
    exact listOf?_keyedDocument (Inputs.wellFormed_of_load (loadInputs_eq_ok_iff_load.1 h).2)

/-- Of no identifiers an empty list is written. -/
example : encodeOutput [] true = "[]\n" := by decide

/-- A parameter with texts that are written with escapes is written with its key. -/
theorem run_encode_eq_quoting :
    run (treeOfListing .quoting) (.encode "d.toml" false) =
      (.ok ⟨String.join [Identifier.quoting.key ++ "\n"], 0⟩, treeOfListing .quoting) ∧
    ∃ text, run (treeOfListing .quoting) (.encode "d.toml" true) =
        (.ok ⟨text, 0⟩, treeOfListing .quoting) ∧
      (Json.read? text).bind (·.listOf? (LockEntry.ofDocument? .json)) =
        some [⟨Identifier.quoting.key, .quoting⟩] := by
  have hfits : FitsListing .quoting := by
    rintro c ⟨⟩
    decide
  have hload : loadInputs (treeOfListing .quoting) "d.toml" =
      .ok (Settings.usual, [.quoting]) :=
    loadInputs_eq_ok_iff_load.2 ⟨settings_treeOfListing _,
      inputs_treeOfListing Identifier.wellFormed_quoting hfits⟩
  obtain ⟨hlines, text, hjson, -, hread⟩ := run_encode_eq hload
  exact ⟨hlines, text, hjson, hread (by decide)⟩

end DocIdent.Command
