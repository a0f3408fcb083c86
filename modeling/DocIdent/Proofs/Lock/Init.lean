import DocIdent.Proofs.FileTree
import DocIdent.Proofs.Inputs
import DocIdent.Proofs.Lock.Check
import DocIdent.Proofs.Lock.Content

/-!
# Checking a lock that was just made

The lock of an input is made from an index, so it is clean (`Lock.clean_ofIndex`), and it is written
to a file that the next command reads by the same settings. What stands between making and checking
is the text: a lock whose identifiers fit is read back as it was, and then the check finds every
identifier fresh. A type with too many levels is written all the same, and the check cannot read it.
`Command.run_check_after_init` says which of the two happens.
-/

namespace DocIdent

/-! ## The lock of an index -/

namespace Lock

/-- The lock of an index has as many entries as the index. -/
@[simp] theorem length_entries_ofIndex (index : Index) :
    (ofIndex index).entries.length = index.size := by
  simp [ofIndex, Ledger.size]

/-- The lock of a list's index holds the identifiers of the list, and no others. -/
theorem mem_iff_of_ofList {ds : List Identifier} {index : Index} (h : Index.ofList ds = .ok index)
    (d : Identifier) : d ∈ ds ↔ ∃ e ∈ (ofIndex index).entries, e.identifier = d := by
  constructor
  · intro hd
    exact ⟨⟨d.key, d⟩, (mem_entries_ofIndex_of_ofList h _).2 ⟨d, hd, rfl⟩, rfl⟩
  · rintro ⟨e, he, rfl⟩
    obtain ⟨x, hx, rfl⟩ := (mem_entries_ofIndex_of_ofList h e).1 he
    exact hx

/-- **The lock of a sound index is clean.** -/
theorem clean_ofIndex {index : Index} (h : index.Sound) : (ofIndex index).Clean := by
  have hfresh : ∀ e ∈ (ofIndex index).entries, e.identifier.key = e.key := by
    intro e he
    exact (h.keyed _ (mem_entries_ofIndex.1 he)).symm
  refine ⟨hfresh, ?_⟩
  rw [collisions, collisionsFrom_eq_nil_iff]
  have hindex := ofList_of_fresh (sorted_ofIndex h.distinct) hfresh
  exact congrArg Prod.snd (Index.ofList_eq_ok_iff.1 hindex)

end Lock

/-! ## Making and checking -/

namespace Command

/-- What is said of a clean lock. -/
theorem checkOutcome_of_clean {lock : Lock} (h : lock.Clean) :
    checkOutcome lock =
      ⟨lines ["All " ++ count lock.entries.length ++ " identifiers fresh"], 0⟩ := by
  have hstale : lock.entries.filterMap staleLine? = [] :=
    List.filterMap_eq_nil_iff.2 fun e he => (staleLine?_eq_none_iff e).2 (h.fresh e he)
  simp [checkOutcome, hstale, h.apart]

/-- A lock is prepared exactly if the settings and the input are loaded and no two identifiers
collide. -/
theorem prepareLock_eq_ok_iff {t : FileTree} {input path : String} {lock : Lock} :
    prepareLock t input = .ok (path, lock) ↔
      ∃ settings ds index, Settings.load t = .ok settings ∧
        Inputs.load t settings input = .ok ds ∧ Index.ofList ds = .ok index ∧
        settings.lockPath = path ∧ Lock.ofIndex index = lock := by
  rw [prepareLock, loadInputs]
  simp only [bind_eq_ok_iff, mapError_eq_ok_iff]
  constructor
  · rintro ⟨_, ⟨settings, hsettings, ds, hload, ⟨⟩⟩, index, hindex, ⟨⟩⟩
    exact ⟨settings, ds, index, hsettings, hload, hindex, rfl, rfl⟩
  · rintro ⟨settings, ds, index, hsettings, hload, hindex, rfl, rfl⟩
    exact ⟨_, ⟨settings, hsettings, ds, hload, rfl⟩, index, hindex, rfl⟩

/-- A lock is made exactly if it is prepared and then written. -/
theorem run_init_eq_ok_iff {t t' : FileTree} {input : String} {o : Outcome} :
    run t (.init input) = (.ok o, t') ↔
      ∃ settings ds index, Settings.load t = .ok settings ∧
        Inputs.load t settings input = .ok ds ∧ Index.ofList ds = .ok index ∧
        t.write settings.lockPath (Lock.ofIndex index).serialize.toUTF8 = .ok t' ∧
        o = ⟨"Wrote " ++ count index.size ++ " identifiers to " ++ settings.lockPath ++ "\n",
          0⟩ := by
  simp only [run_init_eq_ok_iff_save, prepareLock_eq_ok_iff, Lock.save, mapError_eq_ok_iff]
  constructor
  · rintro ⟨_, _, ⟨settings, ds, index, hsettings, hload, hindex, rfl, rfl⟩, hwrite, rfl⟩
    rw [Lock.length_entries_ofIndex]
    exact ⟨settings, ds, index, hsettings, hload, hindex, hwrite, rfl⟩
  · rintro ⟨settings, ds, index, hsettings, hload, hindex, hwrite, rfl⟩
    rw [← Lock.length_entries_ofIndex]
    exact ⟨_, _, ⟨settings, ds, index, hsettings, hload, hindex, rfl, rfl⟩, hwrite, rfl⟩

/-- **Checking a lock that was just made.** The lock is where the settings say, apart from the
settings themselves. If each identifier of the input fits, the check finds as many fresh as were
written; if one does not fit, it fails to read the lock. -/
theorem run_check_after_init {t t' : FileTree} {settings : Settings} {input : String} {o : Outcome}
    (hsettings : Settings.load t = .ok settings)
    (hpath : t.locate settings.lockPath ≠ t.locate Settings.file)
    (hinit : run t (.init input) = (.ok o, t')) :
    ∃ ds index, Inputs.load t settings input = .ok ds ∧ Index.ofList ds = .ok index ∧
      o = ⟨"Wrote " ++ count index.size ++ " identifiers to " ++ settings.lockPath ++ "\n", 0⟩ ∧
      run t' .check =
        (if ∀ d ∈ ds, d.FitsLock then
          .ok ⟨lines ["All " ++ count index.size ++ " identifiers fresh"], 0⟩
        else .error (.tomlRead ""), t') := by
  obtain ⟨settings', ds, index, hsettings', hload, hindex, hwrite, rfl⟩ :=
    run_init_eq_ok_iff.1 hinit
  obtain rfl : settings = settings' := Except.ok.inj (hsettings.symm.trans hsettings')
  refine ⟨ds, index, hload, hindex, rfl, ?_⟩
  have hsound := Index.sound_of_ofList hindex
  have hmem : ∀ d, d ∈ ds ↔ ∃ e ∈ (Lock.ofIndex index).entries, e.identifier = d :=
    Lock.mem_iff_of_ofList hindex
  have hwf : ∀ e ∈ (Lock.ofIndex index).entries, e.identifier.WellFormed := fun e he =>
    Inputs.wellFormed_of_load hload _ ((hmem _).2 ⟨e, he, rfl⟩)
  have hfits : (∀ e ∈ (Lock.ofIndex index).entries, e.identifier.FitsLock) ↔
      ∀ d ∈ ds, d.FitsLock := by
    constructor
    · intro h d hd
      obtain ⟨e, he, rfl⟩ := (hmem d).1 hd
      exact h e he
    · exact fun h e he => h _ ((hmem _).2 ⟨e, he, rfl⟩)
  rw [run_check_eq (Settings.load_write hsettings hpath hwrite) (FileTree.readText_write hwrite),
    Lock.parse_serialize (Lock.sorted_ofIndex hsound.distinct) hwf]
  by_cases h : ∀ d ∈ ds, d.FitsLock
  · rw [if_pos h, if_pos (hfits.2 h), Except.map,
      checkOutcome_of_clean (Lock.clean_ofIndex hsound), Lock.length_entries_ofIndex]
  · rw [if_neg h, if_neg (mt hfits.1 h)]
    rfl

/-! ## At the limit -/

/-- The document of a file that lists an identifier. -/
def listing (d : Identifier) : Document :=
  .record [("dri", .list [d.toDocument])]

/-- The types of the identifier have no more levels than such a file can hold. That is one more
than a lock can hold, for the identifiers of a lock stand one key further down. -/
def FitsListing (d : Identifier) : Prop :=
  ∀ c ∈ d.callable, ∀ t ∈ c.types, t.nesting ≤ TypeRef.nestingLimit + 1

variable {d : Identifier}

/-- The sections of the file fit. -/
theorem headersFit_listing (hfits : FitsListing d) :
    Toml.HeadersFit (Toml.sectionsIn [] [("dri", .list [d.toDocument])]) := by
  have hd := (@Toml.headersFit_identifier ["dri"] (by decide) d).2 fun c hc t ht => by
    have := hfits c hc t ht
    simp only [TypeRef.nestingLimit] at this
    simp only [List.length_cons, List.length_nil, Toml.pathLimit]
    omega
  rw [Identifier.toDocument, Toml.sectionsAt, Toml.headersFit_append] at hd
  have hsections : Toml.hasSections (.list [d.toDocument]) = true := rfl
  rw [Toml.sectionsIn, Toml.sectionsIn, List.append_nil, Toml.sectionsAt, if_pos hsections,
    Identifier.toDocument, Toml.elementsAt, Toml.elementsAt, List.append_nil, Toml.headersFit_cons]
  have hheader : (["dri"] : List String).length ≤ Toml.pathLimit := by decide
  exact ⟨hheader, hd.2⟩

/-- The identifier is read from the document as it stands in the file. -/
theorem identifiersOfTable?_listing (h : d.WellFormed) :
    Inputs.identifiersOfTable? (Toml.tidied (listing d)) = some [d] := by
  have htidied : Toml.tidied (listing d) = .record [("dri", .list [Toml.tidied d.toDocument])] :=
    rfl
  have hfields : Document.fields? .toml ["dri"]
      (.record [("dri", .list [Toml.tidied d.toDocument])]) =
        some [some (.list [Toml.tidied d.toDocument])] := by
    simp [Document.fields?, Document.namedFields?, Document.uniqueField?]
  have hread : [Toml.tidied d.toDocument].mapM (Identifier.ofDocument? .toml) = some [d] := by
    rw [List.mapM_cons, Identifier.ofDocument?_tidied h]
    rfl
  rw [htidied, Inputs.identifiersOfTable?, hfields]
  exact hread

/-- The identifier is read from the bytes of the file. -/
theorem ofBytes_listing {path : String} (hextension : Path.extension? path = some "toml")
    (h : d.WellFormed) (hfits : FitsListing d) :
    Inputs.ofBytes path (Toml.write (listing d)).toUTF8 = .ok [d] := by
  have htabular : Toml.IsTabular (listing d) :=
    ⟨by simp, ⟨rfl, Toml.isTabular_identifier d, trivial⟩, trivial⟩
  have hread := Toml.read?_write htabular
  rw [if_pos (headersFit_listing hfits)] at hread
  have hds : (Toml.read? (Toml.write (listing d))).bind Inputs.identifiersOfTable? = some [d] := by
    rw [listing, hread]
    exact identifiersOfTable?_listing h
  rw [Inputs.ofBytes, textOfBytes_toUTF8, ok_bind]
  simp only [hextension, hds]
  rfl

/-- A tree with nothing but such a file. -/
def treeOfListing (d : Identifier) : FileTree :=
  ⟨[("d.toml", .file (Toml.write (listing d)).toUTF8)]⟩

theorem settings_treeOfListing (d : Identifier) :
    Settings.load (treeOfListing d) = .ok Settings.usual :=
  Settings.load_of_missing (by simp [treeOfListing, Settings.file])

/-- The identifier is read from the tree. -/
theorem inputs_treeOfListing (h : d.WellFormed) (hfits : FitsListing d) :
    Inputs.load (treeOfListing d) Settings.usual "d.toml" = .ok [d] := by
  have hlocate : (treeOfListing d).locate "d.toml" = .ok (["d.toml"], false) :=
    FileTree.locate_name (by decide) (by decide) (by decide) (by decide) (by decide) _
  have hfind : (treeOfListing d).find "d.toml" =
      .ok (.file (Toml.write (listing d)).toUTF8) := by
    rw [FileTree.find, hlocate]
    simp [treeOfListing, pure, Except.pure]
  rw [Inputs.load, hfind]
  exact ofBytes_listing (by decide) h hfits

/-- The lock of the file is made. -/
theorem run_init_treeOfListing (h : d.WellFormed) (hfits : FitsListing d) :
    ∃ o t', run (treeOfListing d) (.init "d.toml") = (.ok o, t') := by
  have hplace : (treeOfListing d).at? [Settings.usualLockPath] = none := by
    simp [treeOfListing, Settings.usualLockPath]
  obtain ⟨t', ht'⟩ : ∃ t', (treeOfListing d).write Settings.usual.lockPath
      (Lock.ofIndex ⟨[(d.key, d)]⟩).serialize.toUTF8 = .ok t' := by
    refine FileTree.exists_write_iff.2 ⟨_, FileTree.locate_usualLockPath _, fun es hes => ?_⟩
    rw [hplace] at hes
    cases hes
  exact ⟨_, t', run_init_eq_ok_iff.2 ⟨_, _, _, settings_treeOfListing d,
    inputs_treeOfListing h hfits, rfl, ht', rfl⟩⟩

/-- The usual lock is not kept in the place of the settings. -/
theorem locate_usual_ne (t : FileTree) :
    t.locate Settings.usual.lockPath ≠ t.locate Settings.file := by
  intro heq
  rw [Settings.usual, t.locate_usualLockPath, t.locate_settings] at heq
  exact absurd heq (by decide)

theorem fitsListing_receiving {levels : Nat} (h : levels ≤ 76) :
    FitsListing (Lock.receiving levels) := by
  simpa [FitsListing, Lock.receiving, Callable.types, TypeRef.nestingLimit] using h

/-- The lock of a receiver of 75 levels is read back and found fresh; that of one of 76 is made, but
cannot be read. -/
theorem run_check_after_init_receiving :
    (∃ o t', run (treeOfListing (Lock.receiving 75)) (.init "d.toml") = (.ok o, t') ∧
      run t' .check = (.ok ⟨"All 1 identifiers fresh\n", 0⟩, t')) ∧
      ∃ o t', run (treeOfListing (Lock.receiving 76)) (.init "d.toml") = (.ok o, t') ∧
        run t' .check = (.error (.tomlRead ""), t') := by
  have hcheck : ∀ n ≤ 76, ∃ o t',
      run (treeOfListing (Lock.receiving n)) (.init "d.toml") = (.ok o, t') ∧
        run t' .check = (if ∀ d ∈ [Lock.receiving n], d.FitsLock then
          .ok ⟨"All 1 identifiers fresh\n", 0⟩ else .error (.tomlRead ""), t') := by
    intro n hn
    have hwf := Lock.wellFormed_receiving n
    obtain ⟨o, t', hinit⟩ := run_init_treeOfListing hwf (fitsListing_receiving hn)
    obtain ⟨ds, index, hload, hindex, -, hcheck⟩ :=
      run_check_after_init (settings_treeOfListing _) (locate_usual_ne _) hinit
    rw [inputs_treeOfListing hwf (fitsListing_receiving hn)] at hload
    obtain rfl := Except.ok.inj hload
    obtain rfl : ⟨[((Lock.receiving n).key, Lock.receiving n)]⟩ = index := Except.ok.inj hindex
    have houtput : lines ["All " ++ count 1 ++ " identifiers fresh"] =
        "All 1 identifiers fresh\n" := by decide
    rw [← houtput]
    exact ⟨o, t', hinit, hcheck⟩
  constructor
  · obtain ⟨o, t', hinit, h⟩ := hcheck 75 (by decide)
    rw [if_pos] at h
    · exact ⟨o, t', hinit, h⟩
    · exact List.forall_mem_singleton.2 ((Lock.fitsLock_receiving_iff 75).2 (by decide))
  · obtain ⟨o, t', hinit, h⟩ := hcheck 76 (by decide)
    rw [if_neg] at h
    · exact ⟨o, t', hinit, h⟩
    · intro hall
      have hlevels := (Lock.fitsLock_receiving_iff 76).1 (hall _ (.head _))
      exact absurd hlevels (by decide)

end Command

end DocIdent
