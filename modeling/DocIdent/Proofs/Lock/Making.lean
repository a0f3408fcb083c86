import DocIdent.Proofs.FileTree.Place
import DocIdent.Proofs.Inputs.Order
import DocIdent.Proofs.Lock.Init

/-!
# Making a lock, or nothing

A lock is made in stages: the settings are loaded, then the files that the input stands for
(`Inputs.selected`), one after another; their identifiers are indexed, and the lock of the index is
written. What all of this needs is said by `Command.CanInit`, and the stage at which it fails by
`Command.InitFails`. Only the last stage puts something into the tree, so a lock is made as a whole
or the tree stays as it was, with an older lock in it (`Command.run_init_eq_ok_or_unchanged`).
-/

namespace DocIdent

/-! ## The files of an input -/

namespace Inputs

variable {t : FileTree} {settings : Settings} {path : String} {node : Node}

/-- The files that an input stands for, with their paths: itself, or those of a directory. -/
def selected (settings : Settings) (path : String) : Node → List (String × ByteArray)
  | .file bytes => [(path, bytes)]
  | .directory es => candidates settings path (.directory es)

/-- A file whose path can be followed is loaded from its bytes. -/
theorem ofFile_of_isUsable (h : Path.isUsable path = true) (bytes : ByteArray) :
    ofFile (path, bytes) = ofBytes path bytes :=
  if_pos h

/-- Loading an input is loading the files that it stands for, one after another. -/
theorem load_eq_mapM (hfind : t.find path = .ok node) :
    load t settings path = ((selected settings path node).mapM ofFile).map List.flatten := by
  cases node with
  | directory es => exact load_of_find hfind
  | file bytes =>
    obtain ⟨place, directoryOnly, hlocate, -⟩ := FileTree.find_eq_ok_iff.1 hfind
    have husable : Path.isUsable path = true := (FileTree.locate_eq_ok_iff.1 hlocate).1
    have hload : load t settings path = ofBytes path bytes := by rw [load, hfind]
    rw [hload, selected, List.mapM_cons, List.mapM_nil, ofFile_of_isUsable husable]
    cases ofBytes path bytes with
    | error failure => rfl
    | ok ds =>
      show Except.ok ds = .ok [ds].flatten
      rw [List.flatten_singleton]

/-- An input is loaded exactly if it is there and each of its files is loaded. -/
theorem load_eq_ok_iff {ds : List Identifier} :
    load t settings path = .ok ds ↔
      ∃ lists, (∃ node, t.find path = .ok node ∧
        List.Forall₂ (fun f ds => ofFile f = .ok ds) (selected settings path node) lists) ∧
          lists.flatten = ds := by
  cases hfind : t.find path with
  | error fault =>
    rw [load, hfind]
    constructor
    · rintro ⟨⟩
    · rintro ⟨_, ⟨_, ⟨⟩, -⟩, -⟩
  | ok node =>
    simp only [load_eq_mapM hfind, map_eq_ok_iff, mapM_eq_ok_iff, Except.ok.injEq, exists_eq_left']

/-- It is not loaded exactly if it is not there, or one of its files is not loaded after others that
were. -/
theorem load_eq_error_iff {failure : Failure} :
    load t settings path = .error failure ↔
      (∃ fault, t.find path = .error fault ∧ failure = .fileNotFound path) ∨
        ∃ node before f after, t.find path = .ok node ∧
          selected settings path node = before ++ f :: after ∧
          (∀ b ∈ before, ∃ ds, ofFile b = .ok ds) ∧ ofFile f = .error failure := by
  cases hfind : t.find path with
  | error fault =>
    rw [load, hfind]
    constructor
    · rintro ⟨⟩
      exact .inl ⟨fault, rfl, rfl⟩
    · rintro (⟨_, -, rfl⟩ | ⟨_, _, _, _, ⟨⟩, -⟩)
      rfl
  | ok node =>
    rw [load_eq_mapM hfind, map_eq_error_iff, mapM_eq_error_iff]
    constructor
    · rintro ⟨before, f, after, hfiles, hbefore, hf⟩
      exact .inr ⟨node, before, f, after, rfl, hfiles, hbefore, hf⟩
    · rintro (⟨_, ⟨⟩, -⟩ | ⟨_, before, f, after, ⟨⟩, hfiles, hbefore, hf⟩)
      exact ⟨before, f, after, hfiles, hbefore, hf⟩

end Inputs

namespace Command

variable {t t' : FileTree} {input : String} {settings : Settings}
  {lists : List (List Identifier)} {place : Place} {failure : Failure}

/-! ## The stages -/

/-- The settings are loaded, and so is each file that the input stands for. -/
structure Loads (t : FileTree) (input : String) (settings : Settings)
    (lists : List (List Identifier)) : Prop where
  configured : Settings.load t = .ok settings
  files : ∃ node, t.find input = .ok node ∧
    List.Forall₂ (fun f ds => Inputs.ofFile f = .ok ds) (Inputs.selected settings input node) lists

/-- What making a lock needs: everything is loaded, no two different identifiers share a key, and
the lock can be written, for its path leads to a place without a directory. -/
structure CanInit (t : FileTree) (input : String) (settings : Settings)
    (lists : List (List Identifier)) (place : Place) : Prop extends
    Loads t input settings lists where
  apart : Identifier.Apart lists.flatten
  located : t.locate settings.lockPath = .ok (place, false)
  noDirectory : ∀ es, t.at? place ≠ some (.directory es)

/-- The stage at which making a lock fails, with its failure. -/
inductive InitFails (t : FileTree) (input : String) : Failure → Prop where
  /-- The settings are not loaded. -/
  | settings {failure : Failure} (h : Settings.load t = .error failure) : InitFails t input failure
  /-- The input is not there. -/
  | input {settings : Settings} {fault : FileFault} (hsettings : Settings.load t = .ok settings)
      (h : t.find input = .error fault) : InitFails t input (.fileNotFound input)
  /-- A file is not loaded, after others that were. -/
  | file {settings : Settings} {node : Node} {before after : List (String × ByteArray)}
      {f : String × ByteArray} {failure : Failure} (hsettings : Settings.load t = .ok settings)
      (hfind : t.find input = .ok node)
      (hfiles : Inputs.selected settings input node = before ++ f :: after)
      (hbefore : ∀ b ∈ before, ∃ ds, Inputs.ofFile b = .ok ds)
      (h : Inputs.ofFile f = .error failure) : InitFails t input failure
  /-- Two identifiers collide, be it within a file or between files. -/
  | collision {settings : Settings} {lists : List (List Identifier)} {c : Collision}
      (hloads : Loads t input settings lists) (h : Index.ofList lists.flatten = .error c) :
      InitFails t input (.collision c)
  /-- The lock cannot be written. -/
  | writing {settings : Settings} {lists : List (List Identifier)}
      (hloads : Loads t input settings lists) (hapart : Identifier.Apart lists.flatten)
      (h : ∀ place, t.locate settings.lockPath = .ok (place, false) →
        ∃ es, t.at? place = some (.directory es)) : InitFails t input (.io "")

/-- An input is loaded for a command exactly if the settings are, and the input by them. -/
theorem loadInputs_eq_ok_iff_load {ds : List Identifier} :
    loadInputs t input = .ok (settings, ds) ↔
      Settings.load t = .ok settings ∧ Inputs.load t settings input = .ok ds := by
  rw [loadInputs]
  simp only [bind_eq_ok_iff]
  constructor
  · rintro ⟨_, hsettings, _, hload, ⟨⟩⟩
    exact ⟨hsettings, hload⟩
  · rintro ⟨hsettings, hload⟩
    exact ⟨settings, hsettings, ds, hload, rfl⟩

/-- Settings and input are loaded exactly if the settings and all files are. -/
theorem loadInputs_eq_ok_iff {ds : List Identifier} :
    loadInputs t input = .ok (settings, ds) ↔
      ∃ lists, Loads t input settings lists ∧ lists.flatten = ds := by
  rw [loadInputs_eq_ok_iff_load, Inputs.load_eq_ok_iff]
  constructor
  · rintro ⟨hsettings, lists, hfiles, rfl⟩
    exact ⟨lists, ⟨hsettings, hfiles⟩, rfl⟩
  · rintro ⟨lists, hloads, rfl⟩
    exact ⟨hloads.configured, lists, hloads.files, rfl⟩

/-- They are not exactly if the settings are not loaded, or the input is not loaded by them. -/
theorem loadInputs_eq_error_iff :
    loadInputs t input = .error failure ↔
      Settings.load t = .error failure ∨ ∃ settings, Settings.load t = .ok settings ∧
        Inputs.load t settings input = .error failure := by
  rw [loadInputs]
  simp only [bind_eq_error_iff]
  refine or_congr_right (exists_congr fun settings => and_congr_right fun _ => ?_)
  exact or_iff_left (by rintro ⟨_, -, ⟨⟩⟩)

/-- The lock is prepared exactly if everything is loaded and no two different identifiers share a
key. -/
theorem Loads.prepareLock (h : Loads t input settings lists) {index : Index}
    (hindex : Index.ofList lists.flatten = .ok index) :
    prepareLock t input = .ok (settings.lockPath, Lock.ofIndex index) :=
  prepareLock_eq_ok_iff.2 ⟨settings, _, index, h.configured,
    Inputs.load_eq_ok_iff.2 ⟨lists, h.files, rfl⟩, hindex, rfl, rfl⟩

/-- What keeps the lock from being prepared keeps it from being made. -/
theorem initFails_of_prepareLock (h : prepareLock t input = .error failure) :
    InitFails t input failure := by
  rw [prepareLock, bind_eq_error_iff] at h
  rcases h with h | ⟨⟨settings, ds⟩, hload, h⟩
  · rcases loadInputs_eq_error_iff.1 h with h | ⟨settings, hsettings, h⟩
    · exact .settings h
    rcases Inputs.load_eq_error_iff.1 h with
      ⟨fault, hfind, rfl⟩ | ⟨node, before, f, after, hfind, hfiles, hbefore, hf⟩
    · exact .input hsettings hfind
    · exact .file hsettings hfind hfiles hbefore hf
  · obtain ⟨lists, hloads, rfl⟩ := loadInputs_eq_ok_iff.1 hload
    rcases bind_eq_error_iff.1 h with h | ⟨_, -, ⟨⟩⟩
    obtain ⟨c, hc, rfl⟩ := mapError_eq_error_iff.1 h
    exact .collision hloads hc

/-- What keeps a lock that was prepared from being saved keeps it from being made. -/
theorem initFails_of_save {path : String} {lock : Lock}
    (hprepare : prepareLock t input = .ok (path, lock)) (h : lock.save t path = .error failure) :
    InitFails t input failure := by
  obtain ⟨settings, ds, index, hsettings, hload, hindex, rfl, rfl⟩ :=
    prepareLock_eq_ok_iff.1 hprepare
  obtain ⟨lists, hfiles, rfl⟩ := Inputs.load_eq_ok_iff.1 hload
  obtain ⟨fault, hwrite, rfl⟩ := mapError_eq_error_iff.1 h
  exact .writing ⟨hsettings, hfiles⟩ (Index.exists_ofList_iff.1 ⟨index, hindex⟩)
    (FileTree.exists_write_error_iff.1 ⟨fault, hwrite⟩)

/-- If one of the stages fails, the lock is not prepared, or cannot be saved then. -/
theorem InitFails.prepareLock_or_save (h : InitFails t input failure) :
    prepareLock t input = .error failure ∨
      ∃ path lock, prepareLock t input = .ok (path, lock) ∧ lock.save t path = .error failure := by
  have hloading : ∀ {failure}, loadInputs t input = .error failure →
      prepareLock t input = .error failure := by
    intro failure hload
    rw [prepareLock, hload]
    rfl
  cases h with
  | settings h => exact .inl (hloading (loadInputs_eq_error_iff.2 (.inl h)))
  | input hsettings h =>
    exact .inl (hloading (loadInputs_eq_error_iff.2 (.inr ⟨_, hsettings,
      Inputs.load_eq_error_iff.2 (.inl ⟨_, h, rfl⟩)⟩)))
  | file hsettings hfind hfiles hbefore h =>
    exact .inl (hloading (loadInputs_eq_error_iff.2 (.inr ⟨_, hsettings,
      Inputs.load_eq_error_iff.2 (.inr ⟨_, _, _, _, hfind, hfiles, hbefore, h⟩)⟩)))
  | collision hloads h =>
    refine .inl ?_
    rw [prepareLock, loadInputs_eq_ok_iff.2 ⟨_, hloads, rfl⟩]
    simp only [ok_bind, h]
    rfl
  | @writing settings lists hloads hapart h =>
    obtain ⟨index, hindex⟩ := Index.exists_ofList_iff.2 hapart
    obtain ⟨fault, hwrite⟩ := FileTree.exists_write_error_iff.2 h
    have hsave : (Lock.ofIndex index).save t settings.lockPath = .error (.io "") :=
      mapError_eq_error_iff.2 ⟨fault, hwrite, rfl⟩
    exact .inr ⟨_, _, hloads.prepareLock hindex, hsave⟩

/-- **Making the lock fails at one of its stages**, and leaves the tree as it was. -/
theorem run_init_eq_error_iff :
    run t (.init input) = (.error failure, t') ↔ InitFails t input failure ∧ t' = t := by
  rw [run_init_eq_error_iff_save]
  refine and_congr_left fun _ => ⟨?_, InitFails.prepareLock_or_save⟩
  rintro (h | ⟨path, lock, hprepare, h⟩)
  · exact initFails_of_prepareLock h
  · exact initFails_of_save hprepare h

/-- **Making the lock succeeds as a whole.** -/
theorem CanInit.run_init (h : CanInit t input settings lists place) :
    ∃ index t', Index.ofList lists.flatten = .ok index ∧
      t.write settings.lockPath (Lock.ofIndex index).serialize.toUTF8 = .ok t' ∧
      run t (.init input) = (.ok ⟨"Wrote " ++ count index.size ++ " identifiers to " ++
        settings.lockPath ++ "\n", 0⟩, t') := by
  obtain ⟨index, hindex⟩ := Index.exists_ofList_iff.2 h.apart
  obtain ⟨t', hwrite⟩ := FileTree.exists_write_iff.2 ⟨place, h.located, h.noDirectory⟩
  exact ⟨index, t', hindex, hwrite, run_init_eq_ok_iff.2 ⟨settings, _, index, h.configured,
    Inputs.load_eq_ok_iff.2 ⟨lists, h.files, rfl⟩, hindex, hwrite, rfl⟩⟩

/-- What making a lock needed is there if it succeeded. -/
theorem exists_canInit_of_run_init {o : Outcome} (h : run t (.init input) = (.ok o, t')) :
    ∃ settings lists place, CanInit t input settings lists place := by
  obtain ⟨settings, ds, index, hsettings, hload, hindex, hwrite, -⟩ := run_init_eq_ok_iff.1 h
  obtain ⟨lists, hfiles, rfl⟩ := Inputs.load_eq_ok_iff.1 hload
  obtain ⟨place, hlocate, hnone⟩ := FileTree.exists_write_iff.1 ⟨t', hwrite⟩
  exact ⟨settings, lists, place, ⟨hsettings, hfiles⟩,
    Index.exists_ofList_iff.1 ⟨index, hindex⟩, hlocate, hnone⟩

/-- **A lock is made as a whole, or nothing is.** Making it succeeds exactly if the settings and all
files of the input are loaded, no two different identifiers share a key, and the path of the lock
leads to a place without a directory; every lock has a text. If so, the text of the lock of all
identifiers then stands in this place: it has each of them under its key, sorted, and no other.
Every other place is as it was. If not, the failure is that of the stage which failed first, and
the whole tree is as it was. -/
theorem run_init_eq_ok_or_unchanged (t : FileTree) (input : String) :
    ((∃ o t', run t (.init input) = (.ok o, t')) ↔
        ∃ settings lists place, CanInit t input settings lists place) ∧
      (∀ settings lists place, CanInit t input settings lists place →
        ∃ index t', Index.ofList lists.flatten = .ok index ∧
          run t (.init input) = (.ok ⟨"Wrote " ++ count index.size ++ " identifiers to " ++
            settings.lockPath ++ "\n", 0⟩, t') ∧
          t'.at? place = some (.file (Lock.ofIndex index).serialize.toUTF8) ∧
          Lock.Sorted (Lock.ofIndex index).entries ∧
          (∀ e, e ∈ (Lock.ofIndex index).entries ↔ ∃ d ∈ lists.flatten, e = ⟨d.key, d⟩) ∧
          ∀ other ≠ place,
            (t'.at? other).map Node.content? = (t.at? other).map Node.content?) ∧
      ∀ failure t', run t (.init input) = (.error failure, t') ↔
        InitFails t input failure ∧ t' = t := by
  refine ⟨⟨?_, ?_⟩, ?_, fun failure t' => run_init_eq_error_iff⟩
  · rintro ⟨o, t', h⟩
    exact exists_canInit_of_run_init h
  · rintro ⟨settings, lists, place, h⟩
    obtain ⟨index, t', -, -, hrun⟩ := h.run_init
    exact ⟨_, t', hrun⟩
  · intro settings lists place h
    obtain ⟨index, t', hindex, hwrite, hrun⟩ := h.run_init
    exact ⟨index, t', hindex, hrun, FileTree.at?_write hwrite h.located,
      Lock.sorted_ofIndex_of_ofList hindex, Lock.mem_entries_ofIndex_of_ofList hindex,
      fun other => FileTree.content?_at?_write hwrite h.located⟩

/-! ## Files that collide -/

/-- The file that lists an identifier without a callable is loaded, under any name for such
files. -/
theorem ofFile_listing {path : String} {d : Identifier} (husable : Path.isUsable path = true)
    (hextension : Path.extension? path = some "toml") (h : d.WellFormed)
    (hcallable : d.callable = none) :
    Inputs.ofFile (path, (Toml.write (listing d)).toUTF8) = .ok [d] := by
  have hfits : FitsListing d := by
    intro c hc
    rw [hcallable] at hc
    cases hc
  rw [Inputs.ofFile_of_isUsable husable, ofBytes_listing hextension h hfits]

/-- A tree with an old lock, and with a directory of two files whose identifiers share a key. -/
def collidingTree : FileTree :=
  ⟨[(Settings.usualLockPath, .file "old".toUTF8),
    ("dris", .directory [("b.toml", .file (Toml.write (listing .slashedPackage)).toUTF8),
      ("a.toml", .file (Toml.write (listing .slashedPath)).toUTF8)])]⟩

/-- The two files are walked in the order of their names. -/
theorem candidates_colliding (a b : ByteArray) :
    Inputs.candidates Settings.usual "dris"
        (.directory [("b.toml", .file b), ("a.toml", .file a)]) =
      [("dris/a.toml", a), ("dris/b.toml", b)] := by
  have horder : Text.notAfter "b.toml" "a.toml" = false := by decide
  have ha : Path.join "dris" "a.toml" = "dris/a.toml" := by decide
  have hb : Path.join "dris" "b.toml" = "dris/b.toml" := by decide
  have hfiles : Node.files "dris" (.directory [("b.toml", .file b), ("a.toml", .file a)]) =
      [("dris/a.toml", a), ("dris/b.toml", b)] := by
    rw [Node.files, if_pos (by decide)]
    simp [Node.sortByName, Node.filesOfEntries, Node.files, List.mergeSort, horder, ha, hb]
  rw [Inputs.candidates, hfiles]
  refine List.filter_eq_self.2 ?_
  have htake : ∀ path ∈ ["dris/a.toml", "dris/b.toml"],
      Inputs.isCandidate Settings.usual path = true := by decide
  exact List.forall_mem_cons.2 ⟨htake _ (by simp), List.forall_mem_singleton.2 (htake _ (by simp))⟩

theorem loads_collidingTree :
    Loads collidingTree "dris" Settings.usual [[.slashedPath], [.slashedPackage]] where
  configured := Settings.load_of_missing rfl
  files := by
    have hlocate : collidingTree.locate "dris" = .ok (["dris"], false) := rfl
    have hdirectory : collidingTree.at? ["dris"] =
        some (.directory [("b.toml", .file (Toml.write (listing .slashedPackage)).toUTF8),
          ("a.toml", .file (Toml.write (listing .slashedPath)).toUTF8)]) := rfl
    refine ⟨_, FileTree.find_eq_ok_iff.2 ⟨_, _, hlocate, hdirectory⟩, ?_⟩
    rw [Inputs.selected, candidates_colliding]
    exact .cons (ofFile_listing (by decide) (by decide) ⟨nofun, nofun, nofun⟩ rfl)
      (.cons (ofFile_listing (by decide) (by decide) ⟨nofun, nofun, nofun⟩ rfl) .nil)

theorem canInit_collidingTree :
    CanInit collidingTree "dris/a.toml" Settings.usual [[.slashedPath]]
      [Settings.usualLockPath] where
  configured := Settings.load_of_missing rfl
  files := by
    have hlocate : collidingTree.locate "dris/a.toml" = .ok (["dris", "a.toml"], false) := rfl
    have hfile : collidingTree.at? ["dris", "a.toml"] =
        some (.file (Toml.write (listing .slashedPath)).toUTF8) := rfl
    refine ⟨_, FileTree.find_eq_ok_iff.2 ⟨_, _, hlocate, hfile⟩, ?_⟩
    exact .cons (ofFile_listing (by decide) (by decide) ⟨nofun, nofun, nofun⟩ rfl) .nil
  apart := Index.exists_ofList_iff.1 ⟨_, rfl⟩
  located := FileTree.locate_usualLockPath _
  noDirectory := nofun

/-- The text of the lock of one of them. -/
theorem serialize_ofIndex_slashedPath :
    (Lock.ofIndex ⟨[(Identifier.slashedPath.key, .slashedPath)]⟩).serialize =
      "[[entries]]\nkey = \"a/b/c///PointingToDeclaration/\"\n\n" ++
        "[entries.dri]\npackage_name = \"a\"\nclass_names = \"b/c\"\n" := by
  have hentries : (Lock.ofIndex ⟨[(Identifier.slashedPath.key, .slashedPath)]⟩).entries =
      [⟨Identifier.slashedPath.key, .slashedPath⟩] :=
    Lock.entries_ofIndex_of_sorted (List.pairwise_singleton _ _)
  have hlock : Lock.ofIndex ⟨[(Identifier.slashedPath.key, .slashedPath)]⟩ =
      ⟨[⟨Identifier.slashedPath.key, .slashedPath⟩]⟩ := congrArg Lock.mk hentries
  rw [hlock]
  decide +kernel

/-- The two files together leave the tree with its old lock. One of them alone is locked, and the
other one is then as it was. -/
theorem run_init_eq_ok_or_unchanged_colliding :
    run collidingTree (.init "dris") = (.error (.collision
        ⟨"a/b/c///PointingToDeclaration/", .slashedPath, .slashedPackage⟩), collidingTree) ∧
      ∃ t', run collidingTree (.init "dris/a.toml") =
          (.ok ⟨"Wrote 1 identifiers to .dri.lock\n", 0⟩, t') ∧
        t'.at? [Settings.usualLockPath] = some (.file
          ("[[entries]]\nkey = \"a/b/c///PointingToDeclaration/\"\n\n" ++
            "[entries.dri]\npackage_name = \"a\"\nclass_names = \"b/c\"\n").toUTF8) ∧
        (t'.at? ["dris", "b.toml"]).map Node.content? =
          some (some (Toml.write (listing .slashedPackage)).toUTF8) := by
  constructor
  · exact ((run_init_eq_ok_or_unchanged collidingTree "dris").2.2 _ _).2
      ⟨.collision loads_collidingTree rfl, rfl⟩
  · obtain ⟨index, t', hindex, hrun, hlock, -, -, hkept⟩ :=
      (run_init_eq_ok_or_unchanged collidingTree "dris/a.toml").2.1 _ _ _ canInit_collidingTree
    obtain rfl : ⟨[(Identifier.slashedPath.key, .slashedPath)]⟩ = index := Except.ok.inj hindex
    rw [serialize_ofIndex_slashedPath] at hlock
    exact ⟨t', hrun, hlock, hkept ["dris", "b.toml"] (by decide)⟩

end Command

end DocIdent
