import DocIdent.Proofs.Command
import DocIdent.Proofs.Lock.RoundTrip

/-!
# What a check accepts

A check finds nothing wrong with a lock if every entry is fresh and no two identifiers collide
(`Command.exitCode_checkOutcome_eq_zero_iff`). These are the locks that are made from an index of
their own identifiers (`Lock.clean_iff_ofIndex`): an index holds every identifier under its key, so
an entry that is not fresh is in no such lock; and with every entry fresh, the order of the keys
leaves no room for a collision.
-/

namespace DocIdent

/-- An entry is fresh while its identifier has the pinned key. -/
theorem LockEntry.freshness_eq_fresh_iff {e : LockEntry} :
    e.freshness = .fresh ↔ e.identifier.key = e.key := by
  rw [freshness]
  by_cases h : e.identifier.key = e.key
  · simp [h]
  · simp [h]

namespace Lock

/-- Every entry is fresh, and the scan for collisions finds none. -/
structure Clean (lock : Lock) : Prop where
  fresh : ∀ e ∈ lock.entries, e.identifier.key = e.key
  apart : lock.collisions = []

/-- A text that is there is read as a lock. -/
theorem load_eq_parse {t : FileTree} {path text : String} (h : t.readText path = .ok text) :
    load t path = parse text := by
  have hbytes : ∃ bytes, t.readBytes path = .ok bytes := by
    rw [FileTree.readText] at h
    split at h
    next bytes hbytes => exact ⟨bytes, hbytes⟩
    next => cases h
  obtain ⟨bytes, hbytes⟩ := hbytes
  rw [load, hbytes, h]
  rfl

/-- A lock that was read is sorted. -/
theorem sorted_of_parse {text : String} {lock : Lock} (h : parse text = .ok lock) :
    Sorted lock.entries := by
  rw [parse] at h
  split at h
  next => cases h
  next entries hentries =>
    cases hof : ofEntries entries with
    | error corruption =>
      rw [hof] at h
      cases h
    | ok read =>
      rw [hof] at h
      obtain rfl : read = lock := Except.ok.inj h
      obtain ⟨hsorted, rfl⟩ := ofEntries_eq_ok_iff.1 hof
      exact hsorted

/-- The identifiers of a lock, in the order of its entries. -/
def identifiers (lock : Lock) : List Identifier :=
  lock.entries.map (·.identifier)

/-- The index of a lock's identifiers, if every entry is fresh. -/
theorem ofList_of_fresh {lock : Lock} (hsorted : Sorted lock.entries)
    (h : ∀ e ∈ lock.entries, e.identifier.key = e.key) :
    Index.ofList lock.identifiers = .ok ⟨lock.entries.map fun e => (e.key, e.identifier)⟩ := by
  have hkeys : lock.identifiers.map Identifier.key = lock.entries.map (·.key) := by
    rw [identifiers, List.map_map]
    exact List.map_congr_left h
  have hentries : (lock.identifiers.map fun d => (d.key, d)) =
      lock.entries.map fun e => (e.key, e.identifier) := by
    rw [identifiers, List.map_map]
    exact List.map_congr_left fun e he => by simp [h e he]
  have hall : Index.insertEach {} lock.identifiers = _ := Index.insertEach_of_nodup (by
    rw [hkeys]
    exact hsorted.nodup)
  rw [Index.ofList, hall, hentries]
  rfl

/-- **A sorted lock is clean** exactly if it is the lock of an index of its identifiers. -/
theorem clean_iff_ofIndex {lock : Lock} (hsorted : Sorted lock.entries) :
    lock.Clean ↔ ∃ index, Index.ofList lock.identifiers = .ok index ∧ ofIndex index = lock := by
  constructor
  · rintro ⟨hfresh, -⟩
    refine ⟨_, ofList_of_fresh hsorted hfresh, ?_⟩
    have hentries : indexEntries ⟨lock.entries.map fun e => (e.key, e.identifier)⟩ =
        lock.entries := by
      simp [indexEntries, Function.comp_def]
    have hlock := entries_ofIndex_of_sorted (by rwa [hentries])
    rw [hentries] at hlock
    exact congrArg Lock.mk hlock
  · rintro ⟨index, hindex, rfl⟩
    refine ⟨fun e he => ?_, ?_⟩
    · exact ((Index.sound_of_ofList hindex).keyed _ (mem_entries_ofIndex.1 he)).symm
    · rw [collisions, collisionsFrom_eq_nil_iff]
      exact congrArg Prod.snd (Index.ofList_eq_ok_iff.1 hindex)

end Lock

namespace Command

/-- The line on an entry is left out exactly if the entry is fresh. -/
theorem staleLine?_eq_none_iff (e : LockEntry) :
    staleLine? e = none ↔ e.identifier.key = e.key := by
  rw [← LockEntry.freshness_eq_fresh_iff, staleLine?]
  cases e.freshness with
  | fresh => exact iff_of_true rfl rfl
  | stale current => exact iff_of_false nofun nofun

/-- Collisions decide the exit code, and then entries that are not fresh. -/
theorem exitCode_checkOutcome (lock : Lock) :
    (checkOutcome lock).exitCode =
      if lock.collisions ≠ [] then 2
      else if ∃ e ∈ lock.entries, e.identifier.key ≠ e.key then 1 else 0 := by
  have hstale : 0 < min (lock.entries.filterMap staleLine?).length staleLimit ↔
      ∃ e ∈ lock.entries, e.identifier.key ≠ e.key := by
    have hlimit : 0 < staleLimit := by decide
    rw [Nat.lt_min, and_iff_left hlimit, List.length_pos_iff, ne_eq, List.filterMap_eq_nil_iff]
    simp only [staleLine?_eq_none_iff, not_forall, ne_eq, exists_prop]
  rw [checkOutcome]
  simp only [Bool.not_eq_true', List.isEmpty_eq_false_iff, hstale]
  split
  · rfl
  · split
    · rfl
    · rfl

/-- A check ends well exactly if the lock is clean. -/
theorem exitCode_checkOutcome_eq_zero_iff (lock : Lock) :
    (checkOutcome lock).exitCode = 0 ↔ lock.Clean := by
  rw [exitCode_checkOutcome]
  split
  next hcollision => exact iff_of_false (by decide) fun hclean => hcollision hclean.apart
  next hapart =>
    split
    next hstale =>
      obtain ⟨e, he, hne⟩ := hstale
      exact iff_of_false (by decide) fun hclean => hne (hclean.fresh e he)
    next hfresh =>
      push Not at hapart hfresh
      exact iff_of_true rfl ⟨hfresh, hapart⟩

/-- What a check does with the text of the lock. -/
theorem run_check_eq {t : FileTree} {settings : Settings} {text : String}
    (hsettings : Settings.load t = .ok settings)
    (htext : t.readText settings.lockPath = .ok text) :
    run t .check = ((Lock.parse text).map checkOutcome, t) := by
  have hload : Lock.load t settings.lockPath = Lock.parse text := Lock.load_eq_parse htext
  rw [run_check, hsettings]
  exact congrArg (fun read => (Except.map checkOutcome read, t)) hload

/-- **What a check accepts.** In a tree whose lock is read, the check ends with exit code zero
exactly if the identifiers of the lock make an index, and the lock of that index is the one that was
read. -/
theorem run_check_exitCode_eq_zero_iff {t : FileTree} {settings : Settings} {text : String}
    {lock : Lock} (hsettings : Settings.load t = .ok settings)
    (htext : t.readText settings.lockPath = .ok text) (hlock : Lock.parse text = .ok lock) :
    ∃ o, run t .check = (.ok o, t) ∧
      (o.exitCode = 0 ↔ ∃ index, Index.ofList (lock.entries.map (·.identifier)) = .ok index ∧
        Lock.ofIndex index = lock) := by
  refine ⟨checkOutcome lock, ?_, ?_⟩
  · rw [run_check_eq hsettings htext, hlock]
    rfl
  · rw [exitCode_checkOutcome_eq_zero_iff]
    exact Lock.clean_iff_ofIndex (Lock.sorted_of_parse hlock)

/-- A tree with nothing but a lock in the usual place. -/
def treeOfLock (lock : Lock) : FileTree :=
  ⟨[(Settings.usualLockPath, .file lock.serialize.toUTF8)]⟩

theorem load_treeOfLock (lock : Lock) : Settings.load (treeOfLock lock) = .ok Settings.usual :=
  Settings.load_of_missing (by simp [treeOfLock, Settings.file, Settings.usualLockPath])

theorem readText_treeOfLock (lock : Lock) :
    (treeOfLock lock).readText Settings.usual.lockPath = .ok lock.serialize := by
  have hbytes : (treeOfLock lock).readBytes Settings.usual.lockPath =
      .ok lock.serialize.toUTF8 :=
    FileTree.readBytes_of_locate (FileTree.locate_usualLockPath _)
      (by simp [treeOfLock])
  rw [FileTree.readText, hbytes]
  exact textOfBytes_toUTF8 _

/-- A lock whose one entry is fresh. -/
def lockOf (d : Identifier) : Lock :=
  ⟨[⟨d.key, d⟩]⟩

theorem clean_lockOf (d : Identifier) : (lockOf d).Clean where
  fresh e he := by
    obtain rfl := List.mem_singleton.1 he
    rfl
  apart := rfl

/-- A lock whose one entry is fresh is accepted. One that has an identifier under two other keys
than its own is not. -/
theorem run_check_exitCode_eq_zero_iff_receiving :
    (∃ o, run (treeOfLock (lockOf (Lock.receiving 75))) .check =
        (.ok o, treeOfLock (lockOf (Lock.receiving 75))) ∧ o.exitCode = 0) ∧
      ∃ o, run (treeOfLock (Lock.receivingTwice 75)) .check =
        (.ok o, treeOfLock (Lock.receivingTwice 75)) ∧ o.exitCode ≠ 0 := by
  constructor
  · have hsorted : Lock.Sorted (lockOf (Lock.receiving 75)).entries :=
      List.pairwise_singleton _ _
    have hparse : Lock.parse (lockOf (Lock.receiving 75)).serialize =
        .ok (lockOf (Lock.receiving 75)) := by
      rw [Lock.parse_serialize hsorted, if_pos]
      · exact List.forall_mem_singleton.2 ((Lock.fitsLock_receiving_iff 75).2 (by decide))
      · exact List.forall_mem_singleton.2 (Lock.wellFormed_receiving 75)
    obtain ⟨o, hrun, hexit⟩ := run_check_exitCode_eq_zero_iff (load_treeOfLock _)
      (readText_treeOfLock _) hparse
    exact ⟨o, hrun, hexit.2 ((Lock.clean_iff_ofIndex hsorted).1 (clean_lockOf _))⟩
  · have hsorted := Lock.sorted_receivingTwice 75
    have hparse : Lock.parse (Lock.receivingTwice 75).serialize =
        .ok (Lock.receivingTwice 75) := by
      rw [Lock.parse_serialize hsorted (Lock.wellFormed_receivingTwice 75),
        if_pos (Lock.fitsLock_receivingTwice (by decide))]
    obtain ⟨o, hrun, hexit⟩ := run_check_exitCode_eq_zero_iff (load_treeOfLock _)
      (readText_treeOfLock _) hparse
    refine ⟨o, hrun, fun hzero => ?_⟩
    have hclean := (Lock.clean_iff_ofIndex hsorted).2 (hexit.1 hzero)
    have hfirst : (Lock.receiving 75).key = "" := hclean.fresh ⟨"", _⟩ (.head _)
    have hsecond : (Lock.receiving 75).key = "'\n" := hclean.fresh ⟨"'\n", _⟩ (.tail _ (.head _))
    exact absurd (hfirst.symm.trans hsecond) (by decide)

end Command

end DocIdent
