import DocIdent.Proofs.FileTree.Place
import DocIdent.Proofs.Inputs.Order
import DocIdent.Proofs.Lock.Init

/-!
# When a walk leaves out the lock

A walk tells the lock by the steps of its path, taken from the point where all paths begin, and the
paths of a walk begin as the input does. So an input that begins with a point never brings the lock
(`Inputs.locate_ne_of_mem_candidates`), whatever is written there (`Inputs.load_write_lock`), and
making the lock again makes the same lock (`Command.run_init_again`). For an input that begins with
a name no file is left out for being the lock (`Inputs.mem_candidates_iff_of_not_beginsHere`).
`Inputs.lock_left_out` puts both together.
-/

namespace DocIdent

namespace Inputs

variable {t t' : FileTree} {settings : Settings} {input path : String} {es : List (String × Node)}
  {place inputPlace : Place} {directoryOnly : Bool} {names : List String}

/-- What names go down to from an input begins as the input does, and has its names. -/
theorem below_input (hinput : t.locate input = .ok (place, directoryOnly))
    (hnames : ∀ n ∈ names, Path.IsEntryName n) :
    Path.isAbsolute (Path.below input names) = false ∧
      Path.names (Path.below input names) = Path.names input ++ names ∧
      (Path.BeginsHere (Path.below input names) ↔ Path.BeginsHere input) := by
  obtain ⟨hempty, habsolute, hne⟩ := FileTree.relative_of_locate hinput
  have hbelow := Path.names_below hnames input
  refine ⟨(Path.isAbsolute_below hnames hempty).trans habsolute, hbelow, ?_⟩
  rw [Path.BeginsHere, Path.BeginsHere, hbelow, List.head?_append_of_ne_nil _ hne]

/-! ## An input that begins with a point -/

/-- A path that begins with a point and makes the steps of the lock's path is not taken. -/
theorem isCandidate_eq_false_of_steps (hpath : Path.isAbsolute path = false)
    (hhere : Path.BeginsHere path) (hlock : Path.isAbsolute settings.lockPath = false)
    (hsteps : Path.stepsOfNames (Path.names path) =
      Path.stepsOfNames (Path.names settings.lockPath)) :
    isCandidate settings path = false := by
  have hsame : Path.steps path = Path.steps (Path.join "." settings.lockPath) := by
    rw [Path.steps_join_here hlock, Path.steps_eq hpath, if_pos hhere, hsteps,
      List.singleton_append]
  simp [isCandidate, hsame]

/-- **No file that is taken is the lock**, if the input begins with a point and neither its path nor
that of the lock leads up. -/
theorem locate_ne_of_mem_candidates (ht : t.top.WellFormed)
    (hfind : t.find input = .ok (.directory es))
    (hlock : t.locate settings.lockPath = .ok (place, false)) (hhere : Path.BeginsHere input)
    (hinputUp : ".." ∉ Path.names input) (hlockUp : ".." ∉ Path.names settings.lockPath) :
    ∀ f ∈ candidates settings input (.directory es),
      t.locate f.1 ≠ t.locate settings.lockPath := by
  intro f hf hsame
  obtain ⟨inputPlace, directoryOnly, hinput, -⟩ := FileTree.find_eq_ok_iff.1 hfind
  have hes := FileTree.wellFormed_of_find ht hfind
  obtain ⟨hcandidate, names, hpath, -, hfile⟩ := ((listed_candidates hes).mem_iff f).1 hf
  have hentries := hes.isEntryName_of_at? hfile
  obtain ⟨habsolute, hbelow, hbegins⟩ := below_input hinput hentries
  have hup : ".." ∉ Path.names f.1 := by
    rw [hpath, hbelow, List.mem_append, not_or]
    exact ⟨hinputUp, fun hmem => (hentries _ hmem).notUp rfl⟩
  have hsteps := FileTree.steps_of_locate (hsame.trans hlock) hup
  rw [← FileTree.steps_of_locate hlock hlockUp, hpath] at hsteps
  rw [hpath, isCandidate_eq_false_of_steps habsolute (hbegins.2 hhere)
    (FileTree.relative_of_locate hlock).2.1 hsteps] at hcandidate
  cases hcandidate

/-- A path below such an input that is taken does not lead to the place of the lock. -/
theorem place_ne_of_isCandidate (ht : t.top.WellFormed)
    (hinput : t.locate input = .ok (inputPlace, directoryOnly))
    (hlock : t.locate settings.lockPath = .ok (place, false)) (hhere : Path.BeginsHere input)
    (hinputUp : ".." ∉ Path.names input) (hlockUp : ".." ∉ Path.names settings.lockPath)
    (hcandidate : isCandidate settings (Path.below input names) = true) :
    inputPlace ++ names ≠ place := by
  intro hplace
  have hentries : ∀ n ∈ names, Path.IsEntryName n := fun n hn =>
    FileTree.isEntryName_of_locate ht hlock n (hplace ▸ List.mem_append_right _ hn)
  obtain ⟨habsolute, hbelow, hbegins⟩ := below_input hinput hentries
  have hsteps : Path.stepsOfNames (Path.names (Path.below input names)) =
      Path.stepsOfNames (Path.names settings.lockPath) := by
    rw [hbelow, Path.stepsOfNames_append, FileTree.steps_of_locate hinput hinputUp,
      Path.stepsOfNames_eq_map hentries, ← List.map_append, hplace,
      FileTree.steps_of_locate hlock hlockUp]
  rw [isCandidate_eq_false_of_steps habsolute (hbegins.2 hhere)
    (FileTree.relative_of_locate hlock).2.1 hsteps] at hcandidate
  cases hcandidate

/-- **Whatever is written as the lock, such an input is loaded as before.** -/
theorem load_write_lock {content : ByteArray} (ht : t.top.WellFormed)
    (hfind : t.find input = .ok (.directory es))
    (hlock : t.locate settings.lockPath = .ok (place, false)) (hhere : Path.BeginsHere input)
    (hinputUp : ".." ∉ Path.names input) (hlockUp : ".." ∉ Path.names settings.lockPath)
    (hwrite : t.write settings.lockPath content = .ok t') :
    load t' settings input = load t settings input := by
  obtain ⟨inputPlace, directoryOnly, hinput, hes⟩ := FileTree.find_eq_ok_iff.1 hfind
  have hkept := FileTree.directoriesIn_write hwrite
  obtain ⟨es', hes'⟩ := hkept inputPlace es hes
  have hfind' : t'.find input = .ok (.directory es') := FileTree.find_eq_ok_iff.2
    ⟨inputPlace, directoryOnly, FileTree.locate_of_directoriesIn hkept hinput, hes'⟩
  have hbelow : ∀ (u : FileTree) (inner : List (String × Node)) (names : List String),
      u.at? inputPlace = some (.directory inner) →
        (Node.directory inner).at? names = u.at? (inputPlace ++ names) := by
    intro u inner names hinner
    rw [FileTree.at?, Node.at?_append, ← FileTree.at?, hinner]
    rfl
  rw [load_of_find hfind, load_of_find hfind']
  have hcandidates : candidates settings input (.directory es') =
      candidates settings input (.directory es) := by
    refine candidates_eq_of_same
      (FileTree.wellFormed_of_find (FileTree.wellFormed_write ht hwrite) hfind')
      (FileTree.wellFormed_of_find ht hfind) fun names other hcandidate => ?_
    rw [hbelow t' es' names hes', hbelow t es names hes]
    exact FileTree.at?_write_iff hwrite hlock
      (place_ne_of_isCandidate ht hinput hlock hhere hinputUp hlockUp hcandidate)
  rw [hcandidates]

/-! ## An input that begins with a name -/

/-- **No file is left out for being the lock**, if the input begins with a name. -/
theorem mem_candidates_iff_of_not_beginsHere (ht : t.top.WellFormed)
    (hfind : t.find input = .ok (.directory es))
    (hlock : t.locate settings.lockPath = .ok (place, false)) (hhere : ¬ Path.BeginsHere input)
    (f : String × ByteArray) :
    f ∈ candidates settings input (.directory es) ↔
      f ∈ (Node.directory es).files input ∧ hasInputExtension f.1 = true ∧
        Path.fileName? f.1 ≠ some Settings.file ∧ settings.takes (Path.relative f.1) = true := by
  obtain ⟨inputPlace, directoryOnly, hinput, -⟩ := FileTree.find_eq_ok_iff.1 hfind
  have hes := FileTree.wellFormed_of_find ht hfind
  rw [candidates, List.mem_filter]
  refine and_congr_right fun hf => ?_
  obtain ⟨names, hpath, -, hfile⟩ := (Node.mem_files_iff hes).1 hf
  obtain ⟨habsolute, -, hbegins⟩ := below_input hinput (hes.isEntryName_of_at? hfile)
  have hne : Path.steps f.1 ≠ Path.steps (Path.join "." settings.lockPath) := by
    rw [Path.steps_join_here (FileTree.relative_of_locate hlock).2.1, hpath,
      Path.steps_eq habsolute, if_neg (mt hbegins.1 hhere), List.nil_append]
    intro hsame
    refine Path.here_notMem_stepsOfNames (Path.names (Path.below input names)) ?_
    rw [hsame]
    exact .head _
  simp [isCandidate, hne, and_assoc]

end Inputs

/-- **Making the lock again makes the same lock**, if the input begins with a point. -/
theorem Command.run_init_again {t t' : FileTree} {settings : Settings} {input : String}
    {es : List (String × Node)} {place : Place} {o : Outcome} (ht : t.top.WellFormed)
    (hsettings : Settings.load t = .ok settings) (hfind : t.find input = .ok (.directory es))
    (hlock : t.locate settings.lockPath = .ok (place, false))
    (hpath : t.locate settings.lockPath ≠ t.locate Settings.file)
    (hhere : Path.BeginsHere input) (hinputUp : ".." ∉ Path.names input)
    (hlockUp : ".." ∉ Path.names settings.lockPath) (hinit : run t (.init input) = (.ok o, t')) :
    run t' (.init input) = (.ok o, t') := by
  obtain ⟨settings', ds, index, hsettings', hload, hindex, hwrite, rfl⟩ :=
    run_init_eq_ok_iff.1 hinit
  obtain rfl : settings = settings' := Except.ok.inj (hsettings.symm.trans hsettings')
  exact run_init_eq_ok_iff.2 ⟨settings, ds, index, Settings.load_write hsettings hpath hwrite,
    (Inputs.load_write_lock ht hfind hlock hhere hinputUp hlockUp hwrite).trans hload, hindex,
    FileTree.write_write hwrite, rfl⟩

namespace Inputs

/-- **When a walk leaves out the lock.** If the input begins with a point, and neither its path nor
that of the lock leads up, then no file that is taken is the lock, the input is loaded as before
whatever is written as the lock, and making the lock again makes the same. If the input begins with
a name, no file is left out for being the lock. -/
theorem lock_left_out {t : FileTree} {settings : Settings} {input : String}
    {es : List (String × Node)} {place : Place} (ht : t.top.WellFormed)
    (hfind : t.find input = .ok (.directory es))
    (hlock : t.locate settings.lockPath = .ok (place, false)) :
    (Path.BeginsHere input → ".." ∉ Path.names input → ".." ∉ Path.names settings.lockPath →
      (∀ f ∈ candidates settings input (.directory es),
        t.locate f.1 ≠ t.locate settings.lockPath) ∧
      (∀ content t', t.write settings.lockPath content = .ok t' →
        load t' settings input = load t settings input) ∧
      (Settings.load t = .ok settings → t.locate settings.lockPath ≠ t.locate Settings.file →
        ∀ o t', Command.run t (.init input) = (.ok o, t') →
          Command.run t' (.init input) = (.ok o, t'))) ∧
      (¬ Path.BeginsHere input → ∀ f, f ∈ candidates settings input (.directory es) ↔
        f ∈ (Node.directory es).files input ∧ hasInputExtension f.1 = true ∧
          Path.fileName? f.1 ≠ some Settings.file ∧
          settings.takes (Path.relative f.1) = true) := by
  refine ⟨fun hhere hinputUp hlockUp => ⟨?_, fun content t' hwrite => ?_,
    fun hsettings hpath o t' hinit => ?_⟩, fun hhere f => ?_⟩
  · exact locate_ne_of_mem_candidates ht hfind hlock hhere hinputUp hlockUp
  · exact load_write_lock ht hfind hlock hhere hinputUp hlockUp hwrite
  · exact Command.run_init_again ht hsettings hfind hlock hpath hhere hinputUp hlockUp hinit
  · exact mem_candidates_iff_of_not_beginsHere ht hfind hlock hhere f

/-! ## A lock among the inputs -/

/-- Settings that keep the lock in a directory, under a name that inputs have. -/
def lockInSub : Settings :=
  ⟨[], [], "sub/lock.json"⟩

/-- A tree with these settings and this directory. -/
def treeOfSub (es : List (String × Node)) : FileTree :=
  ⟨[(Settings.file, .file "lockfile = \"sub/lock.json\"".toUTF8), ("sub", .directory es)]⟩

theorem settings_treeOfSub (es : List (String × Node)) :
    Settings.load (treeOfSub es) = .ok lockInSub :=
  Settings.load_of_text rfl (by decide +kernel)

/-- A directory with one file is well formed in this tree. -/
theorem wellFormed_treeOfSub {name : String} (hname : Path.IsEntryName name)
    (content : ByteArray) : (treeOfSub [(name, .file content)]).top.WellFormed := by
  have htop : Node.IsListing [Settings.file, "sub"] := by decide
  refine Node.wellFormed_directory htop (List.forall_mem_cons.2
    ⟨Node.wellFormed_file _, List.forall_mem_singleton.2 (Node.wellFormed_directory ?_ ?_)⟩)
  · exact ⟨List.nodup_singleton name, List.forall_mem_singleton.2 hname⟩
  · exact List.forall_mem_singleton.2 (Node.wellFormed_file content)

/-- Both spellings of the directory lead to it. -/
theorem find_treeOfSub (es : List (String × Node)) :
    (treeOfSub es).find "sub" = .ok (.directory es) ∧
      (treeOfSub es).find "./sub" = .ok (.directory es) :=
  ⟨FileTree.find_eq_ok_iff.2 ⟨["sub"], false, rfl, rfl⟩,
    FileTree.find_eq_ok_iff.2 ⟨["sub"], false, rfl, rfl⟩⟩

/-- An empty list is read from a directory that holds nothing else. -/
theorem load_treeOfSub :
    load (treeOfSub [("a.json", .file "[]".toUTF8)]) lockInSub "./sub" = .ok [] := by
  have hfiles : (Node.directory [("a.json", .file "[]".toUTF8)]).files "./sub" =
      [("./sub/a.json", "[]".toUTF8)] := by
    have husable : Path.isUsable "./sub" = true := by decide
    rw [Node.files, if_pos husable, Node.filesOfEntries, Node.filesOfEntries, Node.sortByName,
      List.mergeSort_singleton, Node.files]
    rfl
  have hcandidate : isCandidate lockInSub "./sub/a.json" = true := by decide
  have hfile : ofFile ("./sub/a.json", "[]".toUTF8) = .ok [] := by
    have hread : (Json.read? "[]").bind (Identifier.listOfDocument? .json) = some [] := by
      decide +kernel
    rw [ofFile_json (by decide) (by decide), hread]
  have hcandidates : candidates lockInSub "./sub" (.directory [("a.json", .file "[]".toUTF8)]) =
      [("./sub/a.json", "[]".toUTF8)] := by
    rw [candidates, hfiles]
    exact List.filter_eq_self.2 (List.forall_mem_singleton.2 hcandidate)
  rw [load_of_find (find_treeOfSub _).2, hcandidates, List.mapM_cons, hfile]
  rfl

/-- A lock is made of it. -/
theorem run_init_treeOfSub : ∃ o t',
    Command.run (treeOfSub [("a.json", .file "[]".toUTF8)]) (.init "./sub") = (.ok o, t') :=
  ⟨_, _, Command.run_init_eq_ok_iff.2
    ⟨lockInSub, [], {}, settings_treeOfSub _, load_treeOfSub, rfl, rfl, rfl⟩⟩

/-- A lock in an input directory that is named without a point is taken for an input. If the
directory is named with a point, the lock is left out, and is made again as it was. -/
theorem lock_left_out_sub :
    (("sub/lock.json", "?".toUTF8) ∈
        candidates lockInSub "sub" (.directory [("lock.json", .file "?".toUTF8)])) ∧
      (∀ f ∈ candidates lockInSub "./sub" (.directory [("lock.json", .file "?".toUTF8)]),
        (treeOfSub [("lock.json", .file "?".toUTF8)]).locate f.1 ≠
          .ok (["sub", "lock.json"], false)) ∧
      ∃ o t',
        Command.run (treeOfSub [("a.json", .file "[]".toUTF8)]) (.init "./sub") = (.ok o, t') ∧
          Command.run t' (.init "./sub") = (.ok o, t') := by
  have hlock : ∀ es, (treeOfSub es).locate lockInSub.lockPath = .ok (["sub", "lock.json"], false) :=
    fun _ => rfl
  have hname : Path.IsEntryName "lock.json" := by decide
  have hwf := wellFormed_treeOfSub hname "?".toUTF8
  obtain ⟨o, t', hinit⟩ := run_init_treeOfSub
  refine ⟨?_, ?_, o, t', hinit, ?_⟩
  · refine ((lock_left_out hwf (find_treeOfSub _).1 (hlock _)).2 (by decide) _).2
      ⟨(Node.mem_files_iff (FileTree.wellFormed_of_find hwf (find_treeOfSub _).1)).2
        ⟨["lock.json"], rfl, ⟨by decide, trivial⟩, rfl⟩, by decide, by decide, by decide⟩
  · exact ((lock_left_out hwf (find_treeOfSub _).2 (hlock _)).1 rfl (by decide) (by decide)).1
  · exact ((lock_left_out (wellFormed_treeOfSub (by decide) _) (find_treeOfSub _).2 (hlock _)).1 rfl
      (by decide) (by decide)).2.2 (settings_treeOfSub _) (by rw [hlock]; decide) o t' hinit

end Inputs

end DocIdent
