import DocIdent.Proofs.FileTree.Walk
import DocIdent.Proofs.Inputs

/-!
# Loading a directory

A directory is loaded file by file, in the order of the paths of the files that may hold identifiers
(`Inputs.Listed`), up to the first that cannot be loaded (`Inputs.Gathered`). These files are known
by what stands at the paths that are taken (`Inputs.Listed.of_same`), so nothing else in the tree
has a part in the outcome, nor has the order in which a directory holds what it holds
(`Inputs.load_eq_of_same`).
-/

namespace DocIdent.Inputs

/-! ## One file after another -/

/-- What loading files one after another comes to: the identifiers of all of them in order, or the
failure of the first file that cannot be loaded. -/
def Gathered (files : List (String × ByteArray)) (r : Except Failure (List Identifier)) : Prop :=
  (∃ lists, List.Forall₂ (fun f ds => ofFile f = .ok ds) files lists ∧ r = .ok lists.flatten) ∨
    ∃ before f after failure, files = before ++ f :: after ∧
      (∀ g ∈ before, ∃ ds, ofFile g = .ok ds) ∧ ofFile f = .error failure ∧ r = .error failure

/-- **Files are loaded one after another.** -/
theorem gathered_mapM (files : List (String × ByteArray)) :
    Gathered files ((files.mapM ofFile).map List.flatten) := by
  cases hfiles : files.mapM ofFile with
  | ok lists => exact .inl ⟨lists, mapM_eq_ok_iff.1 hfiles, rfl⟩
  | error failure =>
    obtain ⟨before, f, after, hsplit, hbefore, hf⟩ := mapM_eq_error_iff.1 hfiles
    exact .inr ⟨before, f, after, failure, hsplit, hbefore, hf, rfl⟩

/-! ## The files of a directory -/

/-- The files below a directory that are taken, in the order of their paths. -/
structure Listed (settings : Settings) (path : String) (directory : Node)
    (files : List (String × ByteArray)) : Prop where
  sorted : files.Pairwise fun f g => Path.Before f.1 g.1
  mem_iff : ∀ f, f ∈ files ↔ isCandidate settings f.1 = true ∧
    ∃ names, f.1 = Path.below path names ∧ Path.Reaches path names ∧
      directory.at? names = some (.file f.2)

variable {settings : Settings} {path : String} {directory directory' : Node}
  {files files' : List (String × ByteArray)}

/-- The files that an input directory stands for are those below it that are taken, in order. -/
theorem listed_candidates (h : directory.WellFormed) :
    Listed settings path directory (candidates settings path directory) where
  sorted := (Node.pairwise_files h).filter _
  mem_iff f := by rw [candidates, List.mem_filter, Node.mem_files_iff h, and_comm]

/-- Directories with the same files at the paths that are taken have the same files taken. -/
theorem Listed.of_same (h : Listed settings path directory files)
    (hsame : ∀ names content, isCandidate settings (Path.below path names) = true →
      (directory.at? names = some (.file content) ↔ directory'.at? names = some (.file content))) :
    Listed settings path directory' files where
  sorted := h.sorted
  mem_iff f := by
    rw [h.mem_iff]
    refine and_congr_right fun hcandidate => exists_congr fun names => and_congr_right fun hpath =>
      and_congr_right fun _ => ?_
    rw [hpath] at hcandidate
    exact hsame names f.2 hcandidate

/-- The files of a directory that are taken are listed in one way. -/
theorem Listed.eq (h : Listed settings path directory files)
    (h' : Listed settings path directory files') : files = files' := by
  have : Std.Asymm fun f g : String × ByteArray => Path.Before f.1 g.1 :=
    ⟨fun _ _ => asymm_of Path.Before⟩
  exact h.sorted.eq_of_mem_iff h'.sorted fun f => (h.mem_iff f).trans (h'.mem_iff f).symm

/-- Directories with the same files at the paths that are taken stand for the same files. -/
theorem candidates_eq_of_same (h : directory.WellFormed) (h' : directory'.WellFormed)
    (hsame : ∀ names content, isCandidate settings (Path.below path names) = true →
      (directory.at? names = some (.file content) ↔ directory'.at? names = some (.file content))) :
    candidates settings path directory = candidates settings path directory' :=
  ((listed_candidates h).of_same hsame).eq (listed_candidates h')

/-- Loading a directory is loading the files that it stands for. -/
theorem load_of_find {t : FileTree} {es : List (String × Node)}
    (hfind : t.find path = .ok (.directory es)) :
    load t settings path =
      ((candidates settings path (.directory es)).mapM ofFile).map List.flatten := by
  rw [load, hfind]

/-- **Loading a directory takes its files in order and sees nothing else.** If two trees have a
directory where a path leads, with the same files at the paths that are taken, loading comes to the
same in both: the identifiers of these files in the order of their paths, or the failure of the
first file in this order that cannot be loaded. -/
theorem load_eq_of_same {t t' : FileTree} {es es' : List (String × Node)} (ht : t.top.WellFormed)
    (ht' : t'.top.WellFormed) (hfind : t.find path = .ok (.directory es))
    (hfind' : t'.find path = .ok (.directory es'))
    (hsame : ∀ names content, isCandidate settings (Path.below path names) = true →
      ((Node.directory es).at? names = some (.file content) ↔
        (Node.directory es').at? names = some (.file content))) :
    ∃ files r, Listed settings path (.directory es) files ∧
      Listed settings path (.directory es') files ∧ Gathered files r ∧
      load t settings path = r ∧ load t' settings path = r := by
  have hes := FileTree.wellFormed_of_find ht hfind
  have hes' := FileTree.wellFormed_of_find ht' hfind'
  have hlisted : Listed settings path _ _ := listed_candidates hes
  refine ⟨_, _, hlisted, hlisted.of_same hsame, gathered_mapM _, load_of_find hfind, ?_⟩
  rw [load_of_find hfind', candidates_eq_of_same hes hes' hsame]

/-! ## Two trees -/

/-- Settings that leave out what has a name with a certain beginning. -/
def withoutOld : Settings :=
  ⟨[], ["dris/old"], Settings.usualLockPath⟩

/-- A directory with a file that is no list of identifiers, and a file in a directory. -/
def tidy : List (String × Node) :=
  [("a", .directory [("z.json", .file "[]".toUTF8)]), ("b.json", .file "?".toUTF8)]

/-- The same files in another order, among what is not taken. -/
def cluttered : List (String × Node) :=
  [("old.json", .file "?".toUTF8), ("b.json", .file "?".toUTF8), ("empty", .directory []),
    ("a", .directory [("z.json", .file "[]".toUTF8)]), (".dri.toml", .file "?".toUTF8),
    ("a.txt", .file "?".toUTF8)]

theorem wellFormed_tidy : (Node.directory [("dris", .directory tidy)]).WellFormed := by
  refine Node.wellFormed_directory (by decide) (List.forall_mem_singleton.2
    (Node.wellFormed_directory (by decide) ?_))
  refine List.forall_mem_cons.2 ⟨Node.wellFormed_directory (by decide)
    (List.forall_mem_singleton.2 (Node.wellFormed_file _)), ?_⟩
  exact List.forall_mem_singleton.2 (Node.wellFormed_file _)

theorem wellFormed_cluttered : (Node.directory [("dris", .directory cluttered)]).WellFormed := by
  refine Node.wellFormed_directory (by decide) (List.forall_mem_singleton.2
    (Node.wellFormed_directory (by decide) ?_))
  have ha : (Node.directory [("z.json", .file "[]".toUTF8)]).WellFormed :=
    Node.wellFormed_directory (by decide) (List.forall_mem_singleton.2 (Node.wellFormed_file _))
  simp only [cluttered, List.forall_mem_cons, ha, Node.wellFormed_file, Node.wellFormed_empty,
    true_and]
  exact List.forall_mem_nil _

/-- A path of one name leads to the directory of this name. -/
theorem find_dris (es : List (String × Node)) :
    FileTree.find ⟨[("dris", .directory es)]⟩ "dris" = .ok (.directory es) :=
  FileTree.find_eq_ok_iff.2 ⟨["dris"], false,
    FileTree.locate_name (by decide) (by decide) (by decide) (by decide) (by decide) _, rfl⟩

/-- The two directories have the same files at the paths that are taken. -/
theorem same_tidy_cluttered (names : List String) (content : ByteArray)
    (h : isCandidate withoutOld (Path.below "dris" names) = true) :
    (Node.directory tidy).at? names = some (.file content) ↔
      (Node.directory cluttered).at? names = some (.file content) := by
  cases names with
  | nil => constructor <;> rintro ⟨⟩
  | cons n rest =>
    rw [Node.at?, Node.at?]
    by_cases hlookup : tidy.lookup n = cluttered.lookup n
    · rw [hlookup]
    -- only one of them has this name, and it is that of nothing that is taken
    have hn : n = "old.json" ∨ n = "empty" ∨ n = ".dri.toml" ∨ n = "a.txt" := by
      by_contra hn
      simp only [not_or] at hn
      by_cases ha : n = "a"
      · exact hlookup (ha ▸ rfl)
      by_cases hb : n = "b.json"
      · exact hlookup (hb ▸ rfl)
      · simp [tidy, cluttered, List.lookup_cons, beq_false_of_ne, hn, ha, hb] at hlookup
    have hfile : ∀ bytes, tidy.lookup n = none → cluttered.lookup n = some (.file bytes) →
        isCandidate withoutOld (Path.below "dris" [n]) = false →
          ((tidy.lookup n).bind (Node.at? rest) = some (.file content) ↔
            (cluttered.lookup n).bind (Node.at? rest) = some (.file content)) := by
      intro bytes htidy hcluttered hnot
      rw [htidy, hcluttered]
      refine iff_of_false (by rintro ⟨⟩) fun hrest => ?_
      cases rest with
      | nil =>
        rw [hnot] at h
        cases h
      | cons m rest => cases hrest
    rcases hn with rfl | rfl | rfl | rfl
    · exact hfile _ rfl rfl (by decide)
    · refine iff_of_false (by rintro ⟨⟩) fun hrest => ?_
      cases rest with
      | nil => cases hrest
      | cons m rest => cases hrest
    · exact hfile _ rfl rfl (by decide)
    · exact hfile _ rfl rfl (by decide)

/-- The files of the first that are taken, in the order of a walk. -/
theorem candidates_tidy :
    candidates withoutOld "dris" (.directory tidy) =
      [("dris/a/z.json", "[]".toUTF8), ("dris/b.json", "?".toUTF8)] := by
  have horder : Text.notAfter "a" "b.json" = true := by decide
  have ha : Path.join (Path.join "dris" "a") "z.json" = "dris/a/z.json" := by decide
  have hb : Path.join "dris" "b.json" = "dris/b.json" := by decide
  have hdris : Path.isUsable "dris" = true := by decide
  have hinner : Path.isUsable (Path.join "dris" "a") = true := by decide
  have hfiles : (Node.directory tidy).files "dris" =
      [("dris/a/z.json", "[]".toUTF8), ("dris/b.json", "?".toUTF8)] := by
    simp [tidy, Node.files, Node.sortByName, Node.filesOfEntries, List.mergeSort, horder, ha, hb,
      hdris, hinner]
  have htake : ∀ path ∈ ["dris/a/z.json", "dris/b.json"],
      isCandidate withoutOld path = true := by decide
  rw [candidates, hfiles]
  exact List.filter_eq_self.2 (List.forall_mem_cons.2
    ⟨htake _ (by simp), List.forall_mem_singleton.2 (htake _ (by simp))⟩)

/-- The second of them is no list of identifiers, and ends the loading. -/
theorem load_tidy :
    load ⟨[("dris", .directory tidy)]⟩ withoutOld "dris" = .error (.json "") := by
  have hlist : (Json.read? "[]").bind (Identifier.listOfDocument? .json) = some [] := by
    decide +kernel
  have hnone : (Json.read? "?").bind (Identifier.listOfDocument? .json) = none := by
    decide +kernel
  have hz : ofFile ("dris/a/z.json", "[]".toUTF8) = .ok [] := by
    rw [ofFile_json (by decide) (by decide), hlist]
  have hb : ofFile ("dris/b.json", "?".toUTF8) = .error (.json "") := by
    rw [ofFile_json (by decide) (by decide), hnone]
  rw [load_of_find (find_dris tidy), candidates_tidy, map_eq_error_iff, mapM_eq_error_iff]
  exact ⟨[_], _, [], rfl, List.forall_mem_singleton.2 ⟨_, hz⟩, hb⟩

/-- Two trees with the same files to take, in another order and among others, are loaded alike: the
first file that is no list of identifiers is met in both. -/
theorem load_eq_of_same_cluttered :
    (Node.directory [("dris", .directory tidy)]).WellFormed ∧
      (Node.directory [("dris", .directory cluttered)]).WellFormed ∧
      FileTree.find ⟨[("dris", .directory tidy)]⟩ "dris" = .ok (.directory tidy) ∧
      FileTree.find ⟨[("dris", .directory cluttered)]⟩ "dris" = .ok (.directory cluttered) ∧
      (∀ names content, isCandidate withoutOld (Path.below "dris" names) = true →
        ((Node.directory tidy).at? names = some (.file content) ↔
          (Node.directory cluttered).at? names = some (.file content))) ∧
      ∃ files, ("dris/a/z.json", "[]".toUTF8) ∈ files ∧ ("dris/b.json", "?".toUTF8) ∈ files ∧
        Gathered files (.error (.json "")) ∧
        load ⟨[("dris", .directory tidy)]⟩ withoutOld "dris" = .error (.json "") ∧
        load ⟨[("dris", .directory cluttered)]⟩ withoutOld "dris" = .error (.json "") := by
  obtain ⟨files, r, hlisted, -, hgathered, htidy, hcluttered⟩ :=
    load_eq_of_same wellFormed_tidy wellFormed_cluttered (find_dris tidy) (find_dris cluttered)
      same_tidy_cluttered
  obtain rfl : .error (.json "") = r := load_tidy.symm.trans htidy
  refine ⟨wellFormed_tidy, wellFormed_cluttered, find_dris tidy, find_dris cluttered,
    same_tidy_cluttered, files, ?_, ?_, hgathered, htidy, hcluttered⟩
  · exact (hlisted.mem_iff _).2 ⟨by decide, ["a", "z.json"], rfl,
      ⟨by decide, by decide, trivial⟩, rfl⟩
  · exact (hlisted.mem_iff _).2 ⟨by decide, ["b.json"], rfl, ⟨by decide, trivial⟩, rfl⟩

end DocIdent.Inputs
