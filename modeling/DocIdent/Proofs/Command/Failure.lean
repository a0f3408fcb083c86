import DocIdent.Proofs.Failure.Report
import DocIdent.Proofs.Lock.Making
import DocIdent.Proofs.Lock.Neighbours
import Mathlib.Data.List.Infix

/-!
# What a failed command names

A failure is about something: a path, two keys, a key with two identifiers, or what somebody has to
say about a text or a file (`Failure.subjects`). A command that fails met that very thing in its
tree (`Command.Met`, `Command.met_of_run`), and the report of the failure shows it
(`Failure.shows_of_mem_subjects`), but for one failure: the report on a lock that is not there is
about the usual path of a lock, whatever path was tried (`Failure.shows_missing_lockNotFound_iff`).
What holds of each failed run is put together in `Command.run_failure_shown`.
-/

namespace DocIdent

/-! ## What a report shows -/

namespace Text

/-- A text has another one in it. -/
def Contains (text s : String) : Prop :=
  ∃ before after, text = before ++ s ++ after

theorem contains_iff {text s : String} : Contains text s ↔ s.toList <:+: text.toList := by
  constructor
  · rintro ⟨before, after, rfl⟩
    exact ⟨before.toList, after.toList, by simp only [String.toList_append]⟩
  · rintro ⟨before, after, h⟩
    refine ⟨String.ofList before, String.ofList after, String.toList_inj.1 ?_⟩
    simp only [String.toList_append, String.toList_ofList, h]

instance (text s : String) : Decidable (Contains text s) :=
  decidable_of_iff _ contains_iff.symm

theorem Contains.refl (s : String) : Contains s s :=
  ⟨"", "", by rw [String.empty_append, String.append_empty]⟩

theorem Contains.between (before s after : String) : Contains (before ++ s ++ after) s :=
  ⟨before, after, rfl⟩

/-- What is in a text is in it behind another one. -/
theorem Contains.behind {text s : String} (h : Contains text s) (other : String) :
    Contains (other ++ text) s := by
  obtain ⟨before, after, rfl⟩ := h
  exact ⟨other ++ before, after, by simp only [String.append_assoc]⟩

/-- What is in a text is in it in front of another one. -/
theorem Contains.inFront {text s : String} (h : Contains text s) (other : String) :
    Contains (text ++ other) s := by
  obtain ⟨before, after, rfl⟩ := h
  exact ⟨before, after ++ other, by simp only [String.append_assoc]⟩

/-- Where words stand once, and a mark once in front of them, only one thing is found between a mark
and the words. -/
theorem between_eq {before mark s words after s' : List Char}
    (hwords : ∀ l ∈ (before ++ (mark ++ s) ++ (words ++ after)).tails, words <+: l →
      l = words ++ after)
    (hmark : ∀ l ∈ (before ++ (mark ++ s)).tails, mark <+: l → l = mark ++ s)
    (h : mark ++ s' ++ words <:+: before ++ (mark ++ s) ++ (words ++ after)) : s' = s := by
  obtain ⟨front, rest, htext⟩ := h
  have hcut : front ++ (mark ++ s') ++ (words ++ rest) =
      before ++ (mark ++ s) ++ (words ++ after) := by
    rw [← htext]
    simp only [List.append_assoc]
  rw [hwords _ ((List.mem_tails _ _).2 ⟨_, hcut⟩) (List.prefix_append _ _)] at hcut
  have hlead := List.append_cancel_right hcut
  exact List.append_cancel_left
    (hmark _ ((List.mem_tails _ _).2 ⟨_, hlead⟩) (List.prefix_append _ _))

end Text

namespace Failure

/-- What a failure is about, in words. -/
def subjects : Failure → List String
  | .collision c => [c.key, c.first.description, c.second.description]
  | .fileNotFound path | .lockNotFound path | .unsupportedInput path => [path]
  | .lockCorrupt (.misplaced key next) => [key, next]
  | .lockCorrupt corruption => [corruption.message]
  | .malformed malformation => [malformation.message]
  | .io account | .json account | .tomlRead account | .tomlWrite account => [account]

/-- The report of a failure has a text in it. -/
def Shows (f : Failure) (s : String) : Prop :=
  Text.Contains f.report s

instance (f : Failure) (s : String) : Decidable (f.Shows s) :=
  inferInstanceAs (Decidable (Text.Contains f.report s))

/-- A document shows what its paragraph shows. -/
theorem contains_document {paragraph s : String} (h : Text.Contains paragraph s)
    (heading : String) : Text.Contains (document heading paragraph) s :=
  (h.behind _).inFront _

/-- What a failure says in one line names what the failure is about. -/
theorem message_contains_of_mem_subjects {f : Failure} {s : String} (hs : s ∈ f.subjects) :
    Text.Contains f.message s := by
  have hlast (before : String) : Text.Contains (before ++ s) s := (Text.Contains.refl s).behind _
  cases f with
  | collision c =>
    rcases List.mem_cons.1 hs with rfl | hs
    · exact (((Text.Contains.between _ _ _).inFront _).inFront _).inFront _
    rcases List.mem_cons.1 hs with rfl | hs
    · exact (Text.Contains.between _ _ _).inFront _
    obtain rfl := List.mem_singleton.1 hs
    exact hlast _
  | lockCorrupt corruption =>
    cases corruption with
    | misplaced key next =>
      rcases List.mem_cons.1 hs with rfl | hs
      · exact (((Text.Contains.between _ _ _).inFront _).inFront _).behind _
      obtain rfl := List.mem_singleton.1 hs
      exact (Text.Contains.between _ _ _).behind _
    | shortWindow | stated reason =>
      obtain rfl := List.mem_singleton.1 hs
      exact hlast _
  | fileNotFound path | lockNotFound path | unsupportedInput path | io account | json account
  | tomlRead account | tomlWrite account | malformed malformation =>
    obtain rfl := List.mem_singleton.1 hs
    exact hlast _

/-- **The report of a failure shows what the failure is about**, unless it is about a lock that is
not there. -/
theorem shows_of_mem_subjects {f : Failure} (hf : ∀ path, f ≠ .lockNotFound path) {s : String}
    (hs : s ∈ f.subjects) : f.Shows s := by
  cases f with
  | collision c =>
    refine (contains_document ?_ _).inFront _
    rcases List.mem_cons.1 hs with rfl | hs
    · exact ((((Text.Contains.between _ _ _).inFront _).inFront _).inFront _).inFront _
    rcases List.mem_cons.1 hs with rfl | hs
    · exact ((Text.Contains.between _ _ _).inFront _).inFront _
    obtain rfl := List.mem_singleton.1 hs
    exact .between _ _ _
  | lockCorrupt corruption =>
    refine (contains_document ?_ _).inFront _
    cases corruption with
    | misplaced key next =>
      rcases List.mem_cons.1 hs with rfl | hs
      · exact ((Text.Contains.between _ _ _).inFront _).inFront _
      obtain rfl := List.mem_singleton.1 hs
      exact .between _ _ _
    | shortWindow | stated reason =>
      obtain rfl := List.mem_singleton.1 hs
      exact .refl _
  | fileNotFound path | unsupportedInput path =>
    obtain rfl := List.mem_singleton.1 hs
    exact contains_document (.between _ _ _) _
  | lockNotFound path => exact absurd rfl (hf path)
  | io account | json account | tomlRead account | tomlWrite account | malformed malformation =>
    obtain rfl := List.mem_singleton.1 hs
    exact contains_document (.refl _) _

/-- What the report on a lock that is not there ends with. -/
def missingLockRemedy : String :=
  "\n\n## Fix\n\nRun `dri init` on your identifier files to generate the lockfile:\n\n" ++
    "    dri init <inputs>\n"

/-- The report on a lock that is not there. -/
def missingLockReport : String :=
  "# Error: Lockfile Not Found\n\n" ++ ("`" ++ Settings.usualLockPath) ++
    ("` does not exist." ++ missingLockRemedy)

/-- The report on a lock that is not there is the same whatever path was tried. -/
theorem report_lockNotFound (path : String) : (lockNotFound path).report = missingLockReport := by
  show document "Lockfile Not Found" "`.dri.lock` does not exist." ++
    remedy ("Run `dri init` on your identifier files to generate the lockfile:\n\n" ++
      "    dri init <inputs>\n") = missingLockReport
  decide

/-- It says of the usual path that it does not exist, and of no other. -/
theorem shows_missing_lockNotFound_iff (path : String) :
    (lockNotFound path).Shows ("`" ++ path ++ "` does not exist.") ↔
      path = Settings.usualLockPath := by
  have hreport : missingLockReport = "# Error: Lockfile Not Found\n\n" ++
    ("`" ++ Settings.usualLockPath) ++ ("` does not exist." ++ missingLockRemedy) := rfl
  rw [Shows, report_lockNotFound, hreport]
  constructor
  · intro h
    rw [Text.contains_iff] at h
    repeat rw [String.toList_append] at h
    exact String.toList_inj.1 (Text.between_eq (by decide +kernel) (by decide +kernel) h)
  · rintro rfl
    exact ⟨"# Error: Lockfile Not Found\n\n", missingLockRemedy, by simp only [String.append_assoc]⟩

/-- The failure is what somebody has to say about a text or a file. -/
def IsAccount : Failure → Prop
  | .io _ | .json _ | .tomlRead _ => True
  | _ => False

end Failure

/-! ## What reading meets -/

variable {t : FileTree} {path : String} {f : Failure}

theorem isAccount_of_textOfBytes {bytes : ByteArray} (h : textOfBytes bytes = .error f) :
    f.IsAccount := by
  rw [textOfBytes] at h
  split at h
  next => cases h
  next =>
    cases h
    trivial

theorem FileTree.isAccount_of_readText (h : t.readText path = .error f) : f.IsAccount := by
  rw [readText] at h
  split at h
  next => exact isAccount_of_textOfBytes h
  next =>
    cases h
    trivial

/-- If settings are not loaded, there is an account of why. -/
theorem Settings.isAccount_of_load (h : Settings.load t = .error f) : f.IsAccount := by
  rw [load] at h
  split at h
  next => cases h
  next =>
    rcases bind_eq_error_iff.1 h with h | ⟨text, -, h⟩
    · exact FileTree.isAccount_of_readText h
    split at h
    next => cases h
    next =>
      cases h
      trivial

/-- Bytes from which no identifiers are read have no text that is one of identifiers, or their path
has not the extension of such a text. -/
theorem Inputs.ofBytes_eq_error {bytes : ByteArray} (h : ofBytes path bytes = .error f) :
    f.IsAccount ∨ f = .unsupportedInput path ∧ hasInputExtension path = false := by
  rcases bind_eq_error_iff.1 h with h | ⟨text, -, h⟩
  · exact .inl (isAccount_of_textOfBytes h)
  split at h
  next =>
    split at h
    next => cases h
    next =>
      cases h
      exact .inl trivial
  next =>
    split at h
    next => cases h
    next =>
      cases h
      exact .inl trivial
  next htoml hjson =>
    cases h
    refine .inr ⟨rfl, ?_⟩
    rw [hasInputExtension, decide_eq_false htoml, decide_eq_false hjson, Bool.or_false]

/-- A file of a walk is taken by its extension, so a walk meets none of another kind. -/
theorem Inputs.isAccount_of_candidate {settings : Settings} {directory : Node}
    {file : String × ByteArray} (hfile : file ∈ candidates settings path directory)
    (h : ofFile file = .error f) : f.IsAccount := by
  have hcandidate : isCandidate settings file.1 = true := (List.mem_filter.1 hfile).2
  rw [isCandidate, Bool.and_eq_true, Bool.and_eq_true, Bool.and_eq_true] at hcandidate
  rw [ofFile] at h
  split at h
  next =>
    rcases ofBytes_eq_error h with h | ⟨-, hextension⟩
    · exact h
    · rw [hcandidate.1.1.1] at hextension
      cases hextension
  next =>
    cases h
    trivial

/-- A lock is not loaded because it is not there, or its entries are out of order, or there is an
account of why. -/
theorem Lock.load_eq_error (h : Lock.load t path = .error f) :
    (t.readBytes path = .error .missing ∧ f = .lockNotFound path) ∨
      (∃ text entries a b, t.readText path = .ok text ∧
        (Toml.read? text).bind (entriesOfDocument? .toml) = some entries ∧
        FirstMisplaced entries a b ∧ f = .lockCorrupt (.misplaced a.key b.key)) ∨
      f.IsAccount := by
  rw [load] at h
  split at h
  next hmissing =>
    cases h
    exact .inl ⟨hmissing, rfl⟩
  next =>
    rcases bind_eq_error_iff.1 h with h | ⟨text, htext, h⟩
    · exact .inr (.inr (FileTree.isAccount_of_readText h))
    rw [parse] at h
    split at h
    next =>
      cases h
      exact .inr (.inr trivial)
    next entries hentries =>
      obtain ⟨corruption, hcorruption, rfl⟩ := mapError_eq_error_iff.1 h
      obtain ⟨a, b, hfirst, rfl⟩ :=
        (corruption?_eq_some_iff entries).1 (ofEntries_eq_error_iff.1 hcorruption)
      exact .inr (.inl ⟨text, entries, a, b, htext, hentries, hfirst, rfl⟩)

/-! ## What a command meets -/

namespace Command

/-- The input of a command, if it takes one. -/
def input? : Command → Option String
  | .encode input _ | .parents input | .init input => some input
  | .check => none

/-- What a command met in a tree when it failed, with the failure that is about it. -/
inductive Met (t : FileTree) : Command → Failure → Prop where
  /-- Its input is not there. -/
  | noInput {c : Command} {input : String} {fault : FileFault} (hinput : c.input? = some input)
      (h : t.find input = .error fault) : Met t c (.fileNotFound input)
  /-- Its input is a file of a kind that holds no identifiers. -/
  | unsupported {c : Command} {input : String} {bytes : ByteArray}
      (hinput : c.input? = some input) (h : t.find input = .ok (.file bytes))
      (hextension : Inputs.hasInputExtension input = false) : Met t c (.unsupportedInput input)
  /-- There is nothing where the settings have the lock. -/
  | noLock {settings : Settings} (hsettings : Settings.load t = .ok settings)
      (h : t.readBytes settings.lockPath = .error .missing) :
      Met t .check (.lockNotFound settings.lockPath)
  /-- Two neighbours in the lock are out of order, and none before them are. -/
  | misplaced {settings : Settings} {text : String} {entries : List LockEntry} {a b : LockEntry}
      (hsettings : Settings.load t = .ok settings)
      (htext : t.readText settings.lockPath = .ok text)
      (hentries : (Toml.read? text).bind (Lock.entriesOfDocument? .toml) = some entries)
      (h : Lock.FirstMisplaced entries a b) : Met t .check (.lockCorrupt (.misplaced a.key b.key))
  /-- Two different identifiers of its input have one key. -/
  | collision {input : String} {settings : Settings} {ds : List Identifier} {c : Collision}
      (hload : loadInputs t input = .ok (settings, ds)) (h : c.Among ds) :
      Met t (.init input) (.collision c)
  /-- A text or a file of which somebody gives an account. -/
  | told {c : Command} {f : Failure} (h : f.IsAccount) : Met t c f

variable {c : Command} {input : String}

/-- What keeps the files of an input from being loaded is met by a command on this input. -/
theorem met_of_file (settings : Settings) {node : Node} {file : String × ByteArray}
    (hinput : c.input? = some input) (hfind : t.find input = .ok node)
    (hfile : file ∈ Inputs.selected settings input node) (h : Inputs.ofFile file = .error f) :
    Met t c f := by
  cases node with
  | directory es => exact .told (Inputs.isAccount_of_candidate hfile h)
  | file bytes =>
    obtain rfl := List.mem_singleton.1 hfile
    rw [Inputs.ofFile] at h
    split at h
    next =>
      rcases Inputs.ofBytes_eq_error h with h | ⟨rfl, hextension⟩
      · exact .told h
      · exact .unsupported hinput hfind hextension
    next =>
      cases h
      exact .told trivial

/-- What keeps an input from being loaded is met by a command on this input. -/
theorem met_of_loadInputs (hinput : c.input? = some input)
    (h : loadInputs t input = .error f) : Met t c f := by
  rcases loadInputs_eq_error_iff.1 h with h | ⟨settings, -, h⟩
  · exact .told (Settings.isAccount_of_load h)
  rcases Inputs.load_eq_error_iff.1 h with
    ⟨fault, hfind, rfl⟩ | ⟨node, before, file, after, hfind, hfiles, -, hfile⟩
  · exact .noInput hinput hfind
  · refine met_of_file settings hinput hfind ?_ hfile
    rw [hfiles]
    exact List.mem_append_right _ (.head _)

/-- What keeps a lock from being made is met by making it. -/
theorem InitFails.met (h : InitFails t input f) : Met t (.init input) f := by
  cases h with
  | settings h => exact .told (Settings.isAccount_of_load h)
  | input _ hfind => exact .noInput rfl hfind
  | @file settings node before after file _ _ hfind hfiles _ hfile =>
    refine met_of_file settings rfl hfind ?_ hfile
    rw [hfiles]
    exact List.mem_append_right _ (.head _)
  | collision hloads h =>
    exact .collision (loadInputs_eq_ok_iff.2 ⟨_, hloads, rfl⟩) (Index.among_of_ofList h)
  | writing => exact .told trivial

/-- What keeps a lock from being checked is met by checking it. -/
theorem met_of_run_check (h : (run t .check).1 = .error f) : Met t .check f := by
  rw [run_check] at h
  rcases bind_eq_error_iff.1 h with h | ⟨settings, hsettings, h⟩
  · exact .told (Settings.isAccount_of_load h)
  rcases Lock.load_eq_error (map_eq_error_iff.1 h) with
    ⟨hmissing, rfl⟩ | ⟨text, entries, a, b, htext, hentries, hfirst, rfl⟩ | h
  · exact .noLock hsettings hmissing
  · exact .misplaced hsettings htext hentries hfirst
  · exact .told h

/-- **A command that fails met what its failure is about.** -/
theorem met_of_run (h : (run t c).1 = .error f) : Met t c f := by
  cases c with
  | encode input json =>
    rw [run_encode] at h
    exact met_of_loadInputs rfl (map_eq_error_iff.1 h)
  | parents input =>
    rw [run_parents] at h
    exact met_of_loadInputs rfl (map_eq_error_iff.1 h)
  | init input => exact (run_init_eq_error_iff.1 (Prod.ext h rfl)).1.met
  | check => exact met_of_run_check h

/-- **A command that fails names what failed**, but for a lock that is not there. Whatever command
fails in whatever tree, its failure is about what the command met: the input that it looked for, the
file that it cannot use, the lock of the settings, the first neighbours of the lock that are out of
order, the key and the identifiers that collide, or somebody's account. The report shows this,
except that the report on a missing lock is one and the same for every path: it says of the usual
path that it does not exist, and of no other. What the failure says in one line has the path. -/
theorem run_failure_shown (h : (run t c).1 = .error f) :
    Met t c f ∧
      (∀ s ∈ f.subjects, Text.Contains f.message s) ∧
      ((∀ path, f ≠ .lockNotFound path) → ∀ s ∈ f.subjects, f.Shows s) ∧
      ∀ path, f = .lockNotFound path → f.report = Failure.missingLockReport ∧
        (f.Shows ("`" ++ path ++ "` does not exist.") ↔ path = Settings.usualLockPath) := by
  refine ⟨met_of_run h, fun s => Failure.message_contains_of_mem_subjects,
    fun hf s => Failure.shows_of_mem_subjects hf, fun path hpath => ?_⟩
  rw [hpath]
  exact ⟨Failure.report_lockNotFound path, Failure.shows_missing_lockNotFound_iff path⟩

/-- A tree whose settings have the lock under a name of its own, where there is none. -/
def treeWithoutLock : FileTree :=
  ⟨[(Settings.file, .file "lockfile = \"api.lock\"\n".toUTF8)]⟩

theorem settings_treeWithoutLock : Settings.load treeWithoutLock = .ok ⟨[], [], "api.lock"⟩ :=
  Settings.load_of_text rfl (by decide +kernel)

theorem run_check_treeWithoutLock :
    (run treeWithoutLock .check).1 = .error (.lockNotFound "api.lock") := by
  have hmissing : treeWithoutLock.readBytes "api.lock" = .error .missing := rfl
  have hload : Lock.load treeWithoutLock "api.lock" = .error (.lockNotFound "api.lock") := by
    rw [Lock.load, hmissing]
  rw [run_check, settings_treeWithoutLock]
  show (Lock.load treeWithoutLock "api.lock").map checkOutcome = _
  rw [hload]
  rfl

theorem run_parents_treeWithoutLock :
    (run treeWithoutLock (.parents "dris")).1 = .error (.fileNotFound "dris") := by
  have hmissing : treeWithoutLock.find "dris" = .error .missing := rfl
  have hload : loadInputs treeWithoutLock "dris" = .error (.fileNotFound "dris") :=
    loadInputs_eq_error_iff.2 (.inr ⟨_, settings_treeWithoutLock,
      Inputs.load_eq_error_iff.2 (.inl ⟨_, hmissing, rfl⟩)⟩)
  rw [run_parents, hload]
  rfl

/-- The check looks for the lock where the settings have it, and the report does not say where. An
input that is not there is shown. -/
theorem run_failure_shown_otherLock :
    ((run treeWithoutLock .check).1 = .error (.lockNotFound "api.lock") ∧
        Met treeWithoutLock .check (.lockNotFound "api.lock") ∧
        ¬ (Failure.lockNotFound "api.lock").Shows "api.lock") ∧
      (run treeWithoutLock (.parents "dris")).1 = .error (.fileNotFound "dris") ∧
        (Failure.fileNotFound "dris").Shows "dris" := by
  constructor
  · obtain ⟨hmet, -, -, hreport⟩ := run_failure_shown run_check_treeWithoutLock
    refine ⟨run_check_treeWithoutLock, hmet, ?_⟩
    rw [Failure.Shows, (hreport _ rfl).1]
    decide +kernel
  · obtain ⟨-, -, hshown, -⟩ := run_failure_shown run_parents_treeWithoutLock
    exact ⟨run_parents_treeWithoutLock, hshown nofun _ (.head _)⟩

end Command

end DocIdent
