import DocIdent.Proofs.Steps
import DocIdent.Settings
import Mathlib.Data.List.Basic

/-!
# What writing a file leaves as it was

A file that is written stands where it was put (`Node.at?_put`), every directory stays a directory
(`Node.at?_put_directory`), and another name at the top keeps what it had (`Node.at?_put_of_ne`). A
path is followed from directory to directory, so a path that led to a place leads there after the
writing too (`FileTree.locate_of_directoriesIn`): the file is read back through the path by which it
was written (`FileTree.readText_write`), and the settings are what they were if the path is not
theirs (`Settings.load_write`).
-/

namespace DocIdent

/-! ## Nodes -/

namespace Node

/-- Going down names is going down the first of them and then the others. -/
theorem at?_append (names rest : List String) (node : Node) :
    at? (names ++ rest) node = (at? names node).bind (at? rest) := by
  induction names generalizing node with
  | nil => rfl
  | cons name names ih =>
    cases node with
    | file content => rfl
    | directory entries =>
      rw [List.cons_append, at?, at?, Option.bind_assoc]
      cases entries.lookup name with
      | none => rfl
      | some child => exact ih child

/-- What is put into a directory stands there. -/
theorem at?_put {names : List String} {node : Node} {entries : List (String × Node)}
    (h : at? names node = some (.directory entries)) (last : String) (new : Node) :
    at? (names ++ [last]) (put new (names ++ [last]) node) = some new := by
  induction names generalizing node with
  | nil =>
    obtain rfl : node = .directory entries := Option.some.inj h
    rw [List.nil_append, put, at?, Ledger.lookup_storeIn, if_pos rfl, Option.bind_some, put, at?]
  | cons name names ih =>
    cases node with
    | file content => cases h
    | directory inner =>
      rw [at?] at h
      cases hchild : inner.lookup name with
      | none =>
        rw [hchild] at h
        cases h
      | some child =>
        rw [hchild, Option.bind_some] at h
        rw [List.cons_append, put, at?, Ledger.lookup_storeIn, if_pos rfl, Option.bind_some, hchild]
        exact ih h

/-- A file that is put where no directory stands leaves every directory a directory. -/
theorem at?_put_directory {content : ByteArray} {names : List String} :
    ∀ {place : List String} {node : Node} {entries : List (String × Node)},
      (∀ es, at? names node ≠ some (.directory es)) → at? place node = some (.directory entries) →
        ∃ es, at? place (put (.file content) names node) = some (.directory es) := by
  induction names with
  | nil =>
    intro place node entries hfile hplace
    cases node with
    | file c =>
      cases place with
      | nil => cases hplace
      | cons name place => cases hplace
    | directory inner => exact absurd rfl (hfile inner)
  | cons name names ih =>
    intro place node entries hfile hplace
    cases node with
    | file c => exact ⟨entries, hplace⟩
    | directory inner =>
      cases place with
      | nil => exact ⟨_, rfl⟩
      | cons n place =>
        rw [put, at?, Ledger.lookup_storeIn]
        rw [at?] at hplace
        by_cases hn : n = name
        · subst hn
          cases hchild : inner.lookup n with
          | none =>
            rw [hchild] at hplace
            cases hplace
          | some child =>
            rw [hchild, Option.bind_some] at hplace
            rw [if_pos rfl, Option.bind_some]
            refine ih (fun es hes => hfile es ?_) hplace
            rw [at?, hchild]
            exact hes
        · rw [if_neg hn]
          exact ⟨entries, hplace⟩

/-- What stands at the top under another name is not touched. -/
theorem at?_put_of_ne {new node : Node} {name other : String} (h : other ≠ name)
    (names : List String) : at? [other] (put new (name :: names) node) = at? [other] node := by
  cases node with
  | file content => rfl
  | directory entries => rw [put, at?, at?, Ledger.lookup_storeIn, if_neg h]

end Node

/-! ## Following paths -/

namespace FileTree

variable {t t' : FileTree}

/-- Every directory of a tree is one in another tree, at the same place. -/
def DirectoriesIn (t t' : FileTree) : Prop :=
  ∀ place es, t.at? place = some (.directory es) → ∃ es', t'.at? place = some (.directory es')

/-- A name that leads from a place to another leads there in a tree with more directories. -/
theorem enter_of_directoriesIn (h : DirectoriesIn t t') {place place' : Place} {name : String}
    (henter : t.enter place name = .ok place') : t'.enter place name = .ok place' := by
  unfold enter at henter ⊢
  split
  next hhere => rwa [if_pos hhere] at henter
  next hhere =>
    rw [if_neg hhere] at henter
    split
    next hup => rwa [if_pos hup] at henter
    next hup =>
      rw [if_neg hup] at henter
      split
      next hname => rwa [if_pos hname] at henter
      next hname =>
        rw [if_neg hname] at henter
        split at henter
        next es hes =>
          obtain ⟨es', hes'⟩ := h _ _ hes
          rw [hes']
          exact henter
        next => cases henter
        next => cases henter

/-- Names that lead to a place lead there in a tree with more directories. -/
theorem enterEach_of_directoriesIn (h : DirectoriesIn t t') :
    ∀ (names : List String) {place place' : Place},
      names.foldlM t.enter place = .ok place' → names.foldlM t'.enter place = .ok place'
  | [], _, _, henter => henter
  | name :: names, place, place', henter => by
    rw [List.foldlM_cons] at henter ⊢
    obtain ⟨inner, hname, henter⟩ := bind_eq_ok_iff.1 henter
    rw [enter_of_directoriesIn h hname]
    exact enterEach_of_directoriesIn h names henter

/-- A name leads from a directory to a directory. -/
theorem directory_of_enter {place place' : Place} {name : String} {es : List (String × Node)}
    (hplace : t.at? place = some (.directory es)) (henter : t.enter place name = .ok place') :
    ∃ es', t.at? place' = some (.directory es') := by
  unfold enter at henter
  split at henter
  next =>
    cases henter
    exact ⟨es, hplace⟩
  next =>
    split at henter
    next =>
      split at henter
      next => cases henter
      next hne =>
        cases henter
        rw [List.isEmpty_iff] at hne
        rw [← List.dropLast_append_getLast hne, at?, Node.at?_append] at hplace
        cases hparent : Node.at? place.dropLast t.top with
        | none =>
          rw [hparent] at hplace
          cases hplace
        | some node =>
          rw [hparent] at hplace
          cases node with
          | file content => cases hplace
          | directory es' => exact ⟨es', hparent⟩
    next =>
      split at henter
      next => cases henter
      next =>
        split at henter
        next es' hes' =>
          cases henter
          exact ⟨es', hes'⟩
        next => cases henter
        next => cases henter

/-- Names lead from a directory to a directory. -/
theorem directory_of_enterEach :
    ∀ (names : List String) {place place' : Place} {es : List (String × Node)},
      t.at? place = some (.directory es) → names.foldlM t.enter place = .ok place' →
        ∃ es', t.at? place' = some (.directory es')
  | [], _, _, es, hplace, henter => by
    cases henter
    exact ⟨es, hplace⟩
  | name :: names, place, place', es, hplace, henter => by
    rw [List.foldlM_cons] at henter
    obtain ⟨inner, hname, henter⟩ := bind_eq_ok_iff.1 henter
    obtain ⟨es', hinner⟩ := directory_of_enter hplace hname
    exact directory_of_enterEach names hinner henter

/-- How a path is followed: it is one that can be, it does not start at the root, and it has a last
name. If it can only lead to a directory, all its names are entered, else all but the last. -/
theorem locate_eq_ok_iff {p : String} {place : Place} {directoryOnly : Bool} :
    t.locate p = .ok (place, directoryOnly) ↔
      Path.isUsable p = true ∧ ¬(p = "" ∨ Path.isAbsolute p = true) ∧
        ∃ last before, (Path.names p).reverse = last :: before ∧
          (directoryOnly = true ↔ last = "." ∨ last = ".." ∨ p.toList.getLast? = some '/') ∧
          (directoryOnly = true → (Path.names p).foldlM t.enter [] = .ok place) ∧
          (directoryOnly = false → isName last = true ∧
            ∃ inner, before.reverse.foldlM t.enter [] = .ok inner ∧ place = inner ++ [last]) := by
  rw [locate]
  by_cases husable : Path.isUsable p = true
  · rw [if_neg (by simp [husable])]
    by_cases hrelative : p = "" ∨ Path.isAbsolute p = true
    · rw [if_pos hrelative]
      exact iff_of_false nofun fun h => h.2.1 hrelative
    rw [if_neg hrelative]
    cases hnames : (Path.names p).reverse with
    | nil =>
      refine iff_of_false nofun ?_
      rintro ⟨-, -, _, _, ⟨⟩, -⟩
    | cons last before =>
      by_cases hlast : last = "." ∨ last = ".." ∨ p.toList.getLast? = some '/'
      · simp only [if_pos hlast, map_eq_ok_iff]
        constructor
        · rintro ⟨_, hplace, ⟨⟩⟩
          exact ⟨husable, hrelative, last, before, rfl, iff_of_true rfl hlast, fun _ => hplace,
            nofun⟩
        · rintro ⟨-, -, _, _, ⟨⟩, hends, hplace, -⟩
          have htrue := hends.2 hlast
          exact ⟨place, hplace htrue, by rw [htrue]⟩
      · simp only [if_neg hlast, bind_eq_ok_iff]
        constructor
        · rintro ⟨inner, hinner, h⟩
          split at h
          next hname =>
            cases h
            exact ⟨husable, hrelative, last, before, rfl, iff_of_false nofun hlast, nofun,
              fun _ => ⟨hname, inner, hinner, rfl⟩⟩
          next => cases h
        · rintro ⟨-, -, _, _, ⟨⟩, hends, -, hplace⟩
          have hfalse : directoryOnly = false := Bool.eq_false_iff.2 fun h => hlast (hends.1 h)
          obtain ⟨hname, inner, hinner, rfl⟩ := hplace hfalse
          exact ⟨inner, hinner, by rw [if_pos hname, hfalse]; rfl⟩
  · rw [if_pos (by simp [husable])]
    exact iff_of_false nofun fun h => husable h.1

/-- A path that may lead to a file is followed through the directories before its last name. -/
theorem locate_eq_file_iff {p : String} {place : Place} :
    t.locate p = .ok (place, false) ↔
      Path.isUsable p = true ∧ ¬(p = "" ∨ Path.isAbsolute p = true) ∧
        ∃ last before, (Path.names p).reverse = last :: before ∧
          ¬(last = "." ∨ last = ".." ∨ p.toList.getLast? = some '/') ∧ isName last = true ∧
          ∃ inner, before.reverse.foldlM t.enter [] = .ok inner ∧ place = inner ++ [last] := by
  simp only [locate_eq_ok_iff, Bool.false_eq_true, false_iff, false_implies, true_implies, true_and]

/-- A path that led to a place leads there in a tree with more directories. -/
theorem locate_of_directoriesIn (h : DirectoriesIn t t') {p : String} {place : Place}
    {directoryOnly : Bool} (hlocate : t.locate p = .ok (place, directoryOnly)) :
    t'.locate p = .ok (place, directoryOnly) := by
  rw [locate_eq_ok_iff] at hlocate ⊢
  obtain ⟨husable, hrelative, last, before, hnames, hends, hdirectory, hfile⟩ := hlocate
  refine ⟨husable, hrelative, last, before, hnames, hends, fun hd => ?_, fun hd => ?_⟩
  · exact enterEach_of_directoriesIn h _ (hdirectory hd)
  · obtain ⟨hname, inner, hinner, rfl⟩ := hfile hd
    exact ⟨hname, inner, enterEach_of_directoriesIn h before.reverse hinner, rfl⟩

/-! ## Writing -/

/-- What a successful writing does: the path leads to a place in a directory, where no directory
stands, and the file is put there. -/
theorem write_eq_ok {p : String} {content : ByteArray} (h : t.write p content = .ok t') :
    ∃ inner last es, t.locate p = .ok (inner ++ [last], false) ∧
      t.at? inner = some (.directory es) ∧
      (∀ es', t.at? (inner ++ [last]) ≠ some (.directory es')) ∧
      t'.top = Node.put (.file content) (inner ++ [last]) t.top := by
  rw [write] at h
  obtain ⟨⟨place, directoryOnly⟩, hlocate, h⟩ := bind_eq_ok_iff.1 h
  simp only at h
  split at h
  next es hes => cases h
  next hfile =>
    cases directoryOnly with
    | true => cases h
    | false =>
      rw [if_neg Bool.false_ne_true] at h
      have ht' : t' = ofNode (Node.put (.file content) place t.top) := (Except.ok.inj h).symm
      obtain ⟨-, -, last, before, -, -, -, inner, hinner, rfl⟩ := locate_eq_file_iff.1 hlocate
      have htop : t.at? [] = some (.directory t.entries) := rfl
      obtain ⟨es, hes⟩ := directory_of_enterEach before.reverse htop hinner
      refine ⟨inner, last, es, hlocate, hes, hfile, ?_⟩
      rw [ht']
      cases inner <;> rfl

/-- A file can be written exactly if the path leads to a place for a file, and no directory stands
there. -/
theorem exists_write_iff {p : String} {content : ByteArray} :
    (∃ t', t.write p content = .ok t') ↔
      ∃ place, t.locate p = .ok (place, false) ∧ ∀ es, t.at? place ≠ some (.directory es) := by
  constructor
  · rintro ⟨t', h⟩
    obtain ⟨inner, last, -, hlocate, -, hfile, -⟩ := write_eq_ok h
    exact ⟨inner ++ [last], hlocate, hfile⟩
  · rintro ⟨place, hlocate, hfile⟩
    rw [write, hlocate]
    simp only [ok_bind]
    rcases hplace : t.at? place with _ | bytes | es
    · exact ⟨_, rfl⟩
    · exact ⟨_, rfl⟩
    · exact absurd hplace (hfile es)

/-- It cannot exactly if the path leads to no such place, or to that of a directory. -/
theorem exists_write_error_iff {p : String} {content : ByteArray} :
    (∃ fault, t.write p content = .error fault) ↔
      ∀ place, t.locate p = .ok (place, false) → ∃ es, t.at? place = some (.directory es) := by
  have hok : (∃ t', t.write p content = .ok t') ↔ _ := exists_write_iff
  cases hwrite : t.write p content with
  | ok t' =>
    obtain ⟨place, hlocate, hnone⟩ := hok.1 ⟨t', hwrite⟩
    refine iff_of_false nofun fun h => ?_
    obtain ⟨es, hes⟩ := h place hlocate
    exact hnone es hes
  | error fault =>
    refine iff_of_true ⟨fault, rfl⟩ fun place hlocate => ?_
    by_contra hnone
    obtain ⟨t', ht'⟩ := hok.2 ⟨place, hlocate, fun es hes => hnone ⟨es, hes⟩⟩
    rw [hwrite] at ht'
    cases ht'

/-- **Writing leaves every directory a directory.** -/
theorem directoriesIn_write {p : String} {content : ByteArray} (h : t.write p content = .ok t') :
    DirectoriesIn t t' := by
  obtain ⟨inner, last, es, -, -, hfile, htop⟩ := write_eq_ok h
  intro place entries hplace
  rw [at?, htop]
  exact Node.at?_put_directory hfile hplace

/-- At the top stands what the tree has under a name. -/
@[simp] theorem at?_singleton (t : FileTree) (name : String) :
    t.at? [name] = t.entries.lookup name := by
  rw [at?, top, Node.at?]
  cases t.entries.lookup name with
  | none => rfl
  | some node => rfl

/-- What is read is what stands at the place to which a path leads. -/
theorem readBytes_eq {p : String} {place : Place} {directoryOnly : Bool}
    (hlocate : t.locate p = .ok (place, directoryOnly)) :
    t.readBytes p =
      match t.at? place with
      | some (.file content) => .ok content
      | some (.directory _) => .error .isDirectory
      | none => .error .missing := by
  rw [readBytes, find, hlocate]
  simp only [ok_bind]
  rcases t.at? place with _ | content | es
  · rfl
  · rfl
  · rfl

theorem readBytes_of_locate {p : String} {place : Place} {content : ByteArray}
    (hlocate : t.locate p = .ok (place, false)) (hplace : t.at? place = some (.file content)) :
    t.readBytes p = .ok content := by
  rw [readBytes_eq hlocate, hplace]

/-- **What was written is read back** through the path by which it was written. -/
theorem readBytes_write {p : String} {content : ByteArray} (h : t.write p content = .ok t') :
    t'.readBytes p = .ok content := by
  obtain ⟨inner, last, es, hlocate, hinner, -, htop⟩ := write_eq_ok h
  refine readBytes_of_locate (locate_of_directoriesIn (directoriesIn_write h) hlocate) ?_
  rw [at?, htop]
  exact Node.at?_put hinner last (.file content)

end FileTree

/-- A text is had back from its bytes. -/
@[simp] theorem textOfBytes_toUTF8 (s : String) : textOfBytes s.toUTF8 = .ok s := by
  have hvalid : s.toUTF8.IsValidUTF8 := s.isValidUTF8
  have hread : String.fromUTF8? s.toUTF8 = some s := by
    rw [String.fromUTF8?, dif_pos hvalid]
    rfl
  rw [textOfBytes, hread]

/-- A text that was written is read back. -/
theorem FileTree.readText_write {t t' : FileTree} {p s : String}
    (h : t.write p s.toUTF8 = .ok t') : t'.readText p = .ok s := by
  rw [readText, readBytes_write h]
  exact textOfBytes_toUTF8 s

/-! ## Settings -/

/-- A path of one name leads to that name at the top of any tree. -/
theorem FileTree.locate_name {name : String} (husable : Path.isUsable name = true)
    (hrelative : ¬(name = "" ∨ Path.isAbsolute name = true)) (hnames : Path.names name = [name])
    (hlast : ¬(name = "." ∨ name = ".." ∨ name.toList.getLast? = some '/'))
    (hname : isName name = true) (t : FileTree) : t.locate name = .ok ([name], false) := by
  rw [locate_eq_file_iff]
  exact ⟨husable, hrelative, name, [], by rw [hnames]; rfl, hlast, hname, [], rfl, rfl⟩

/-- The path of the settings leads to their file at the top of any tree. -/
@[simp] theorem FileTree.locate_settings (t : FileTree) :
    t.locate Settings.file = .ok ([Settings.file], false) :=
  t.locate_name (by decide) (by decide) (by decide) (by decide) (by decide)

/-- So does the usual path of the lock. -/
@[simp] theorem FileTree.locate_usualLockPath (t : FileTree) :
    t.locate Settings.usualLockPath = .ok ([Settings.usualLockPath], false) :=
  t.locate_name (by decide) (by decide) (by decide) (by decide) (by decide)

/-- The settings of a tree that has no file for them. -/
theorem Settings.load_of_missing {t : FileTree} (h : t.at? [Settings.file] = none) :
    Settings.load t = .ok Settings.usual := by
  have hbytes : t.readBytes Settings.file = .error .missing := by
    rw [FileTree.readBytes_eq t.locate_settings, h]
  rw [load, hbytes]

/-- The settings of a tree in which a text stands in their place. -/
theorem Settings.load_of_text {t : FileTree} {text lockPath : String}
    {included excluded : List String} (h : t.at? [Settings.file] = some (.file text.toUTF8))
    (hread : ((Toml.read? text).bind ofDocument?).map
      (fun s => (s.included, s.excluded, s.lockPath)) = some (included, excluded, lockPath)) :
    Settings.load t = .ok ⟨included, excluded, lockPath⟩ := by
  obtain ⟨⟨_, _, _⟩, hsettings, hfields⟩ := Option.map_eq_some_iff.1 hread
  cases hfields
  have hbytes : t.readBytes Settings.file = .ok text.toUTF8 :=
    FileTree.readBytes_of_locate (FileTree.locate_settings t) h
  rw [load, FileTree.readText, hbytes]
  simp only [textOfBytes_toUTF8, ok_bind, hsettings]
  rfl

/-- The settings depend on nothing but what stands in their place. -/
theorem Settings.load_congr {t t' : FileTree}
    (h : t'.at? [Settings.file] = t.at? [Settings.file]) : Settings.load t' = Settings.load t := by
  have hbytes : t'.readBytes Settings.file = t.readBytes Settings.file := by
    rw [FileTree.readBytes_eq t'.locate_settings, FileTree.readBytes_eq t.locate_settings, h]
  simp only [load, FileTree.readText, hbytes]

/-- Settings are not read from a directory. -/
theorem Settings.not_directory_of_load {t : FileTree} {settings : Settings}
    (h : Settings.load t = .ok settings) (es : List (String × Node)) :
    t.at? [Settings.file] ≠ some (.directory es) := by
  intro hdirectory
  have hbytes : t.readBytes Settings.file = .error .isDirectory := by
    rw [FileTree.readBytes_eq t.locate_settings, hdirectory]
  simp only [load, FileTree.readText, hbytes] at h
  cases h

/-- What stands above a directory is a directory. -/
theorem Node.directory_of_at?_cons {name : String} {names : List String} {node : Node}
    {es : List (String × Node)} (h : at? (name :: names) node = some (.directory es)) :
    ∃ es', at? [name] node = some (.directory es') := by
  cases node with
  | file content => cases h
  | directory entries =>
    rw [at?] at h ⊢
    cases hchild : entries.lookup name with
    | none =>
      rw [hchild] at h
      cases h
    | some child =>
      rw [hchild, Option.bind_some] at h
      cases child with
      | directory inner => exact ⟨inner, rfl⟩
      | file content =>
        cases names with
        | nil => cases h
        | cons n names => cases h

/-- **Writing elsewhere leaves the settings as they were.** -/
theorem Settings.load_write {t t' : FileTree} {settings : Settings} {p : String}
    {content : ByteArray} (hsettings : Settings.load t = .ok settings)
    (hpath : t.locate p ≠ t.locate Settings.file) (h : t.write p content = .ok t') :
    Settings.load t' = .ok settings := by
  obtain ⟨inner, last, es, hlocate, hinner, -, htop⟩ := FileTree.write_eq_ok h
  rw [← hsettings]
  refine load_congr ?_
  rw [FileTree.at?, htop]
  cases inner with
  | nil =>
    refine Node.at?_put_of_ne (fun hname => hpath ?_) []
    rw [hlocate, FileTree.locate_settings, ← hname]
    rfl
  | cons name names =>
    refine Node.at?_put_of_ne (fun hname => ?_) (names ++ [last])
    obtain ⟨es', hes'⟩ := Node.directory_of_at?_cons hinner
    rw [← hname] at hes'
    exact not_directory_of_load hsettings es' hes'

end DocIdent
