import DocIdent.Path
import DocIdent.Proofs.Text
import DocIdent.Proofs.Text.Order
import Mathlib.Data.List.Lex

/-!
# The names of a path

A path inside another has the names of both (`Path.names_join`), and the path of what names go down
to, starting from a path, has the names of that path and then these (`Path.names_below`). The steps
of a path are those of its names, after one more if the path begins with a point
(`Path.BeginsHere`). Paths are ordered name by name, each by its bytes (`Path.Before`).
-/

namespace DocIdent.Path

/-! ## Joining -/

/-- A name under which something stands in a directory. -/
structure IsEntryName (name : String) : Prop where
  notEmpty : name ≠ ""
  slashless : '/' ∉ name.toList
  notHere : name ≠ "."
  notUp : name ≠ ".."

instance (name : String) : Decidable (IsEntryName name) :=
  decidable_of_iff (name ≠ "" ∧ '/' ∉ name.toList ∧ name ≠ "." ∧ name ≠ "..")
    ⟨fun h => ⟨h.1, h.2.1, h.2.2.1, h.2.2.2⟩,
      fun h => ⟨h.notEmpty, h.slashless, h.notHere, h.notUp⟩⟩

/-- The names before a slash and those after it are the names of the whole. -/
theorem names_append_slash (p q : String) : names (p ++ "/" ++ q) = names p ++ names q := by
  have hcut : (p ++ "/" ++ q).toList.splitOn '/' =
      p.toList.splitOn '/' ++ q.toList.splitOn '/' := by
    rw [String.toList_append, String.toList_append, List.append_assoc]
    exact List.splitOn_append_cons_self p.toList q.toList
  rw [names, hcut, List.filter_append, List.map_append]
  rfl

/-- **A path inside another has the names of both.** -/
theorem names_join (p : String) {q : String} (hq : isAbsolute q = false) :
    names (join p q) = names p ++ names q := by
  rw [join, if_neg (by rw [hq]; decide)]
  split
  next h =>
    rcases h with rfl | h
    · rw [String.empty_append]
      rfl
    · -- the slash at the end of a path divides it from what follows
      obtain ⟨before, hbefore⟩ := List.getLast?_eq_some_iff.1 h
      have hp : p = String.ofList before ++ "/" ++ "" := by
        rw [String.append_empty, ← String.toList_inj, hbefore, String.toList_append,
          String.toList_ofList]
        rfl
      have hjoined : p ++ q = String.ofList before ++ "/" ++ q := by
        rw [hp, String.append_empty]
      rw [hjoined, names_append_slash, hp, names_append_slash, List.append_assoc]
      rfl
  next => exact names_append_slash p q

/-- The name of an entry is no path from the root. -/
theorem IsEntryName.isAbsolute_eq_false {name : String} (h : IsEntryName name) :
    isAbsolute name = false := by
  rw [isAbsolute, decide_eq_false_iff_not]
  exact fun hslash => h.slashless (List.mem_of_mem_head? hslash)

/-- The name of an entry is a path with one name. -/
theorem IsEntryName.names_eq {name : String} (h : IsEntryName name) : names name = [name] := by
  have hkept : name.toList.isEmpty = false := by
    rw [List.isEmpty_eq_false_iff]
    exact fun hempty => h.notEmpty (String.toList_inj.1 hempty)
  rw [names, List.splitOn_eq_singleton h.slashless,
    List.filter_cons_of_pos (by rw [hkept]; rfl), List.filter_nil, List.map_singleton,
    String.ofList_toList]

/-- A name in a path is that of an entry, unless it is one of points. -/
theorem isEntryName_of_mem_names {p n : String} (h : n ∈ names p) (hhere : n ≠ ".")
    (hup : n ≠ "..") : IsEntryName n := by
  obtain ⟨cs, hcs, rfl⟩ := List.mem_map.1 h
  obtain ⟨hpiece, hkept⟩ := List.mem_filter.1 hcs
  refine ⟨fun hempty => ?_, ?_, hhere, hup⟩
  · rw [String.ofList_eq_empty_iff.1 hempty] at hkept
    cases hkept
  · rw [String.toList_ofList]
    exact Text.notMem_of_mem_splitOn hpiece

/-- The path of what names go down to, from a path on. -/
def below (p : String) (names : List String) : String :=
  names.foldl join p

/-- **The path of what names go down to** has the names of where they start, and then these. -/
theorem names_below {ns : List String} (h : ∀ n ∈ ns, IsEntryName n) (p : String) :
    names (below p ns) = names p ++ ns := by
  induction ns generalizing p with
  | nil => rw [below, List.foldl_nil, List.append_nil]
  | cons n ns ih =>
    obtain ⟨hn, hns⟩ := List.forall_mem_cons.1 h
    have hstep := ih hns (join p n)
    rw [names_join p hn.isAbsolute_eq_false, hn.names_eq, List.append_assoc] at hstep
    exact hstep

/-- Each directory on the way from a path along names has a path that can be followed. -/
def Reaches (p : String) : List String → Prop
  | [] => True
  | n :: ns => isUsable p = true ∧ Reaches (join p n) ns

/-! ## Steps -/

/-- Names of entries are steps down. -/
theorem stepsOfNames_eq_map {ns : List String} (h : ∀ n ∈ ns, IsEntryName n) :
    stepsOfNames ns = ns.map .down := by
  induction ns with
  | nil => rfl
  | cons n ns ih =>
    obtain ⟨hn, hns⟩ := List.forall_mem_cons.1 h
    rw [stepsOfNames, List.filterMap_cons]
    simp only [if_neg hn.notHere, if_neg hn.notUp]
    exact congrArg (Step.down n :: ·) (ih hns)

/-- The steps of names are those of the first of them and then of the others. -/
@[simp] theorem stepsOfNames_append (ms ns : List String) :
    stepsOfNames (ms ++ ns) = stepsOfNames ms ++ stepsOfNames ns :=
  List.filterMap_append

/-- No name is a step to where a path begins. -/
theorem here_notMem_stepsOfNames (ns : List String) : Step.here ∉ stepsOfNames ns := by
  rw [stepsOfNames, List.mem_filterMap]
  rintro ⟨n, -, hn⟩
  split at hn
  · cases hn
  · split at hn <;> cases hn

/-- The path begins with a point. -/
def BeginsHere (p : String) : Prop :=
  (names p).head? = some "."

instance (p : String) : Decidable (BeginsHere p) :=
  inferInstanceAs (Decidable ((names p).head? = some "."))

/-- The steps of a path that does not start at the root: a point at its very beginning is one, and
then come those of its names. -/
theorem steps_eq {p : String} (h : isAbsolute p = false) :
    steps p = (if BeginsHere p then [.here] else []) ++ stepsOfNames (names p) := by
  rw [steps, if_neg (by rw [h]; decide)]
  split
  next rest hnames =>
    have hhere : BeginsHere p := by rw [BeginsHere, hnames, List.head?_cons]
    rw [if_pos hhere, hnames]
    rfl
  next hnot =>
    have hhere : ¬ BeginsHere p := by
      intro hhere
      obtain ⟨rest, hnames⟩ := List.head?_eq_some_iff.1 hhere
      exact hnot rest hnames
    rw [if_neg hhere, List.nil_append]

/-- A path inside another that is not empty begins as that does. -/
theorem isAbsolute_join {p q : String} (hp : p ≠ "") (hq : isAbsolute q = false) :
    isAbsolute (join p q) = isAbsolute p := by
  have hchars : p.toList ≠ [] := fun h => hp (String.toList_inj.1 h)
  rw [join, if_neg (by rw [hq]; decide)]
  split
  next =>
    rw [isAbsolute, isAbsolute, String.toList_append, List.head?_append_of_ne_nil _ hchars]
  next =>
    rw [isAbsolute, isAbsolute, String.toList_append, String.toList_append, List.append_assoc,
      List.head?_append_of_ne_nil _ hchars]

/-- What names go down to from a path begins as the path does. -/
theorem isAbsolute_below {ns : List String} (h : ∀ n ∈ ns, IsEntryName n) {p : String}
    (hp : p ≠ "") : isAbsolute (below p ns) = isAbsolute p := by
  induction ns generalizing p with
  | nil => rfl
  | cons n ns ih =>
    obtain ⟨hn, hns⟩ := List.forall_mem_cons.1 h
    have hjoined : join p n ≠ "" := by
      intro hempty
      have hnames := names_join p hn.isAbsolute_eq_false
      rw [hempty, hn.names_eq] at hnames
      exact List.append_ne_nil_of_right_ne_nil _ (List.cons_ne_nil _ _) hnames.symm
    exact (ih hns hjoined).trans (isAbsolute_join hp hn.isAbsolute_eq_false)

/-- The steps of a path inside the directory where it begins. -/
theorem steps_join_here {q : String} (h : isAbsolute q = false) :
    steps (join "." q) = .here :: stepsOfNames (names q) := by
  have hjoined : isAbsolute (join "." q) = false := isAbsolute_join (by decide) h
  have hhere : BeginsHere (join "." q) := by
    rw [BeginsHere, names_join "." h]
    rfl
  rw [steps_eq hjoined, if_pos hhere, names_join "." h]
  rfl

/-! ## Order -/

/-- One path comes before another: the first name that differs decides, by its bytes, and of two
paths where one goes on from the other the shorter comes first. -/
def Before (p q : String) : Prop :=
  List.Lex Text.Before (names p) (names q)

/-- No two paths each come before the other. -/
instance : Std.Asymm Before :=
  ⟨fun _ _ hpq hqp => asymm_of (List.Lex Text.Before) hpq hqp⟩

/-- Paths that part at a name are in the order of these names. -/
theorem before_of_names {p q : String} {common rest rest' : List String} {m n : String}
    (hp : names p = common ++ m :: rest) (hq : names q = common ++ n :: rest')
    (h : Text.Before m n) : Before p q := by
  rw [Before, hp, hq]
  exact List.Lex.append_left Text.Before (.rel h) common

end DocIdent.Path
