import DocIdent.Proofs.FileTree.Names

/-!
# The places of paths

A path that never goes up makes the steps down that lead to its place (`FileTree.steps_of_locate`),
so paths that take the same steps lead to one place. Writing a file changes what stands in its place
(`FileTree.at?_write`) and in no other one (`FileTree.content?_at?_write`), and writing it again
changes nothing (`FileTree.write_write`).
-/

namespace DocIdent

namespace Node

variable {node new : Node} {es : List (String × Node)} {inner place : List String} {last : String}

/-- Putting something a second time changes nothing. -/
@[simp] theorem put_put (names : List String) :
    put new names (put new names node) = put new names node := by
  induction names generalizing node with
  | nil => rfl
  | cons name names ih =>
    cases node with
    | file content => rfl
    | directory es =>
      rw [put, put, Ledger.lookup_storeIn, if_pos rfl, Option.getD_some, ih, Ledger.storeIn_storeIn]

/-- The bytes of a file. A directory has none. -/
def content? : Node → Option ByteArray
  | .file content => some content
  | .directory _ => none

/-- A file with certain bytes is what has them. -/
theorem eq_some_file_iff {o : Option Node} {bytes : ByteArray} :
    o = some (.file bytes) ↔ o.map content? = some (some bytes) := by
  rcases o with _ | content | es <;> simp [content?]

/-- **A file that is put into a directory leaves other places as they were**, each with a file of
the same bytes, a directory or nothing, if it takes the place of no directory. -/
theorem content?_at?_put {content : ByteArray} (hinner : at? inner node = some (.directory es))
    (hlast : ∀ es', at? (inner ++ [last]) node ≠ some (.directory es'))
    (hne : place ≠ inner ++ [last]) :
    (at? place (put (.file content) (inner ++ [last]) node)).map content? =
      (at? place node).map content? := by
  induction inner generalizing node place with
  | nil =>
    obtain rfl : node = .directory es := Option.some.inj hinner
    rw [List.nil_append, put]
    cases place with
    | nil => rfl
    | cons n rest =>
      rw [at?, at?, Ledger.lookup_storeIn, put]
      by_cases hn : n = last
      · -- below a file there is nothing
        have hrest : rest ≠ [] := fun hrest => hne (by rw [hn, hrest]; rfl)
        obtain ⟨m, rest, rfl⟩ := List.exists_cons_of_ne_nil hrest
        rw [if_pos hn]
        cases hlookup : es.lookup n with
        | none => rfl
        | some old =>
          cases old with
          | file content => rfl
          | directory es' =>
            refine absurd ?_ (hlast es')
            rw [List.nil_append, at?, ← hn, hlookup]
            rfl
      · rw [if_neg hn]
  | cons name inner ih =>
    cases node with
    | file content => cases hinner
    | directory entries =>
      rw [at?] at hinner
      obtain ⟨child, hlookup, hchild⟩ := Option.bind_eq_some_iff.1 hinner
      rw [List.cons_append, put, hlookup, Option.getD_some]
      cases place with
      | nil => rfl
      | cons n rest =>
        rw [at?, at?, Ledger.lookup_storeIn]
        by_cases hn : n = name
        · subst hn
          rw [if_pos rfl, hlookup, Option.bind_some, Option.bind_some]
          refine ih hchild (fun es' hes' => hlast es' ?_) fun heq => hne (by rw [heq]; rfl)
          rw [List.cons_append, at?, hlookup]
          exact hes'
        · rw [if_neg hn]

end Node

namespace FileTree

variable {t t' : FileTree} {p : String} {place inner : Place} {directoryOnly : Bool}
  {content : ByteArray}

/-! ## Where a path leads -/

/-- A path that leads anywhere has a name and does not start at the root. -/
theorem relative_of_locate (h : t.locate p = .ok (place, directoryOnly)) :
    p ≠ "" ∧ Path.isAbsolute p = false ∧ Path.names p ≠ [] := by
  obtain ⟨-, hrelative, last, before, hnames, -⟩ := locate_eq_ok_iff.1 h
  rw [not_or, Bool.not_eq_true] at hrelative
  refine ⟨hrelative.1, hrelative.2, fun hempty => ?_⟩
  rw [hempty] at hnames
  cases hnames

/-- A name that does not lead up makes its step from a place. -/
theorem steps_of_enter {name : String} (h : t.enter inner name = .ok place) (hup : name ≠ "..") :
    place.map Path.Step.down = inner.map .down ++ Path.stepsOfNames [name] := by
  unfold enter at h
  rw [if_neg hup] at h
  split at h
  next hhere =>
    cases h
    rw [hhere]
    exact (List.append_nil _).symm
  next hhere =>
    split at h
    next => cases h
    next =>
      split at h
      next =>
        cases h
        rw [List.map_append, Path.stepsOfNames, List.filterMap_cons]
        simp only [if_neg hhere, if_neg hup]
        rfl
      next => cases h
      next => cases h

/-- Names that do not lead up make their steps from a place. -/
theorem steps_of_enterEach :
    ∀ (names : List String) {inner place : Place}, names.foldlM t.enter inner = .ok place →
      ".." ∉ names → place.map Path.Step.down = inner.map .down ++ Path.stepsOfNames names
  | [], _, _, h, _ => by
    cases h
    exact (List.append_nil _).symm
  | name :: names, inner, place, h, hup => by
    rw [List.foldlM_cons] at h
    obtain ⟨next, hname, h⟩ := bind_eq_ok_iff.1 h
    rw [List.mem_cons, not_or] at hup
    rw [steps_of_enterEach names h hup.2, steps_of_enter hname (Ne.symm hup.1), List.append_assoc,
      ← Path.stepsOfNames_append]
    rfl

/-- **A path that does not lead up makes the steps down to its place.** -/
theorem steps_of_locate (h : t.locate p = .ok (place, directoryOnly))
    (hup : ".." ∉ Path.names p) : Path.stepsOfNames (Path.names p) = place.map .down := by
  cases directoryOnly with
  | true =>
    obtain ⟨-, -, _, _, -, -, hplace, -⟩ := locate_eq_ok_iff.1 h
    exact (steps_of_enterEach _ (hplace rfl) hup).symm
  | false =>
    obtain ⟨-, -, last, before, hnames, hlast, -, inner, hinner, rfl⟩ := locate_eq_file_iff.1 h
    rw [not_or, not_or] at hlast
    have hsplit : Path.names p = before.reverse ++ [last] := by
      rw [← List.reverse_reverse (Path.names p), hnames, List.reverse_cons]
    have hentry : Path.IsEntryName last := by
      refine Path.isEntryName_of_mem_names (p := p) ?_ hlast.1 hlast.2.1
      rw [hsplit]
      exact List.mem_append_right _ (.head _)
    rw [hsplit] at hup ⊢
    have hbefore := steps_of_enterEach _ hinner fun hmem => hup (List.mem_append_left _ hmem)
    rw [Path.stepsOfNames_append, List.map_append, hbefore,
      Path.stepsOfNames_eq_map (List.forall_mem_singleton.2 hentry)]
    rfl

/-- The place of a file in a well-formed tree has names of entries. -/
theorem isEntryName_of_locate (ht : t.top.WellFormed) (h : t.locate p = .ok (place, false)) :
    ∀ n ∈ place, Path.IsEntryName n := by
  obtain ⟨-, -, last, before, hnames, hlast, -, inner, hinner, rfl⟩ := locate_eq_file_iff.1 h
  rw [not_or, not_or] at hlast
  have htop : t.at? [] = some (.directory t.entries) := rfl
  obtain ⟨es, hes⟩ := directory_of_enterEach before.reverse htop hinner
  have hmem : last ∈ Path.names p := by
    rw [← List.mem_reverse, hnames]
    exact .head _
  rw [List.forall_mem_append, List.forall_mem_singleton]
  exact ⟨ht.isEntryName_of_at? hes, Path.isEntryName_of_mem_names hmem hlast.1 hlast.2.1⟩

/-! ## Writing a file -/

/-- A tree stays well formed when a file is written. -/
theorem wellFormed_write (ht : t.top.WellFormed) (h : t.write p content = .ok t') :
    t'.top.WellFormed := by
  obtain ⟨inner, last, es, hlocate, -, -, htop⟩ := write_eq_ok h
  rw [htop]
  exact ht.put (Node.wellFormed_file content) (isEntryName_of_locate ht hlocate)

/-- What a successful writing does at the place to which the path leads. -/
theorem write_eq_ok_of_locate (h : t.write p content = .ok t')
    (hlocate : t.locate p = .ok (place, false)) :
    ∃ inner last es, place = inner ++ [last] ∧ t.at? inner = some (.directory es) ∧
      (∀ es', t.at? (inner ++ [last]) ≠ some (.directory es')) ∧
      t'.top = Node.put (.file content) (inner ++ [last]) t.top := by
  obtain ⟨inner, last, es, hplace, hinner, hlast, htop⟩ := write_eq_ok h
  rw [hlocate] at hplace
  cases hplace
  exact ⟨inner, last, es, rfl, hinner, hlast, htop⟩

/-- **Writing a file leaves other places as they were.** -/
theorem content?_at?_write (h : t.write p content = .ok t')
    (hlocate : t.locate p = .ok (place, false)) {other : Place} (hne : other ≠ place) :
    (t'.at? other).map Node.content? = (t.at? other).map Node.content? := by
  obtain ⟨inner, last, es, rfl, hinner, hlast, htop⟩ := write_eq_ok_of_locate h hlocate
  rw [at?, htop]
  exact Node.content?_at?_put hinner hlast hne

/-- In particular it leaves the files there. -/
theorem at?_write_iff (h : t.write p content = .ok t') (hlocate : t.locate p = .ok (place, false))
    {other : Place} (hne : other ≠ place) {bytes : ByteArray} :
    t'.at? other = some (.file bytes) ↔ t.at? other = some (.file bytes) := by
  rw [Node.eq_some_file_iff, Node.eq_some_file_iff, content?_at?_write h hlocate hne]

/-- What was written stands at the place to which the path leads. -/
theorem at?_write (h : t.write p content = .ok t') (hlocate : t.locate p = .ok (place, false)) :
    t'.at? place = some (.file content) := by
  obtain ⟨inner, last, es, rfl, hinner, -, htop⟩ := write_eq_ok_of_locate h hlocate
  rw [at?, htop]
  exact Node.at?_put hinner last (.file content)

/-- **Writing a file again changes nothing.** -/
theorem write_write (h : t.write p content = .ok t') : t'.write p content = .ok t' := by
  obtain ⟨inner, last, es, hlocate, hinner, -, htop⟩ := write_eq_ok h
  have hlocate' := locate_of_directoriesIn (directoriesIn_write h) hlocate
  have hfile : t'.at? (inner ++ [last]) = some (.file content) := by
    rw [at?, htop]
    exact Node.at?_put hinner last (.file content)
  have hagain : Node.put (.file content) (inner ++ [last]) t'.top = t'.top := by
    rw [htop, Node.put_put]
  rw [write, hlocate', ok_bind]
  simp only [hfile, hagain]
  rfl

end FileTree

end DocIdent
