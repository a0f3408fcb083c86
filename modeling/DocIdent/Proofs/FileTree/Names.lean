import DocIdent.Proofs.FileTree
import DocIdent.Proofs.Ledger
import DocIdent.Proofs.Path
import Mathlib.Data.List.Nodup

/-!
# The names in a tree

No two things in a directory have one name, and each has a name that leads to it, which is that of
no other directory (`Node.WellFormed`). So what a directory holds is what its names lead to
(`Node.WellFormed.mem_iff`), and the names on the way to anything are names of entries
(`Node.WellFormed.isEntryName_of_at?`). Putting something under such names keeps this
(`Node.WellFormed.put`).
-/

namespace DocIdent

namespace Node

/-- The names in a directory: no name twice, and each the name of an entry. -/
structure IsListing (names : List String) : Prop where
  distinct : names.Nodup
  entryNames : ∀ n ∈ names, Path.IsEntryName n

instance (names : List String) : Decidable (IsListing names) :=
  decidable_of_iff (names.Nodup ∧ ∀ n ∈ names, Path.IsEntryName n)
    ⟨fun h => ⟨h.1, h.2⟩, fun h => ⟨h.distinct, h.entryNames⟩⟩

/-- Every directory in a node holds things by their names. -/
def WellFormed (node : Node) : Prop :=
  ∀ place es, node.at? place = some (.directory es) → IsListing (es.map (·.1))

mutual

/-- Something holds of a node if it holds of files, and of a directory whenever it holds of all that
the directory holds. -/
@[elab_as_elim]
theorem entriesInduction {P : Node → Prop} (file : ∀ content, P (.file content))
    (directory : ∀ es : List (String × Node), (∀ e ∈ es, P e.2) → P (.directory es)) :
    ∀ node, P node
  | .file content => file content
  | .directory es => directory es (entriesInduction_entries file directory es)

/-- It then holds of what any directory holds. -/
theorem entriesInduction_entries {P : Node → Prop} (file : ∀ content, P (.file content))
    (directory : ∀ es : List (String × Node), (∀ e ∈ es, P e.2) → P (.directory es)) :
    ∀ es : List (String × Node), ∀ e ∈ es, P e.2
  | [], _, he => by cases he
  | (_, node) :: es, e, he => by
    rcases List.mem_cons.1 he with rfl | he
    · exact entriesInduction file directory node
    · exact entriesInduction_entries file directory es e he

end

variable {node child new : Node} {es : List (String × Node)} {name : String} {names : List String}

/-- Storing something under the name of an entry leaves names of entries, none of them twice. -/
theorem IsListing.store (h : IsListing (es.map (·.1))) (hname : Path.IsEntryName name) :
    IsListing ((Ledger.storeIn name new es).map (·.1)) where
  distinct := Ledger.nodup_keys_store (l := ⟨es⟩) h.distinct
  entryNames := by
    rw [Ledger.keys_storeIn]
    split
    next => exact h.entryNames
    next =>
      rw [List.forall_mem_append, List.forall_mem_singleton]
      exact ⟨h.entryNames, hname⟩

/-- There is nothing in a file. -/
@[simp] theorem wellFormed_file (content : ByteArray) : WellFormed (.file content) := by
  intro place es hplace
  cases place with
  | nil => cases hplace
  | cons name place => cases hplace

/-- A directory is well formed if its names are and what it holds is. -/
theorem wellFormed_directory (hnames : IsListing (es.map (·.1)))
    (hes : ∀ e ∈ es, e.2.WellFormed) : WellFormed (.directory es) := by
  intro place inner hplace
  cases place with
  | nil =>
    cases hplace
    exact hnames
  | cons name place =>
    obtain ⟨child, hchild, hplace⟩ := Option.bind_eq_some_iff.1 hplace
    exact hes _ (Ledger.mem_of_get?_eq_some (l := ⟨es⟩) hchild) place inner hplace

/-- There is nothing in an empty directory. -/
@[simp] theorem wellFormed_empty : WellFormed (.directory []) :=
  wellFormed_directory (by decide) (by simp)

namespace WellFormed

/-- What stands in a well-formed node is well formed. -/
theorem of_at? (h : node.WellFormed) (hchild : node.at? names = some child) : child.WellFormed := by
  intro place es hplace
  refine h (names ++ place) es ?_
  rw [at?_append, hchild]
  exact hplace

theorem listing (h : WellFormed (.directory es)) : IsListing (es.map (·.1)) :=
  h [] es rfl

/-- **A directory holds what its names lead to.** -/
theorem mem_iff (h : WellFormed (.directory es)) :
    (name, child) ∈ es ↔ es.lookup name = some child :=
  ⟨fun hmem => Ledger.get?_eq_some_of_mem (l := ⟨es⟩) h.listing.distinct hmem,
    fun hlookup => Ledger.mem_of_get?_eq_some (l := ⟨es⟩) hlookup⟩

/-- What a well-formed directory holds is well formed. -/
theorem of_mem (h : WellFormed (.directory es)) (hmem : (name, child) ∈ es) : child.WellFormed := by
  have hchild : (Node.directory es).at? [name] = some child := by
    rw [at?, h.mem_iff.1 hmem]
    rfl
  exact h.of_at? hchild

/-- The names that lead to anything are names of entries. -/
theorem isEntryName_of_at? (h : node.WellFormed) (hchild : node.at? names = some child) :
    ∀ n ∈ names, Path.IsEntryName n := by
  induction names generalizing node with
  | nil => simp
  | cons name names ih =>
    cases node with
    | file content => cases hchild
    | directory es =>
      rw [at?] at hchild
      obtain ⟨inner, hinner, hchild⟩ := Option.bind_eq_some_iff.1 hchild
      have hmem := h.mem_iff.2 hinner
      exact List.forall_mem_cons.2
        ⟨h.listing.entryNames name (List.mem_map_of_mem hmem), ih (h.of_mem hmem) hchild⟩

/-- **A well-formed node stays so** when something well formed is put under names of entries. -/
theorem put (h : node.WellFormed) (hnew : new.WellFormed)
    (hnames : ∀ n ∈ names, Path.IsEntryName n) : (put new names node).WellFormed := by
  induction names generalizing node with
  | nil => exact hnew
  | cons name names ih =>
    obtain ⟨hname, hnames⟩ := List.forall_mem_cons.1 hnames
    cases node with
    | file content => exact wellFormed_file content
    | directory inner =>
      have hold : ((inner.lookup name).getD (.directory [])).WellFormed := by
        cases hlookup : inner.lookup name with
        | none => exact wellFormed_empty
        | some old => exact h.of_mem (h.mem_iff.2 hlookup)
      intro place es hplace
      rw [Node.put] at hplace
      cases place with
      | nil =>
        cases hplace
        exact h.listing.store hname
      | cons n place =>
        rw [at?, Ledger.lookup_storeIn] at hplace
        split at hplace
        next => exact ih hold hnames place es hplace
        next => exact h (n :: place) es hplace

end WellFormed

end Node

namespace FileTree

variable {t : FileTree} {p : String} {node : Node}

/-- A path leads to what stands at its place. -/
theorem find_eq_ok_iff :
    t.find p = .ok node ↔
      ∃ place directoryOnly, t.locate p = .ok (place, directoryOnly) ∧ t.at? place = some node := by
  rw [find, bind_eq_ok_iff, Prod.exists]
  refine exists_congr fun place => exists_congr fun directoryOnly => and_congr_right fun _ => ?_
  cases hplace : t.at? place with
  | none =>
    simp only [hplace]
    constructor <;> rintro ⟨⟩
  | some found =>
    simp only [hplace]
    constructor <;> rintro ⟨⟩ <;> rfl

/-- What a path leads to in a well-formed tree is well formed. -/
theorem wellFormed_of_find (h : t.top.WellFormed) (hfind : t.find p = .ok node) :
    node.WellFormed := by
  obtain ⟨place, -, -, hplace⟩ := find_eq_ok_iff.1 hfind
  exact h.of_at? hplace

end FileTree

end DocIdent
