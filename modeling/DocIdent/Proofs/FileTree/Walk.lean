import DocIdent.FileTree.Walk
import DocIdent.Proofs.FileTree.Names
import DocIdent.Proofs.Text.Order
import Mathlib.Data.List.Sort

/-!
# What a walk lists, and in which order

A walk lists exactly the files below a directory, each with the path that its names make from the
path of the directory (`Node.mem_files_iff`), as long as each directory on the way can be followed.
The names in a directory are sorted, and what stands below one name has this name in its path where
what stands below another has the other; so the list is in the order of paths, name by name
(`Node.pairwise_files`).
-/

namespace DocIdent.Node

variable {node : Node} {es : List (String × Node)} {path : String} {f : String × ByteArray}

/-- A walk through a directory that can be followed lists what walks through its entries list. -/
theorem mem_files_directory_iff :
    f ∈ files path (.directory es) ↔
      Path.isUsable path = true ∧ ∃ e ∈ es, f ∈ files (Path.join path e.1) e.2 := by
  rw [files]
  split
  next h =>
    rw [List.mem_flatMap]
    simp only [h, true_and, sortByName, List.mem_mergeSort, filesOfEntries_eq_map, List.mem_map,
      exists_exists_and_eq_and]
  next h => exact iff_of_false List.not_mem_nil fun hfiles => h hfiles.1

/-- **A walk lists the files below a directory**, each with its path. -/
theorem mem_files_iff (h : node.WellFormed) :
    f ∈ files path node ↔
      ∃ names, f.1 = Path.below path names ∧ Path.Reaches path names ∧
        node.at? names = some (.file f.2) := by
  induction node using entriesInduction generalizing path with
  | file content =>
    rw [files, List.mem_singleton]
    constructor
    · rintro rfl
      exact ⟨[], rfl, trivial, rfl⟩
    · rintro ⟨_ | ⟨name, names⟩, hpath, -, hfile⟩
      · cases hfile
        exact Prod.ext hpath rfl
      · cases hfile
  | directory es ih =>
    rw [mem_files_directory_iff]
    constructor
    · rintro ⟨husable, ⟨name, child⟩, hmem, hf⟩
      obtain ⟨names, hpath, hreaches, hfile⟩ := (ih _ hmem (h.of_mem hmem)).1 hf
      refine ⟨name :: names, hpath, ⟨husable, hreaches⟩, ?_⟩
      rw [at?, h.mem_iff.1 hmem]
      exact hfile
    · rintro ⟨_ | ⟨name, names⟩, hpath, hreaches, hfile⟩
      · cases hfile
      · rw [at?] at hfile
        obtain ⟨child, hchild, hfile⟩ := Option.bind_eq_some_iff.1 hfile
        have hmem := h.mem_iff.2 hchild
        exact ⟨hreaches.1, (name, child), hmem,
          (ih _ hmem (h.of_mem hmem)).2 ⟨names, hpath, hreaches.2, hfile⟩⟩

/-- What a walk lists has the names of where the walk starts, and then others. -/
theorem names_of_mem_files (h : node.WellFormed) (hf : f ∈ files path node) :
    ∃ names, Path.names f.1 = Path.names path ++ names := by
  obtain ⟨names, hpath, -, hfile⟩ := (mem_files_iff h).1 hf
  exact ⟨names, by rw [hpath, Path.names_below (h.isEntryName_of_at? hfile)]⟩

/-- **A walk is in the order of paths.** -/
theorem pairwise_files (h : node.WellFormed) :
    (files path node).Pairwise fun f g => Path.Before f.1 g.1 := by
  induction node using entriesInduction generalizing path with
  | file content => exact List.pairwise_singleton _ _
  | directory es ih =>
    rw [files]
    split
    next =>
      have hparts : ∀ part ∈ sortByName (filesOfEntries path es), ∃ child,
          (part.1, child) ∈ es ∧ part.2 = files (Path.join path part.1) child := by
        intro part hpart
        rw [sortByName, List.mem_mergeSort, filesOfEntries_eq_map] at hpart
        obtain ⟨e, he, rfl⟩ := List.mem_map.1 hpart
        exact ⟨e.2, he, rfl⟩
      have hsorted : (sortByName (filesOfEntries path es)).Pairwise
          fun a b => Text.Before a.1 b.1 := by
        refine Text.pairwise_mergeSort Prod.fst ?_
        rw [filesOfEntries_eq_map, List.map_map]
        exact h.listing.distinct
      have hnames : ∀ part ∈ sortByName (filesOfEntries path es), ∀ f ∈ part.2,
          ∃ rest, Path.names f.1 = Path.names path ++ part.1 :: rest := by
        intro part hpart f hf
        obtain ⟨child, hmem, hfiles⟩ := hparts part hpart
        rw [hfiles] at hf
        obtain ⟨rest, hrest⟩ := names_of_mem_files (h.of_mem hmem) hf
        have hname := h.listing.entryNames _ (List.mem_map_of_mem hmem)
        rw [Path.names_join path hname.isAbsolute_eq_false, hname.names_eq,
          List.append_assoc] at hrest
        exact ⟨rest, hrest⟩
      refine List.pairwise_flatMap.2 ⟨fun part hpart => ?_, ?_⟩
      · obtain ⟨child, hmem, hfiles⟩ := hparts part hpart
        rw [hfiles]
        exact ih _ hmem (h.of_mem hmem)
      · refine hsorted.imp_of_mem fun ha hb hab f hf g hg => ?_
        obtain ⟨rest, hf⟩ := hnames _ ha f hf
        obtain ⟨rest', hg⟩ := hnames _ hb g hg
        exact Path.before_of_names hf hg hab
    next => exact .nil

end DocIdent.Node
