import DocIdent.Failure
import DocIdent.Proofs.Metadata.Blob
import Mathlib.Algebra.Ring.Parity
import Mathlib.Data.List.Induction

/-!
# Which blobs are read

The segments of a blob are taken two by two (`Metadata.pairsOf`); an odd number of them leaves one
over. Pairs that repeat no key are passed one after the other (`Metadata.readPairs_inTurn_append`),
and then either nothing is left, or a key without a value, or a pair with a key that was there
before (`Metadata.FirstRepeat`), whatever comes after it. This says of every blob whether it is
read, what is found in it, and which of its two faults is reported
(`Metadata.read_eq_ok_iff_and_error_iff`).
-/

namespace DocIdent.Metadata

/-! ## Two by two -/

/-- The items of a list two by two. One that is left over at the end is in no pair. -/
def pairsOf : List String → List (String × String)
  | [] => []
  | [_] => []
  | key :: value :: rest => (key, value) :: pairsOf rest

/-- An even number of items are those of their pairs. -/
theorem inTurn_pairsOf {items : List String} (h : Even items.length) :
    inTurn (pairsOf items) = items := by
  induction items using pairsOf.induct with
  | case1 => rfl
  | case2 last => exact absurd h Nat.not_even_one
  | case3 key value rest ih =>
    rw [pairsOf, inTurn_cons, ih (by simpa [Nat.even_add_one] using h)]

/-- Of an odd number of items the last one is left over by the pairs. -/
theorem inTurn_pairsOf_append {items : List String} (h : Odd items.length) :
    ∃ last, items.getLast? = some last ∧ inTurn (pairsOf items) ++ [last] = items := by
  induction items using pairsOf.induct with
  | case1 => exact absurd h Nat.not_odd_zero
  | case2 last => exact ⟨last, rfl, rfl⟩
  | case3 key value rest ih =>
    obtain ⟨last, hlast, hrest⟩ := ih (by simpa [Nat.odd_add_one] using h)
    refine ⟨last, ?_, ?_⟩
    · rw [List.getLast?_cons, List.getLast?_cons, hlast]
      rfl
    · rw [pairsOf, inTurn_cons, List.cons_append, List.cons_append, hrest]

/-! ## The first key that comes again -/

/-- The first key among those of some entries that was there before. -/
def FirstRepeat (es : List (String × String)) (key : String) : Prop :=
  ∃ before value after, es = before ++ (key, value) :: after ∧ (before.map (·.1)).Nodup ∧
    key ∈ before.map (·.1)

/-- Either no key of some entries stands twice, or one of them is the first to come again. -/
theorem nodup_or_firstRepeat (es : List (String × String)) :
    (es.map (·.1)).Nodup ∨ ∃ key, FirstRepeat es key := by
  induction es using List.reverseRecOn with
  | nil => exact .inl List.nodup_nil
  | append_singleton es e ih =>
    obtain ⟨key, value⟩ := e
    rcases ih with hdistinct | ⟨first, before, v, after, rfl, hbefore, hfirst⟩
    · by_cases hmem : key ∈ es.map (·.1)
      · exact .inr ⟨key, es, value, [], rfl, hdistinct, hmem⟩
      · exact .inl (Ledger.nodup_keys_append_singleton hdistinct hmem)
    · exact .inr ⟨first, before, v, after ++ [(key, value)], by simp, hbefore, hfirst⟩

/-! ## Reading -/

/-- Pairs that repeat no key, also none of those read before, are passed. -/
theorem readPairs_inTurn_append {blob : String} {read es : List (String × String)}
    {rest : List String} (hdistinct : ((read ++ es).map (·.1)).Nodup) :
    readPairs blob read (inTurn es ++ rest) = readPairs blob (read ++ es) rest := by
  induction es generalizing read with
  | nil => rw [List.append_nil]; rfl
  | cons e es ih =>
    have hnew : e.1 ∉ read.map (·.1) := by
      rw [List.map_append, List.map_cons] at hdistinct
      exact fun hmem => (List.nodup_append.1 hdistinct).2.2 e.1 hmem e.1 (.head _) rfl
    rw [List.append_cons] at hdistinct
    rw [inTurn_cons, List.cons_append, List.cons_append, readPairs, if_neg hnew, ih hdistinct,
      List.append_assoc, List.singleton_append]

variable {b : String}

/-- The empty text is one segment, and so has no pair. -/
@[simp] theorem pairsOf_segments_empty : pairsOf (segments "") = [] :=
  rfl

/-- A blob has a segment more than it has separators. -/
theorem length_segments (b : String) : (segments b).length = b.toList.count separator + 1 := by
  rw [segments, List.length_map, Text.length_splitOn]

/-- A key that comes again is reported, whatever comes after it. -/
theorem read_of_firstRepeat {key : String} (h : FirstRepeat (pairsOf (segments b)) key) :
    read (some b) = .error (.repeatedKey b key) := by
  obtain ⟨before, value, after, hpairs, hbefore, hmem⟩ := h
  have hb : b ≠ "" := by
    rintro rfl
    rw [pairsOf_segments_empty] at hpairs
    exact absurd hpairs.symm (List.append_ne_nil_of_right_ne_nil _ (List.cons_ne_nil _ _))
  have hinTurn :
      inTurn (pairsOf (segments b)) = inTurn before ++ key :: value :: inTurn after := by
    rw [hpairs, inTurn, List.flatMap_append]
    rfl
  obtain ⟨rest, hsegments⟩ : ∃ rest, segments b = inTurn before ++ key :: value :: rest := by
    rcases Nat.even_or_odd (segments b).length with heven | hodd
    · exact ⟨inTurn after, (inTurn_pairsOf heven).symm.trans hinTurn⟩
    · obtain ⟨last, -, hlast⟩ := inTurn_pairsOf_append hodd
      refine ⟨inTurn after ++ [last], hlast.symm.trans ?_⟩
      rw [hinTurn, List.append_assoc]
      rfl
  rw [read, if_neg hb, hsegments, readPairs_inTurn_append (by rwa [List.nil_append]), readPairs,
    List.nil_append, if_pos hmem]
  rfl

/-- A key without a value is reported if no key comes again before it. -/
theorem read_of_even (hb : b ≠ "") (hcount : Even (b.toList.count separator))
    (hdistinct : ((pairsOf (segments b)).map (·.1)).Nodup) :
    ∃ key, (segments b).getLast? = some key ∧ read (some b) = .error (.danglingKey b key) := by
  have hodd : Odd (segments b).length := length_segments b ▸ hcount.add_one
  obtain ⟨key, hkey, hsegments⟩ := inTurn_pairsOf_append hodd
  refine ⟨key, hkey, ?_⟩
  rw [read, if_neg hb, ← hsegments, readPairs_inTurn_append (by rwa [List.nil_append]), readPairs]
  rfl

/-- Pairs that repeat no key are read if nothing is left over. -/
theorem read_of_odd (hcount : Odd (b.toList.count separator))
    (hdistinct : ((pairsOf (segments b)).map (·.1)).Nodup) :
    read (some b) = .ok ⟨pairsOf (segments b)⟩ := by
  have hb : b ≠ "" := by
    rintro rfl
    exact absurd hcount Nat.not_odd_zero
  have heven : Even (segments b).length := length_segments b ▸ hcount.add_one
  exact (read_eq_ok_iff hb).2 ⟨(inTurn_pairsOf heven).symm, hdistinct⟩

/-- A well-formed blob is read, and its facts are its segments two by two. -/
theorem read_of_empty_or_odd
    (h : b = "" ∨ Odd (b.toList.count separator) ∧ ((pairsOf (segments b)).map (·.1)).Nodup) :
    read (some b) = .ok ⟨pairsOf (segments b)⟩ := by
  rcases h with rfl | ⟨hcount, hdistinct⟩
  · rw [pairsOf_segments_empty]
    rfl
  · exact read_of_odd hcount hdistinct

/-- A blob is well formed, or a key comes again in it, or one is left without a value. -/
theorem read_cases (b : String) :
    ((b = "" ∨ Odd (b.toList.count separator) ∧ ((pairsOf (segments b)).map (·.1)).Nodup) ∧
      read (some b) = .ok ⟨pairsOf (segments b)⟩) ∨
    (∃ key, FirstRepeat (pairsOf (segments b)) key ∧
      read (some b) = .error (.repeatedKey b key)) ∨
    b ≠ "" ∧ Even (b.toList.count separator) ∧ ((pairsOf (segments b)).map (·.1)).Nodup ∧
      ∃ key, (segments b).getLast? = some key ∧ read (some b) = .error (.danglingKey b key) := by
  rcases nodup_or_firstRepeat (pairsOf (segments b)) with hdistinct | ⟨key, hrepeat⟩
  · rcases eq_or_ne b "" with hb | hb
    · exact .inl ⟨.inl hb, read_of_empty_or_odd (.inl hb)⟩
    rcases Nat.even_or_odd (b.toList.count separator) with heven | hodd
    · exact .inr (.inr ⟨hb, heven, hdistinct, read_of_even hb heven hdistinct⟩)
    · exact .inl ⟨.inr ⟨hodd, hdistinct⟩, read_of_odd hodd hdistinct⟩
  · exact .inr (.inl ⟨key, hrepeat, read_of_firstRepeat hrepeat⟩)

/-- **Exactly the well-formed blobs are read.** A blob is read if it is empty, or has an odd number
of separators and no key twice; the facts are then its segments two by two, in their order. Else the
first key that comes again is reported, and only if there is none the last segment, as a key without
a value. -/
theorem read_eq_ok_iff_and_error_iff (b : String) :
    (∀ m, read (some b) = .ok m ↔
      (b = "" ∨
        Odd (b.toList.count separator) ∧ ((pairsOf (segments b)).map (·.1)).Nodup) ∧
      m.entries = pairsOf (segments b)) ∧
    (∀ fault, read (some b) = .error fault ↔
      (∃ key, FirstRepeat (pairsOf (segments b)) key ∧ fault = .repeatedKey b key) ∨
      b ≠ "" ∧ Even (b.toList.count separator) ∧ ((pairsOf (segments b)).map (·.1)).Nodup ∧
        ∃ key, (segments b).getLast? = some key ∧ fault = .danglingKey b key) ∧
    ∀ key,
      (Failure.malformed (.metadata (.repeatedKey b key))).message =
        "malformed DRI: " ++ ("extra blob `" ++ b ++ "` repeats key `" ++ key ++ "`") ∧
      (Failure.malformed (.metadata (.danglingKey b key))).message =
        "malformed DRI: " ++ ("extra blob `" ++ b ++ "` has a dangling key `" ++ key ++ "`") := by
  refine ⟨fun m => ⟨fun h => ?_, ?_⟩, fun fault => ⟨fun h => ?_, ?_⟩, fun key => ?_⟩
  · rcases read_cases b with ⟨hgood, hread⟩ | ⟨key, -, hread⟩ | ⟨-, -, -, key, -, hread⟩
    · rw [hread] at h
      cases h
      exact ⟨hgood, rfl⟩
    · rw [hread] at h
      cases h
    · rw [hread] at h
      cases h
  · rintro ⟨hgood, hentries⟩
    rw [read_of_empty_or_odd hgood, ← hentries]
  · rcases read_cases b with ⟨-, hread⟩ | ⟨key, hrepeat, hread⟩ |
        ⟨hb, heven, hdistinct, key, hlast, hread⟩
    · rw [hread] at h
      cases h
    · rw [hread] at h
      cases h
      exact .inl ⟨key, hrepeat, rfl⟩
    · rw [hread] at h
      cases h
      exact .inr ⟨hb, heven, hdistinct, key, hlast, rfl⟩
  · rintro (⟨key, hrepeat, rfl⟩ | ⟨hb, heven, hdistinct, key, hlast, rfl⟩)
    · exact read_of_firstRepeat hrepeat
    · obtain ⟨last, hlast', hread⟩ := read_of_even hb heven hdistinct
      rw [hlast] at hlast'
      cases hlast'
      exact hread
  · exact ⟨rfl, rfl⟩

/-- A key that comes again is reported although the blob ends in a key without a value. -/
example : read (some "a/1/a/2/c") = .error (.repeatedKey "a/1/a/2/c" "a") := by decide +kernel

end DocIdent.Metadata
