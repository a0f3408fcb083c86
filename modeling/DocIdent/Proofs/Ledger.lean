import DocIdent.Ledger
import Mathlib.Data.List.Nodup
import Mathlib.Data.List.Perm.Subperm

/-!
# What a ledger shows

What is found under a key stands there (`Ledger.mem_of_get?_eq_some`), and if no key stands twice
also the other way round (`Ledger.get?_eq_some_of_mem`). Storing and erasing keep the keys distinct
(`Ledger.nodup_keys_store`, `Ledger.nodup_keys_erase`); under a key that stands in a ledger a value
is stored in its place (`Ledger.store_of_split`), under any other one at the end
(`Ledger.store_of_notMem`), from where erasing takes it back (`Ledger.erase_store_of_notMem`). With
distinct keys, two ledgers that show the same under each key have the same entries up to their order
(`Ledger.perm_iff_get?_eq`), and exactly then they are the same (`Ledger.same_iff_perm`).
-/

namespace DocIdent.Ledger

variable {α : Type} {l m : Ledger α} {key : String} {a : α}

/-! ## What is found -/

/-- There is nothing under a key that a ledger does not have. -/
@[simp, grind =] theorem get?_eq_none_iff (l : Ledger α) (key : String) :
    l.get? key = none ↔ key ∉ l.keys := by
  rw [get?, List.lookup_eq_none_iff, keys, List.mem_map]
  constructor
  · rintro h ⟨e, he, rfl⟩
    simpa using h e he
  · intro h e he
    simpa using fun heq => h ⟨e, he, heq.symm⟩

/-- What is found under a key stands there. -/
theorem mem_of_get?_eq_some (h : l.get? key = some a) : (key, a) ∈ l.entries := by
  obtain ⟨before, after, hentries, -⟩ := List.lookup_eq_some_iff.1 h
  simp [hentries]

/-- What stands under a key is found there, if no key stands twice. -/
theorem get?_eq_some_of_mem (hdistinct : l.keys.Nodup) (h : (key, a) ∈ l.entries) :
    l.get? key = some a := by
  obtain ⟨before, after, hentries⟩ := List.append_of_mem h
  refine List.lookup_eq_some_iff.2 ⟨before, after, hentries, fun e he => ?_⟩
  rw [keys, hentries, List.map_append, List.map_cons] at hdistinct
  have hne := (List.nodup_append.1 hdistinct).2.2 e.1 (List.mem_map_of_mem he) key (.head _)
  simpa using hne.symm

/-- What is found under a key is found there too if more entries follow. -/
theorem get?_eq_some_mono (hkept : l.entries <+: m.entries) (h : l.get? key = some a) :
    m.get? key = some a := by
  obtain ⟨later, hentries⟩ := hkept
  rw [get?] at h
  rw [get?, ← hentries, List.lookup_append, h]
  rfl

/-- An entry at the end is found under its key, unless something was found there before. -/
theorem get?_append_singleton (l : Ledger α) (e : String × α) (key : String) :
    get? ⟨l.entries ++ [e]⟩ key = (l.get? key).or (if e.1 = key then some e.2 else none) := by
  have hlast : [e].lookup key = if e.1 = key then some e.2 else none := by
    obtain ⟨k, a⟩ := e
    by_cases h : k = key
    · simp [h]
    · have hb : (key == k) = false := by simpa using Ne.symm h
      simp [h, List.lookup_cons, hb]
  rw [get?, List.lookup_append, hlast]
  rfl

/-! ## Storing and erasing -/

/-- An entry that stands after another was stored is that one or stood before. -/
theorem mem_storeIn {es : List (String × α)} {e : String × α} (h : e ∈ storeIn key a es) :
    e = (key, a) ∨ e ∈ es := by
  induction es with
  | nil => exact .inl (List.mem_singleton.1 h)
  | cons f es ih =>
    obtain ⟨k, v⟩ := f
    rw [storeIn] at h
    split at h
    next hk =>
      rcases List.mem_cons.1 h with rfl | h
      · exact .inl (by rw [hk])
      · exact .inr (.tail _ h)
    next =>
      rcases List.mem_cons.1 h with rfl | h
      · exact .inr (.head _)
      · exact (ih h).imp_right (.tail _)

/-- Of two values stored under one key the later one stays. -/
@[simp] theorem storeIn_storeIn (key : String) (value old : α) (es : List (String × α)) :
    storeIn key value (storeIn key old es) = storeIn key value es := by
  induction es with
  | nil => exact if_pos rfl
  | cons e es ih =>
    obtain ⟨k, v⟩ := e
    by_cases hk : k = key
    · rw [storeIn, if_pos hk, storeIn, if_pos hk, storeIn, if_pos hk]
    · rw [storeIn, if_neg hk, storeIn, if_neg hk, storeIn, if_neg hk, ih]

/-- Before the first place that has a key, a store under this key changes nothing. -/
theorem storeIn_append {before after : List (String × α)} (h : key ∉ before.map (·.1)) :
    storeIn key a (before ++ after) = before ++ storeIn key a after := by
  induction before with
  | nil => rfl
  | cons e before ih =>
    obtain ⟨k, v⟩ := e
    obtain ⟨hne, h⟩ := not_or.1 (List.mem_cons.not.1 h)
    rw [List.cons_append, storeIn, if_neg (Ne.symm hne), ih h, List.cons_append]

/-- A value is stored in the place of the one that its key has. -/
theorem store_of_split {before after : List (String × α)} {old : α} (hdistinct : l.keys.Nodup)
    (h : l.entries = before ++ (key, old) :: after) :
    (l.store key a).entries = before ++ (key, a) :: after := by
  have hnew : key ∉ before.map (·.1) := by
    rw [keys, h, List.map_append, List.map_cons] at hdistinct
    exact fun hmem => (List.nodup_append.1 hdistinct).2.2 key hmem key (.head _) rfl
  rw [store, h, storeIn_append hnew, storeIn, if_pos rfl]

/-- Under a key that a ledger does not have a value is stored at its end. -/
theorem store_of_notMem (h : key ∉ l.keys) : l.store key a = ⟨l.entries ++ [(key, a)]⟩ := by
  have hend : storeIn key a (l.entries ++ []) = l.entries ++ storeIn key a [] := storeIn_append h
  rw [List.append_nil] at hend
  rw [store, hend, storeIn]

/-- A new key at the end keeps the keys distinct. -/
theorem nodup_keys_append_singleton {es : List (String × α)} {e : String × α}
    (hdistinct : (es.map (·.1)).Nodup) (hnew : e.1 ∉ es.map (·.1)) :
    ((es ++ [e]).map (·.1)).Nodup := by
  rw [List.map_append, List.map_singleton, ← List.concat_eq_append]
  exact List.Nodup.concat hnew hdistinct

/-- Storing keeps the keys distinct. -/
theorem nodup_keys_store (hdistinct : l.keys.Nodup) : (l.store key a).keys.Nodup := by
  by_cases hkey : key ∈ l.keys
  · rw [keys_store, if_pos hkey]
    exact hdistinct
  · rw [store_of_notMem hkey]
    exact nodup_keys_append_singleton hdistinct hkey

/-- Erasing keeps the keys distinct. -/
theorem nodup_keys_erase (hdistinct : l.keys.Nodup) : (l.erase key).keys.Nodup := by
  rw [keys_erase]
  exact hdistinct.filter _

/-- Erasing a key that a ledger does not have changes nothing. -/
theorem erase_of_notMem (h : key ∉ l.keys) : l.erase key = l := by
  have hkept : l.entries.filter (fun e => e.1 ≠ key) = l.entries := by
    refine List.filter_eq_self.2 fun e he => decide_eq_true ?_
    rintro rfl
    exact h (List.mem_map_of_mem he)
  rw [erase, hkept]

/-- A key that a ledger did not have is erased without a trace. -/
theorem erase_store_of_notMem (h : key ∉ l.keys) : (l.store key a).erase key = l := by
  have hlast : [(key, a)].filter (fun e => e.1 ≠ key) = [] := by simp
  have hkept : l.entries.filter (fun e => e.1 ≠ key) = l.entries :=
    congrArg entries (erase_of_notMem h)
  rw [store_of_notMem h, erase, List.filter_append, hlast, hkept, List.append_nil]

/-! ## The same values under the same keys -/

/-- With distinct keys, the entries are those that are found under their keys. -/
theorem mem_entries_iff (hdistinct : l.keys.Nodup) {e : String × α} :
    e ∈ l.entries ↔ l.get? e.1 = some e.2 :=
  ⟨get?_eq_some_of_mem hdistinct, mem_of_get?_eq_some⟩

/-- Ledgers with distinct keys that show the same under each key have the same entries, up to their
order. -/
theorem perm_iff_get?_eq (hl : l.keys.Nodup) (hm : m.keys.Nodup) :
    l.entries.Perm m.entries ↔ ∀ key, l.get? key = m.get? key := by
  rw [List.perm_ext_iff_of_nodup (List.Nodup.of_map _ hl) (List.Nodup.of_map _ hm)]
  constructor
  · intro h key
    refine Option.ext fun a => ?_
    rw [← mem_entries_iff (e := (key, a)) hl, h, mem_entries_iff hm]
  · intro h e
    rw [mem_entries_iff hl, mem_entries_iff hm, h]

/-- **Ledgers are the same** exactly if their entries are, up to their order. -/
theorem same_iff_perm [DecidableEq α] (hl : l.keys.Nodup) (hm : m.keys.Nodup) :
    l.same m ↔ l.entries.Perm m.entries := by
  have hfound : l.same m ↔
      l.entries.length = m.entries.length ∧ ∀ e ∈ l.entries, e ∈ m.entries := by
    simp only [same, size, Bool.decide_and, Bool.and_eq_true, decide_eq_true_eq, List.all_eq_true,
      mem_entries_iff hm]
  rw [hfound]
  constructor
  · rintro ⟨hlength, hmem⟩
    have hsub := List.subperm_of_subset (List.Nodup.of_map _ hl) hmem
    exact hsub.perm_of_length_le (Nat.le_of_eq hlength.symm)
  · exact fun h => ⟨h.length_eq, fun e he => h.subset he⟩

end DocIdent.Ledger
