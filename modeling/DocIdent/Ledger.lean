/-!
# Ledgers

A ledger holds one value under each of its keys and remembers the order in which the keys came
(`Ledger`). A value stored under a key that is there takes the place of the old value; under a new
key it goes to the end (`Ledger.store`). A removed key leaves the order of the others as it was
(`Ledger.erase`). Two ledgers with the same values under the same keys are the same up to that order
(`Ledger.same`). What storing and erasing do to a look-up is said by `Ledger.get?_store` and
`Ledger.get?_erase`, and what they do to the keys by `Ledger.keys_store` and `Ledger.keys_erase`.
-/

namespace DocIdent

/-- Values under keys, in the order in which the keys came. -/
structure Ledger (α : Type) where
  /-- The keys with their values, oldest first. -/
  entries : List (String × α) := []
  deriving DecidableEq, Inhabited

namespace Ledger

variable {α : Type}

/-- The keys, oldest first. -/
def keys (l : Ledger α) : List String :=
  l.entries.map (·.1)

/-- The number of keys. -/
def size (l : Ledger α) : Nat :=
  l.entries.length

/-- The ledger has no key. -/
def isEmpty (l : Ledger α) : Bool :=
  l.entries.isEmpty

/-- The value under a key. -/
def get? (l : Ledger α) (key : String) : Option α :=
  l.entries.lookup key

/-- The ledger has a key. -/
def contains (l : Ledger α) (key : String) : Bool :=
  (l.get? key).isSome

/-- Entries with a value put under a key: in its place if the key is there, else at the end. -/
def storeIn (key : String) (value : α) : List (String × α) → List (String × α)
  | [] => [(key, value)]
  | (k, v) :: rest => if k = key then (k, value) :: rest else (k, v) :: storeIn key value rest

/-- The ledger with a value under a key. -/
def store (l : Ledger α) (key : String) (value : α) : Ledger α :=
  ⟨storeIn key value l.entries⟩

/-- The ledger without a key. -/
def erase (l : Ledger α) (key : String) : Ledger α :=
  ⟨l.entries.filter fun e => e.1 ≠ key⟩

theorem lookup_storeIn (key k : String) (value : α) (es : List (String × α)) :
    (storeIn key value es).lookup k = if k = key then some value else es.lookup k := by
  induction es with
  | nil =>
    by_cases h : k = key
    · simp [storeIn, h]
    · have hb : (k == key) = false := by simpa using h
      simp [storeIn, List.lookup_cons, h, hb]
  | cons e es ih =>
    obtain ⟨k', v⟩ := e
    by_cases hk : k' = key
    · subst hk
      by_cases h : k = k'
      · simp [storeIn, h]
      · have hb : (k == k') = false := by simpa using h
        simp [storeIn, List.lookup_cons, h, hb]
    · by_cases h : k = k'
      · subst h
        simp [storeIn, hk]
      · have hb : (k == k') = false := by simpa using h
        simp [storeIn, hk, List.lookup_cons, hb, ih]

/-- A stored value is found under its key, and nothing changes under the others. -/
@[simp, grind =] theorem get?_store (l : Ledger α) (key k : String) (value : α) :
    (l.store key value).get? k = if k = key then some value else l.get? k :=
  lookup_storeIn key k value l.entries

theorem keys_storeIn (key : String) (value : α) (es : List (String × α)) :
    (storeIn key value es).map (·.1) =
      if key ∈ es.map (·.1) then es.map (·.1) else es.map (·.1) ++ [key] := by
  induction es with
  | nil => simp [storeIn]
  | cons e es ih =>
    obtain ⟨k, v⟩ := e
    by_cases h : k = key
    · simp [storeIn, h]
    · have h' : key ≠ k := fun he => h he.symm
      simp only [storeIn, h, if_false, List.map_cons, ih, List.mem_cons, h', false_or]
      split <;> simp

/-- Storing under a key that is there leaves the keys in their order; a new key goes to the end. -/
@[simp, grind =] theorem keys_store (l : Ledger α) (key : String) (value : α) :
    (l.store key value).keys = if key ∈ l.keys then l.keys else l.keys ++ [key] :=
  keys_storeIn key value l.entries

/-- Under an erased key there is nothing, and nothing changes under the others. -/
@[simp, grind =] theorem get?_erase (l : Ledger α) (key k : String) :
    (l.erase key).get? k = if k = key then none else l.get? k := by
  obtain ⟨es⟩ := l
  simp only [erase, get?]
  induction es with
  | nil => simp
  | cons e es ih =>
    obtain ⟨k', v⟩ := e
    by_cases hk : k' = key
    · subst hk
      by_cases h : k = k'
      · subst h
        simpa using ih
      · have hb : (k == k') = false := by simpa using h
        simpa [List.lookup_cons, hb, h] using ih
    · by_cases h : k = k'
      · subst h
        simp [hk]
      · have hb : (k == k') = false := by simpa using h
        simpa [hk, List.lookup_cons, hb] using ih

/-- Erasing a key leaves the other keys in their order. -/
@[simp, grind =] theorem keys_erase (l : Ledger α) (key : String) :
    (l.erase key).keys = l.keys.filter (· ≠ key) := by
  obtain ⟨es⟩ := l
  simp [erase, keys, List.filter_map, Function.comp_def]

/-- Two ledgers have the same values under the same keys, in whatever order. -/
def same [DecidableEq α] (l m : Ledger α) : Bool :=
  l.size = m.size ∧ l.entries.all fun e => m.get? e.1 = some e.2

end Ledger

end DocIdent
