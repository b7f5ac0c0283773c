namespace Workflow

structure Table (κ : Type) (α : Type) where
  entries : List (κ × α)
  /-- No key has two entries. -/
  nodup : (entries.map Prod.fst).Nodup

namespace Table

variable {κ α : Type}

def empty : Table κ α :=
  ⟨[], List.nodup_nil⟩

def size (t : Table κ α) : Nat :=
  t.entries.length

def isEmpty (t : Table κ α) : Bool :=
  t.entries.isEmpty

def keys (t : Table κ α) : List κ :=
  t.entries.map Prod.fst

variable [DecidableEq κ]

def get? (t : Table κ α) (key : κ) : Option α :=
  t.entries.lookup key

def erase (t : Table κ α) (key : κ) : Table κ α :=
  ⟨t.entries.filter fun entry => entry.1 ≠ key,
    t.nodup.sublist (List.filter_sublist.map Prod.fst)⟩

def insert (t : Table κ α) (key : κ) (value : α) : Table κ α :=
  ⟨(key, value) :: (t.erase key).entries, by
    refine List.nodup_cons.mpr ⟨?_, (t.erase key).nodup⟩
    simp [erase]⟩

theorem get?_empty (key : κ) : (empty : Table κ α).get? key = none := rfl

theorem lookup_filter (entries : List (κ × α)) (key k : κ) :
    (entries.filter fun entry => entry.1 ≠ key).lookup k =
      if k = key then none else entries.lookup k := by
  induction entries with
  | nil => simp
  | cons entry rest ih =>
    obtain ⟨a, v⟩ := entry
    by_cases ha : a = key <;> by_cases hk : k = a <;> grind

theorem get?_erase (t : Table κ α) (key k : κ) :
    (t.erase key).get? k = if k = key then none else t.get? k :=
  lookup_filter t.entries key k

theorem get?_insert (t : Table κ α) (key k : κ) (value : α) :
    (t.insert key value).get? k = if k = key then some value else t.get? k := by
  have h := t.get?_erase key k
  by_cases hk : k = key <;> grind [insert, get?]

end Table

end Workflow
