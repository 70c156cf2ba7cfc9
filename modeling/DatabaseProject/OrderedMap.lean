/-!
# Maps that remember the order of entry

An `OrderedMap κ α` holds values under pairwise distinct keys, in the order in which the keys
were first entered. `add?` refuses a key that is taken, `put` overwrites in place, `update`
changes the value under a key without moving it.
-/

namespace DatabaseProject

/-- Values under pairwise distinct keys, in order of entry. -/
structure OrderedMap (κ α : Type) where
  entries : List (κ × α)
  nodup : (entries.map Prod.fst).Nodup

/-- An ordered map keyed by names. -/
abbrev NameMap (α : Type) := OrderedMap String α

namespace OrderedMap

variable {κ α : Type}

/-- The map without entries. -/
def empty : OrderedMap κ α := ⟨[], by simp⟩

instance : EmptyCollection (OrderedMap κ α) := ⟨empty⟩

instance : Inhabited (OrderedMap κ α) := ⟨empty⟩

instance [DecidableEq κ] [DecidableEq α] : DecidableEq (OrderedMap κ α)
  | ⟨xs, _⟩, ⟨ys, _⟩ =>
    if h : xs = ys then isTrue (by subst h; rfl) else isFalse (by simpa using h)

def keys (m : OrderedMap κ α) : List κ := m.entries.map Prod.fst

def values (m : OrderedMap κ α) : List α := m.entries.map Prod.snd

def size (m : OrderedMap κ α) : Nat := m.entries.length

def isEmpty (m : OrderedMap κ α) : Bool := m.entries.isEmpty

variable [DecidableEq κ]

/-- The value under a key. -/
def get? (m : OrderedMap κ α) (key : κ) : Option α := m.entries.lookup key

def contains (m : OrderedMap κ α) (key : κ) : Bool := decide (key ∈ m.keys)

/-- Enters a value behind all others, or refuses when the key is taken. -/
def add? (m : OrderedMap κ α) (key : κ) (value : α) : Option (OrderedMap κ α) :=
  if h : key ∈ m.keys then none
  else some ⟨m.entries ++ [(key, value)], by
    rw [List.map_append, List.nodup_append]
    refine ⟨m.nodup, by simp, ?_⟩
    intro a ha b hb hab
    simp only [List.map_cons, List.map_nil, List.mem_singleton] at hb
    exact h (hb ▸ hab ▸ ha)⟩

/-- Changes the value under a key, where there is one. -/
def update (m : OrderedMap κ α) (key : κ) (change : α → α) : OrderedMap κ α :=
  ⟨m.entries.map fun entry => if entry.1 = key then (entry.1, change entry.2) else entry, by
    have h : (m.entries.map fun entry =>
        if entry.1 = key then (entry.1, change entry.2) else entry).map Prod.fst
          = m.entries.map Prod.fst := by
      rw [List.map_map]
      apply List.map_congr_left
      intro entry _
      by_cases h : entry.1 = key <;> simp [h]
    rw [h]
    exact m.nodup⟩

/-- Sets the value under a key: in place when the key is taken, behind all others when not. -/
def put (m : OrderedMap κ α) (key : κ) (value : α) : OrderedMap κ α :=
  match m.add? key value with
  | some extended => extended
  | none => m.update key fun _ => value

/-- The map of a list of entries; of two entries under one key the later value stays, in the
earlier place. -/
def ofList (entries : List (κ × α)) : OrderedMap κ α :=
  entries.foldl (fun m entry => m.put entry.1 entry.2) empty

end OrderedMap

end DatabaseProject
