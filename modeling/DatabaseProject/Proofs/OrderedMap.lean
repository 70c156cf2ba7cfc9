import DatabaseProject.OrderedMap
import Mathlib.Data.List.Nodup

/-!
# Laws of ordered maps

Looking up, entering and overwriting, each in terms of the list of entries. Keys are distinct by
construction, so that the entry under a key is the only one.
-/

namespace DatabaseProject.OrderedMap

variable {κ α : Type} {m n : OrderedMap κ α} {key : κ} {value : α}

theorem ext_entries (h : m.entries = n.entries) : m = n := by
  cases m
  cases n
  simp only at h
  subst h
  rfl

@[simp] theorem entries_empty : (∅ : OrderedMap κ α).entries = [] := rfl

@[simp] theorem keys_empty : (∅ : OrderedMap κ α).keys = [] := rfl

@[simp] theorem values_empty : (∅ : OrderedMap κ α).values = [] := rfl

theorem mem_keys : key ∈ m.keys ↔ ∃ value, (key, value) ∈ m.entries := by
  simp [keys]

theorem mem_values : value ∈ m.values ↔ ∃ key, (key, value) ∈ m.entries := by
  simp [values]

theorem keys_of_mem (h : (key, value) ∈ m.entries) : key ∈ m.keys := mem_keys.2 ⟨value, h⟩

/-- Two entries under one key are the same entry. -/
theorem entry_unique {first second : α} (hf : (key, first) ∈ m.entries)
    (hs : (key, second) ∈ m.entries) : first = second := by
  have h := List.inj_on_of_nodup_map m.nodup hf hs rfl
  exact congrArg Prod.snd h

section LookUp

variable [DecidableEq κ] {other : κ}

theorem get?_eq_some : m.get? key = some value ↔ (key, value) ∈ m.entries := by
  unfold get?
  constructor
  · intro h
    obtain ⟨front, rest, he, -⟩ := List.lookup_eq_some_iff.1 h
    rw [he]
    simp
  · intro h
    cases hl : m.entries.lookup key with
    | none =>
      have hne := List.lookup_eq_none_iff.1 hl _ h
      simp at hne
    | some found =>
      obtain ⟨front, rest, he, -⟩ := List.lookup_eq_some_iff.1 hl
      have hf : (key, found) ∈ m.entries := by rw [he]; simp
      rw [entry_unique hf h]

theorem get?_eq_none : m.get? key = none ↔ key ∉ m.keys := by
  rw [Option.eq_none_iff_forall_ne_some, mem_keys, not_exists]
  exact forall_congr' fun value => not_congr get?_eq_some

theorem mem_keys_iff_get? : key ∈ m.keys ↔ ∃ value, m.get? key = some value := by
  simp only [mem_keys, get?_eq_some]

theorem contains_iff : m.contains key = true ↔ key ∈ m.keys := by simp [contains]

@[simp] theorem get?_empty : (∅ : OrderedMap κ α).get? key = none := rfl

theorem values_eq_filterMap : m.values = m.keys.filterMap m.get? := by
  have h : m.entries.map Prod.snd = m.entries.filterMap fun entry => m.get? entry.1 := by
    rw [← List.filterMap_eq_map]
    apply List.filterMap_congr
    rintro ⟨key, value⟩ he
    exact (get?_eq_some.2 he).symm
  rw [values, h, keys, List.filterMap_map]
  rfl

/-- Maps with the same keys that are related under each key are related value by value. -/
theorem forall₂_values {β : Type} {n : OrderedMap κ β} {R : α → β → Prop} (hk : m.keys = n.keys)
    (h : ∀ key ∈ m.keys, ∃ value other, m.get? key = some value ∧ n.get? key = some other ∧
      R value other) : List.Forall₂ R m.values n.values := by
  rw [values_eq_filterMap, values_eq_filterMap, ← hk]
  generalize m.keys = keys at h
  induction keys with
  | nil => exact .nil
  | cons key rest ih =>
    obtain ⟨hkey, hrest⟩ := List.forall_mem_cons.1 h
    obtain ⟨value, other, hv, ho, hr⟩ := hkey
    rw [List.filterMap_cons_some hv, List.filterMap_cons_some ho]
    exact .cons hr (ih hrest)

end LookUp

section Enter

variable [DecidableEq κ] {other : κ}

theorem add?_eq_none : m.add? key value = none ↔ key ∈ m.keys := by
  unfold add?
  split <;> simp_all

/-- Entering succeeds for a new key, and puts the entry behind all others. -/
theorem add?_eq_some : m.add? key value = some n ↔
    key ∉ m.keys ∧ n.entries = m.entries ++ [(key, value)] := by
  unfold add?
  split
  · rename_i h
    simp [h]
  · rename_i h
    simp only [Option.some.injEq, h, not_false_eq_true, true_and]
    constructor
    · intro he
      rw [← he]
    · intro he
      exact (ext_entries he).symm

theorem get?_of_add? (h : m.add? key value = some n) :
    n.get? other = if other = key then some value else m.get? other := by
  obtain ⟨hnew, he⟩ := add?_eq_some.1 h
  apply Option.ext
  intro found
  rw [get?_eq_some, he, List.mem_append, List.mem_singleton, Prod.mk.injEq]
  by_cases hk : other = key
  · subst hk
    have habsent : (other, found) ∉ m.entries := fun hm => hnew (keys_of_mem hm)
    simp [habsent, eq_comm]
  · simp [hk, get?_eq_some]

end Enter

section Overwrite

variable [DecidableEq κ] {other : κ} {change : α → α}

@[simp] theorem keys_update : (m.update key change).keys = m.keys := by
  unfold keys update
  rw [List.map_map]
  apply List.map_congr_left
  intro entry _
  by_cases h : entry.1 = key <;> simp [h]

theorem mem_entries_update {entry : κ × α} : entry ∈ (m.update key change).entries ↔
    ∃ old, (entry.1, old) ∈ m.entries ∧ entry.2 = if entry.1 = key then change old else old := by
  obtain ⟨k, v⟩ := entry
  simp only [update, List.mem_map, Prod.exists]
  constructor
  · rintro ⟨k', old, hold, he⟩
    by_cases h : k' = key
    · rw [if_pos h] at he
      cases he
      exact ⟨old, hold, by rw [if_pos h]⟩
    · rw [if_neg h] at he
      cases he
      exact ⟨v, hold, by rw [if_neg h]⟩
  · rintro ⟨old, hold, he⟩
    refine ⟨k, old, hold, ?_⟩
    by_cases h : k = key
    · rw [if_pos h] at he ⊢
      rw [he]
    · rw [if_neg h] at he ⊢
      rw [he]

theorem get?_update : (m.update key change).get? other =
    if other = key then (m.get? key).map change else m.get? other := by
  apply Option.ext
  intro value
  rw [get?_eq_some, mem_entries_update]
  by_cases h : other = key
  · subst h
    simp only [if_true, Option.map_eq_some_iff, get?_eq_some]
    exact ⟨fun ⟨old, hold, he⟩ => ⟨old, hold, he.symm⟩, fun ⟨old, hold, he⟩ => ⟨old, hold, he.symm⟩⟩
  · simp [h, get?_eq_some]

/-- Overwriting a value with itself changes nothing. -/
theorem update_self (h : m.get? key = some value) : m.update key (fun _ => value) = m := by
  apply ext_entries
  unfold update
  conv_rhs => rw [← List.map_id m.entries]
  apply List.map_congr_left
  intro entry hentry
  by_cases hk : entry.1 = key
  · subst hk
    have he := entry_unique (get?_eq_some.1 h) hentry
    simp [he]
  · simp [hk]

theorem put_of_mem (h : key ∈ m.keys) : m.put key value = m.update key fun _ => value := by
  unfold put
  rw [add?_eq_none.2 h]

theorem entries_put_of_not_mem (h : key ∉ m.keys) :
    (m.put key value).entries = m.entries ++ [(key, value)] := by
  unfold put
  cases ha : m.add? key value with
  | none => exact absurd (add?_eq_none.1 ha) h
  | some n => exact (add?_eq_some.1 ha).2

theorem keys_put_of_not_mem (h : key ∉ m.keys) : (m.put key value).keys = m.keys ++ [key] := by
  simp [keys, entries_put_of_not_mem h]

theorem values_put_of_not_mem (h : key ∉ m.keys) :
    (m.put key value).values = m.values ++ [value] := by
  simp [values, entries_put_of_not_mem h]

theorem keys_put_of_mem (h : key ∈ m.keys) : (m.put key value).keys = m.keys := by
  rw [put_of_mem h, keys_update]

theorem put_of_add? (h : m.add? key value = some n) : m.put key value = n := by
  unfold put
  rw [h]

theorem put_self (h : m.get? key = some value) : m.put key value = m := by
  rw [put_of_mem (mem_keys_iff_get?.2 ⟨value, h⟩), update_self h]

theorem get?_put : (m.put key value).get? other =
    if other = key then some value else m.get? other := by
  by_cases hk : key ∈ m.keys
  · rw [put_of_mem hk, get?_update]
    obtain ⟨old, hold⟩ := mem_keys_iff_get?.1 hk
    simp [hold]
  · have h : m.add? key value = some (m.put key value) :=
      add?_eq_some.2 ⟨hk, entries_put_of_not_mem hk⟩
    exact get?_of_add? h

theorem mem_keys_put : other ∈ (m.put key value).keys ↔ other = key ∨ other ∈ m.keys := by
  simp only [mem_keys_iff_get?, get?_put]
  by_cases h : other = key <;> simp [h]

theorem mem_entries_put {entry : κ × α} : entry ∈ (m.put key value).entries ↔
    entry = (key, value) ∨ entry.1 ≠ key ∧ entry ∈ m.entries := by
  obtain ⟨k, v⟩ := entry
  rw [← get?_eq_some, get?_put, ← get?_eq_some, Prod.mk.injEq]
  by_cases h : k = key
  · simp [h, eq_comm]
  · simp [h]

/-- What is put first under a key is lost to what is put there next. -/
theorem put_put {later : α} : (m.put key value).put key later = m.put key later := by
  rw [put_of_mem (mem_keys_put.2 (.inl rfl))]
  apply ext_entries
  by_cases hk : key ∈ m.keys
  · rw [put_of_mem hk, put_of_mem hk]
    simp only [update, List.map_map]
    apply List.map_congr_left
    intro entry _
    by_cases h : entry.1 = key <;> simp [h]
  · rw [entries_put_of_not_mem hk]
    simp only [update, entries_put_of_not_mem hk, List.map_append, List.map_cons, List.map_nil,
      if_true]
    congr 1
    conv_rhs => rw [← List.map_id m.entries]
    apply List.map_congr_left
    intro entry hentry
    have h : entry.1 ≠ key := fun he => hk (he ▸ keys_of_mem hentry)
    simp [h]

/-- Entries under other keys stay as they are, in their order. -/
theorem filter_entries_put : (m.put key value).entries.filter (fun entry => entry.1 ≠ key) =
    m.entries.filter fun entry => entry.1 ≠ key := by
  by_cases hk : key ∈ m.keys
  · rw [put_of_mem hk]
    have hf : (m.update key fun _ => value).entries.filter (fun entry => entry.1 ≠ key) =
        (m.entries.filter fun entry => entry.1 ≠ key).map fun entry =>
          if entry.1 = key then (entry.1, value) else entry := by
      simp only [update, List.filter_map]
      congr 1
      apply List.filter_congr
      intro entry _
      by_cases h : entry.1 = key <;> simp [h]
    rw [hf]
    conv_rhs => rw [← List.map_id (m.entries.filter _)]
    apply List.map_congr_left
    intro entry hentry
    have h : entry.1 ≠ key := by simpa using (List.mem_filter.1 hentry).2
    simp [h]
  · rw [entries_put_of_not_mem hk]
    simp

end Overwrite

end DatabaseProject.OrderedMap
