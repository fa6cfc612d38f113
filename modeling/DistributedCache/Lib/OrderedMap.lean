import Mathlib.Data.List.Nodup
import Mathlib.Data.List.Lemmas
import Mathlib.Algebra.BigOperators.Group.List.Basic
import Mathlib.Tactic

/-!
# Insertion-ordered finite maps

A finite map that remembers the order in which its keys were first inserted, as the JavaScript
`Map` does: overwriting a present key keeps its position, deleting a key forgets it, and inserting
it again puts it last.

* `OrderedMap κ ν`: the entries in insertion order, no key twice;
* `get?`, `has`, `set`, `delete`, `keys`, `size` and the laws that relate them;
* `total f m`, the sum of a measure over the entries, and how `set` and `delete` change it.
-/

namespace DistributedCache

/-- A finite map listed in insertion order. -/
structure OrderedMap (κ ν : Type*) where
  entries : List (κ × ν)
  nodup : (entries.map Prod.fst).Nodup

namespace OrderedMap

variable {κ ν : Type*}

/-- The map without entries. -/
def empty : OrderedMap κ ν := ⟨[], List.nodup_nil⟩

/-- The keys in insertion order. -/
def keys (m : OrderedMap κ ν) : List κ := m.entries.map Prod.fst

/-- The number of entries. -/
def size (m : OrderedMap κ ν) : ℕ := m.entries.length

@[simp] theorem keys_empty : (empty : OrderedMap κ ν).keys = [] := rfl
@[simp] theorem size_empty : (empty : OrderedMap κ ν).size = 0 := rfl

theorem keys_nodup (m : OrderedMap κ ν) : m.keys.Nodup := m.nodup

@[simp] theorem length_keys (m : OrderedMap κ ν) : m.keys.length = m.size := by
  simp [keys, size]

@[ext] theorem ext {m m' : OrderedMap κ ν} (h : m.entries = m'.entries) : m = m' := by
  cases m; cases m'; cases h; rfl

variable [DecidableEq κ]

/-- The value stored under `k`. -/
def get? (m : OrderedMap κ ν) (k : κ) : Option ν :=
  (m.entries.find? fun e => e.1 = k).map Prod.snd

/-- Whether `k` is present. -/
def has (m : OrderedMap κ ν) (k : κ) : Bool := decide (k ∈ m.keys)

/-- Replace the value of a present key in place, or append a new entry. -/
def setEntries (l : List (κ × ν)) (k : κ) (v : ν) : List (κ × ν) :=
  if k ∈ l.map Prod.fst then l.map fun e => if e.1 = k then (k, v) else e
  else l ++ [(k, v)]

theorem map_fst_setEntries (l : List (κ × ν)) (k : κ) (v : ν) :
    (setEntries l k v).map Prod.fst =
      if k ∈ l.map Prod.fst then l.map Prod.fst else l.map Prod.fst ++ [k] := by
  unfold setEntries
  split_ifs with h
  · rw [List.map_map]
    apply List.map_congr_left
    intro e _
    by_cases he : e.1 = k <;> simp [he]
  · simp

/-- Insert or overwrite. -/
def set (m : OrderedMap κ ν) (k : κ) (v : ν) : OrderedMap κ ν where
  entries := setEntries m.entries k v
  nodup := by
    rw [map_fst_setEntries]
    split_ifs with h
    · exact m.nodup
    · exact List.nodup_append.2 ⟨m.nodup, List.nodup_singleton k,
        fun a ha b hb => by rw [List.mem_singleton.1 hb]; rintro rfl; exact h ha⟩

/-- Remove `k` if it is present. -/
def delete (m : OrderedMap κ ν) (k : κ) : OrderedMap κ ν where
  entries := m.entries.filter fun e => e.1 ≠ k
  nodup := m.nodup.sublist (List.filter_sublist.map Prod.fst)

variable {m : OrderedMap κ ν} {k j : κ} {v w : ν}

/-! ### Looking up -/

omit [DecidableEq κ] in
theorem mem_keys_of_mem (h : (k, v) ∈ m.entries) : k ∈ m.keys :=
  List.mem_map.2 ⟨_, h, rfl⟩

theorem get?_eq_some_iff : m.get? k = some v ↔ (k, v) ∈ m.entries := by
  constructor
  · intro h
    obtain ⟨⟨k', v'⟩, hf, rfl⟩ := Option.map_eq_some_iff.1 h
    obtain rfl : k' = k := by simpa using List.find?_some hf
    exact List.mem_of_find?_eq_some hf
  · intro h
    cases hf : m.entries.find? fun e => e.1 = k with
    | none => exact absurd (List.find?_eq_none.1 hf _ h) (by simp)
    | some e =>
      have hk : e.1 = k := by simpa using List.find?_some hf
      have he := List.inj_on_of_nodup_map m.nodup (List.mem_of_find?_eq_some hf) h hk
      simp [get?, hf, he]

theorem get?_eq_none_iff : m.get? k = none ↔ k ∉ m.keys := by
  constructor
  · intro h hk
    obtain ⟨⟨k', v⟩, he, rfl⟩ := List.mem_map.1 hk
    rw [get?_eq_some_iff.2 he] at h
    cases h
  · intro h
    cases hg : m.get? k with
    | none => rfl
    | some v => exact absurd (mem_keys_of_mem (get?_eq_some_iff.1 hg)) h

theorem mem_keys_iff : k ∈ m.keys ↔ ∃ v, m.get? k = some v := by
  rw [← Option.isSome_iff_exists, ← Option.ne_none_iff_isSome, Ne, get?_eq_none_iff, not_not]

theorem mem_keys_of_get? (h : m.get? k = some v) : k ∈ m.keys := mem_keys_iff.2 ⟨v, h⟩

@[simp] theorem get?_empty : (empty : OrderedMap κ ν).get? k = none := rfl

/-! ### Setting -/

theorem keys_set_of_mem (h : k ∈ m.keys) : (m.set k v).keys = m.keys := by
  simp only [keys, set, map_fst_setEntries]
  exact if_pos h

theorem keys_set_of_notMem (h : k ∉ m.keys) : (m.set k v).keys = m.keys ++ [k] := by
  simp only [keys, set, map_fst_setEntries]
  exact if_neg h

@[simp] theorem mem_keys_set : j ∈ (m.set k v).keys ↔ j = k ∨ j ∈ m.keys := by
  by_cases h : k ∈ m.keys
  · rw [keys_set_of_mem h]
    exact ⟨Or.inr, fun hj => hj.elim (fun e => e ▸ h) id⟩
  · rw [keys_set_of_notMem h, List.mem_append, List.mem_singleton, or_comm]

theorem mem_entries_set : (j, w) ∈ (m.set k v).entries ↔
    (j = k ∧ w = v) ∨ (j ≠ k ∧ (j, w) ∈ m.entries) := by
  simp only [set, setEntries]
  split_ifs with h
  · obtain ⟨e, he, hek⟩ := List.mem_map.1 h
    simp only [List.mem_map]
    constructor
    · rintro ⟨⟨a, b⟩, hab, hif⟩
      by_cases ha : a = k
      · simp only [ha, if_true, Prod.mk.injEq] at hif
        exact Or.inl ⟨hif.1.symm, hif.2.symm⟩
      · simp only [if_neg ha, Prod.mk.injEq] at hif
        obtain ⟨rfl, rfl⟩ := hif
        exact Or.inr ⟨ha, hab⟩
    · rintro (⟨rfl, rfl⟩ | ⟨hj, hjw⟩)
      · exact ⟨e, he, if_pos hek⟩
      · exact ⟨(j, w), hjw, if_neg hj⟩
  · simp only [List.mem_append, List.mem_singleton, Prod.mk.injEq]
    constructor
    · rintro (hjw | hjw)
      · exact Or.inr ⟨fun e => h (e ▸ mem_keys_of_mem hjw), hjw⟩
      · exact Or.inl hjw
    · rintro (hjw | hjw)
      · exact Or.inr hjw
      · exact Or.inl hjw.2

@[simp] theorem get?_set_self : (m.set k v).get? k = some v :=
  get?_eq_some_iff.2 (mem_entries_set.2 (Or.inl ⟨rfl, rfl⟩))

theorem get?_set_of_ne (h : j ≠ k) : (m.set k v).get? j = m.get? j := by
  ext w
  simp only [get?_eq_some_iff, mem_entries_set, h, false_and, false_or, ne_eq, not_false_eq_true,
    true_and]

theorem get?_set : (m.set k v).get? j = if j = k then some v else m.get? j := by
  split_ifs with h
  · rw [h, get?_set_self]
  · exact get?_set_of_ne h

theorem size_set : (m.set k v).size = if k ∈ m.keys then m.size else m.size + 1 := by
  rw [← length_keys]
  split_ifs with h
  · rw [keys_set_of_mem h, length_keys]
  · simp [keys_set_of_notMem h]

/-! ### Deleting -/

theorem keys_delete : (m.delete k).keys = m.keys.erase k := by
  rw [m.keys_nodup.erase_eq_filter]
  simp only [keys, delete, List.filter_map]
  congr 1
  apply List.filter_congr
  intro e _
  by_cases h : e.1 = k <;> simp [h]

@[simp] theorem mem_keys_delete : j ∈ (m.delete k).keys ↔ j ≠ k ∧ j ∈ m.keys := by
  rw [keys_delete, m.keys_nodup.mem_erase_iff]

@[simp] theorem get?_delete_self : (m.delete k).get? k = none :=
  get?_eq_none_iff.2 (by simp)

theorem get?_delete_of_ne (h : j ≠ k) : (m.delete k).get? j = m.get? j := by
  ext w
  simp [get?_eq_some_iff, delete, h]

theorem get?_delete : (m.delete k).get? j = if j = k then none else m.get? j := by
  split_ifs with h
  · rw [h, get?_delete_self]
  · exact get?_delete_of_ne h

theorem size_delete_of_mem (h : k ∈ m.keys) : (m.delete k).size + 1 = m.size := by
  rw [← length_keys, ← length_keys, keys_delete, List.length_erase_of_mem h]
  have := List.length_pos_of_mem h
  omega

/-! ### Measures -/

/-- The sum of a measure over the entries. -/
def total (f : κ → ν → ℤ) (m : OrderedMap κ ν) : ℤ := (m.entries.map fun e => f e.1 e.2).sum

variable {f : κ → ν → ℤ}

omit [DecidableEq κ] in
@[simp] theorem total_empty : (empty : OrderedMap κ ν).total f = 0 := rfl

/-- Filtering out an absent key changes nothing. -/
theorem filter_ne_of_notMem {l : List (κ × ν)} (h : k ∉ l.map Prod.fst) :
    (l.filter fun e => e.1 ≠ k) = l :=
  List.filter_eq_self.2 fun e he => by
    simpa using fun hek : e.1 = k => h (hek ▸ List.mem_map.2 ⟨e, he, rfl⟩)

theorem delete_of_notMem (h : k ∉ m.keys) : m.delete k = m :=
  OrderedMap.ext (filter_ne_of_notMem h)

private theorem sum_filter_ne (l : List (κ × ν)) (hl : (l.map Prod.fst).Nodup)
    (h : (k, v) ∈ l) :
    ((l.filter fun e => e.1 ≠ k).map fun e => f e.1 e.2).sum =
      (l.map fun e => f e.1 e.2).sum - f k v := by
  induction l with
  | nil => cases h
  | cons e l ih =>
    obtain ⟨a, b⟩ := e
    rw [List.map_cons, List.nodup_cons] at hl
    by_cases ha : a = k
    · subst ha
      have hb : b = v := by
        rcases List.mem_cons.1 h with hab | hm
        · exact (Prod.mk.inj hab).2.symm
        · exact absurd (List.mem_map.2 ⟨_, hm, rfl⟩) hl.1
      rw [List.filter_cons_of_neg (by simp), filter_ne_of_notMem hl.1, hb]
      simp
    · have hm : (k, v) ∈ l := by
        rcases List.mem_cons.1 h with hab | hm
        · exact absurd (Prod.mk.inj hab).1.symm ha
        · exact hm
      rw [List.filter_cons_of_pos (by simpa using ha), List.map_cons, List.map_cons,
        List.sum_cons, List.sum_cons, ih hl.2 hm]
      ring

theorem total_delete (h : m.get? k = some v) : (m.delete k).total f = m.total f - f k v :=
  sum_filter_ne m.entries m.nodup (get?_eq_some_iff.1 h)

private theorem sum_setEntries (l : List (κ × ν)) (hl : (l.map Prod.fst).Nodup) (k : κ) (v : ν) :
    ((setEntries l k v).map fun e => f e.1 e.2).sum =
      ((l.filter fun e => e.1 ≠ k).map fun e => f e.1 e.2).sum + f k v := by
  unfold setEntries
  split_ifs with h
  · induction l with
    | nil => cases h
    | cons e l ih =>
      obtain ⟨a, b⟩ := e
      rw [List.map_cons, List.nodup_cons] at hl
      by_cases ha : a = k
      · subst ha
        have hsame : (l.map fun e => if e.1 = a then (a, v) else e) = l := by
          conv_rhs => rw [← List.map_id l]
          refine List.map_congr_left fun e he => if_neg ?_
          rintro rfl
          exact hl.1 (List.mem_map.2 ⟨e, he, rfl⟩)
        rw [List.filter_cons_of_neg (by simp), filter_ne_of_notMem hl.1, List.map_cons, hsame]
        simp [add_comm]
      · have hk : k ∈ l.map Prod.fst := by
          rcases List.mem_cons.1 h with hka | hk
          · exact absurd hka.symm ha
          · exact hk
        rw [List.filter_cons_of_pos (by simpa using ha), List.map_cons, if_neg ha, List.map_cons,
          List.map_cons, List.sum_cons, List.sum_cons, ih hl.2 hk]
        ring
  · rw [filter_ne_of_notMem h]
    simp

/-- Setting a key replaces its share of the total. -/
theorem total_set : (m.set k v).total f = (m.delete k).total f + f k v :=
  sum_setEntries m.entries m.nodup k v

/-- The total, taken along the keys. -/
theorem total_eq_sum_keys (f : κ → ν → ℤ) (m : OrderedMap κ ν) :
    m.total f = (m.keys.map fun k => ((m.get? k).map (f k)).getD 0).sum := by
  unfold total keys
  rw [List.map_map]
  congr 1
  apply List.map_congr_left
  rintro ⟨k, v⟩ he
  simp [get?_eq_some_iff.2 he]

/-! ### Deleting several keys -/

/-- The map without the keys of `ks`. -/
def without (m : OrderedMap κ ν) (ks : List κ) : OrderedMap κ ν where
  entries := m.entries.filter fun e => e.1 ∉ ks
  nodup := m.nodup.sublist (List.filter_sublist.map Prod.fst)

@[simp] theorem without_nil : m.without [] = m :=
  OrderedMap.ext (by simp [without])

theorem without_singleton : m.without [k] = m.delete k := by
  apply OrderedMap.ext
  simp only [without, delete, List.mem_singleton]

/-- Filtering out `ks` and then `js` is filtering out `js ++ ks`. -/
theorem filter_notMem_filter (l js ks : List κ) :
    (l.filter (· ∉ ks)).filter (· ∉ js) = l.filter (· ∉ js ++ ks) := by
  rw [List.filter_filter]
  apply List.filter_congr
  intro a _
  by_cases h : a ∈ js <;> simp [h]

theorem without_without (js ks : List κ) : (m.without ks).without js = m.without (js ++ ks) := by
  apply OrderedMap.ext
  simp only [without, List.filter_filter]
  apply List.filter_congr
  intro e _
  by_cases h : e.1 ∈ js <;> simp [h]

/-- Only which keys are taken out matters. -/
theorem without_congr {ks js : List κ} (h : ∀ j, j ∈ ks ↔ j ∈ js) : m.without ks = m.without js := by
  apply OrderedMap.ext
  refine List.filter_congr fun e _ => ?_
  simp only [h]

theorem get?_without (ks : List κ) :
    (m.without ks).get? j = if j ∈ ks then none else m.get? j := by
  ext w
  split_ifs with h <;> simp [get?_eq_some_iff, without, h]

theorem keys_without (ks : List κ) : (m.without ks).keys = m.keys.filter (· ∉ ks) := by
  simp only [keys, without, List.filter_map]
  rfl

end OrderedMap

end DistributedCache
