import Mathlib.Data.List.Nodup
import Mathlib.Tactic

/-!
# The recency order

`packages/cache-core/src/lru-list.js` as the store sees it: the keys from most to least recently
used, no key twice. The head of the list is the most recently used key, its last element the least
recently used one.
-/

namespace DistributedCache

/-- The keys in recency order, most recently used first. -/
structure LruList (κ : Type*) where
  order : List κ
  nodup : order.Nodup

namespace LruList

variable {κ : Type*}

/-- A new list. -/
def empty : LruList κ := ⟨[], List.nodup_nil⟩

/-- `size`. -/
def size (l : LruList κ) : ℕ := l.order.length

/-- `peekLru`: the least recently used key. -/
def peekLru (l : LruList κ) : Option κ := l.order.getLast?

/-- `peekMru`: the most recently used key. -/
def peekMru (l : LruList κ) : Option κ := l.order.head?

@[ext] theorem ext {l l' : LruList κ} (h : l.order = l'.order) : l = l' := by
  cases l; cases l'; cases h; rfl

variable [DecidableEq κ]

/-- `has`. -/
def has (l : LruList κ) (key : κ) : Bool := decide (key ∈ l.order)

/-- `add`: insert `key` as the most recently used one, or move it there. -/
def add (l : LruList κ) (key : κ) : LruList κ where
  order := key :: l.order.erase key
  nodup := List.nodup_cons.2 ⟨l.nodup.not_mem_erase, l.nodup.erase key⟩

/-- `touch`: mark `key` as most recently used; nothing happens if it is missing. -/
def touch (l : LruList κ) (key : κ) : LruList κ := if key ∈ l.order then l.add key else l

/-- `remove`: take `key` out, and report whether it was there. -/
def remove (l : LruList κ) (key : κ) : Bool × LruList κ :=
  (decide (key ∈ l.order), ⟨l.order.erase key, l.nodup.erase key⟩)

/-- `evictLru`: take out the least recently used key. -/
def evictLru (l : LruList κ) : Option κ × LruList κ :=
  match l.peekLru with
  | none => (none, l)
  | some key => (some key, (l.remove key).2)

variable {l : LruList κ} {key : κ}

omit [DecidableEq κ] in
@[simp] theorem order_empty : (empty : LruList κ).order = [] := rfl

@[simp] theorem order_add : (l.add key).order = key :: l.order.erase key := rfl

@[simp] theorem order_remove : (l.remove key).2.order = l.order.erase key := rfl

theorem order_touch_of_mem (h : key ∈ l.order) :
    (l.touch key).order = key :: l.order.erase key := by
  rw [touch, if_pos h, order_add]

theorem order_touch_of_notMem (h : key ∉ l.order) : (l.touch key).order = l.order := by
  rw [touch, if_neg h]

/-- Moving a key to the front changes the order of no other two keys. -/
theorem erase_order_add : (l.add key).order.erase key = l.order.erase key := by
  rw [order_add, List.erase_cons_head]

theorem erase_order_touch : (l.touch key).order.erase key = l.order.erase key := by
  unfold touch
  split_ifs
  · exact erase_order_add
  · rfl

theorem order_touch_perm : (l.touch key).order.Perm l.order := by
  by_cases h : key ∈ l.order
  · rw [order_touch_of_mem h]
    exact (List.perm_cons_erase h).symm
  · rw [order_touch_of_notMem h]

end LruList

end DistributedCache
