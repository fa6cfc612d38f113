import DistributedCache.CacheCore.Store

/-!
# What removing a key does to the store

The map, the recency list and the byte total agree (`Sync`), and every removal keeps them so.
`Trimmed s victims s'` says that `s'` is `s` after the removal of `victims`, whatever counters were
bumped on the way; `getLiveEntry_cases` is all that a lookup with lazy purge can do.
-/

namespace DistributedCache
namespace CacheStore

/-- The size of an entry as a measure on the map. -/
def sizeMeasure (_ : JsString) (e : CacheEntry) : ℤ := e.sizeBytes

/-- The stored size of a key, `0` if it is absent. -/
def sizeOf (s : CacheStore) (key : JsString) : ℤ :=
  ((s.store.get? key).map fun e => (e.sizeBytes : ℤ)).getD 0

/-- The map, the recency list and the byte total tell the same story. -/
structure Sync (s : CacheStore) : Prop where
  perm : s.lru.order.Perm s.store.keys
  memory : s.memoryBytes = s.store.total sizeMeasure
  sizes : ∀ k e, s.store.get? k = some e → e.sizeBytes = entrySizeBytes k e.value

variable {s s' t : CacheStore} {key : JsString}

theorem Sync.mem_order_iff (h : Sync s) : key ∈ s.lru.order ↔ key ∈ s.store.keys :=
  h.perm.mem_iff

theorem Sync.length_order (h : Sync s) : s.lru.order.length = s.store.size := by
  rw [h.perm.length_eq, OrderedMap.length_keys]

/-- Without a stored key, the recency list leaves room for one more entry. -/
theorem Sync.length_erase_le {n : ℕ} (h : Sync s) (hk : s.store.get? key ≠ none)
    (hn : s.store.size ≤ n) : (s.lru.order.erase key).length + 1 ≤ n := by
  have hmem : key ∈ s.lru.order := by
    rw [h.mem_order_iff]
    by_contra hnot
    exact hk (OrderedMap.get?_eq_none_iff.2 hnot)
  have hlen := h.length_order
  have hpos := List.length_pos_of_mem hmem
  rw [List.length_erase_of_mem hmem]
  omega

/-- The byte total is the sum of the stored sizes along the recency list. -/
theorem Sync.memory_eq_sum (h : Sync s) : s.memoryBytes = (s.lru.order.map s.sizeOf).sum := by
  rw [h.memory, OrderedMap.total_eq_sum_keys]
  exact ((h.perm.map s.sizeOf).sum_eq).symm

theorem sync_new (maxEntries maxMemoryBytes : Option ℕ+) : Sync (new maxEntries maxMemoryBytes) where
  perm := List.Perm.refl _
  memory := rfl
  sizes := by intro k e h; simp [new] at h

/-- `Sync` reads only the map, the recency list and the byte total. -/
theorem Sync.congr (h : Sync s) (hstore : s'.store = s.store) (hlru : s'.lru.order.Perm s.lru.order)
    (hmem : s'.memoryBytes = s.memoryBytes) : Sync s' where
  perm := by rw [hstore]; exact hlru.trans h.perm
  memory := by rw [hmem, hstore, h.memory]
  sizes := by rw [hstore]; exact h.sizes

/-! ### One removal -/

theorem removeStoredKey_of_none (h : s.store.get? key = none) (reason : RemoveReason) :
    s.removeStoredKey key reason = (false, s) := by
  unfold removeStoredKey; rw [h]

section Found

variable {e : CacheEntry} (h : s.store.get? key = some e) (reason : RemoveReason)
include h

theorem removeStoredKey_fst : (s.removeStoredKey key reason).1 = true := by
  unfold removeStoredKey; rw [h]

theorem removeStoredKey_store :
    (s.removeStoredKey key reason).2.store = s.store.delete key := by
  unfold removeStoredKey; rw [h]

theorem removeStoredKey_order :
    (s.removeStoredKey key reason).2.lru.order = s.lru.order.erase key := by
  unfold removeStoredKey; simp only [h, LruList.order_remove]

theorem removeStoredKey_memory :
    (s.removeStoredKey key reason).2.memoryBytes = s.memoryBytes - e.sizeBytes := by
  unfold removeStoredKey; rw [h]

theorem sync_removeStoredKey (hs : Sync s) : Sync (s.removeStoredKey key reason).2 where
  perm := by
    rw [removeStoredKey_order h, removeStoredKey_store h, OrderedMap.keys_delete]
    exact hs.perm.erase key
  memory := by
    rw [removeStoredKey_memory h, removeStoredKey_store h, OrderedMap.total_delete h, hs.memory]
    rfl
  sizes := by
    rw [removeStoredKey_store h]
    intro k e' hk
    by_cases hkk : k = key
    · rw [hkk, OrderedMap.get?_delete_self] at hk; cases hk
    · rw [OrderedMap.get?_delete_of_ne hkk] at hk
      exact hs.sizes k e' hk

end Found

/-- What no removal and no write changes: the limits, the hit counters, the sweep cursor. -/
structure Frame (s s' : CacheStore) : Prop where
  maxEntries : s'.maxEntries = s.maxEntries
  maxMemoryBytes : s'.maxMemoryBytes = s.maxMemoryBytes
  hits : s'.hits = s.hits
  misses : s'.misses = s.misses
  sweepCursor : s'.sweepCursor = s.sweepCursor

theorem Frame.refl (s : CacheStore) : Frame s s := ⟨rfl, rfl, rfl, rfl, rfl⟩

theorem Frame.trans (h : Frame s s') (h' : Frame s' t) : Frame s t where
  maxEntries := h'.maxEntries.trans h.maxEntries
  maxMemoryBytes := h'.maxMemoryBytes.trans h.maxMemoryBytes
  hits := h'.hits.trans h.hits
  misses := h'.misses.trans h.misses
  sweepCursor := h'.sweepCursor.trans h.sweepCursor

theorem frame_removeStoredKey (s : CacheStore) (key : JsString) (reason : RemoveReason) :
    Frame s (s.removeStoredKey key reason).2 := by
  unfold removeStoredKey
  cases s.store.get? key <;> exact ⟨rfl, rfl, rfl, rfl, rfl⟩

/-! ### Several removals -/

/-- `s'` is `s` without the keys `victims`; expiration and eviction counters are left open. -/
structure Trimmed (s : CacheStore) (victims : List JsString) (s' : CacheStore) : Prop where
  store : s'.store = s.store.without victims
  order : s'.lru.order = s.lru.order.filter (· ∉ victims)
  sync : Sync s'
  frame : Frame s s'

theorem Trimmed.refl (h : Sync s) : Trimmed s [] s where
  store := OrderedMap.without_nil.symm
  order := by simp
  sync := h
  frame := Frame.refl s

theorem trimmed_removeStoredKey {e : CacheEntry} (hs : Sync s) (h : s.store.get? key = some e)
    (reason : RemoveReason) : Trimmed s [key] (s.removeStoredKey key reason).2 where
  store := by rw [removeStoredKey_store h, OrderedMap.without_singleton]
  order := by
    rw [removeStoredKey_order h, s.lru.nodup.erase_eq_filter]
    apply List.filter_congr
    intro k _
    by_cases hk : k = key <;> simp [hk]
  sync := sync_removeStoredKey h reason hs
  frame := frame_removeStoredKey s key reason

/-- Removing `ws` after `vs` is removing `ws ++ vs`. -/
theorem Trimmed.trans {vs ws : List JsString} (h : Trimmed s vs s') (h' : Trimmed s' ws t) :
    Trimmed s (ws ++ vs) t where
  store := by rw [h'.store, h.store, OrderedMap.without_without]
  order := by rw [h'.order, h.order, OrderedMap.filter_notMem_filter]
  sync := h'.sync
  frame := h.frame.trans h'.frame

theorem Trimmed.get? {vs : List JsString} (h : Trimmed s vs s') (k : JsString) :
    s'.store.get? k = if k ∈ vs then none else s.store.get? k := by
  rw [h.store, OrderedMap.get?_without]

/-- The stored sizes of the surviving keys are unchanged. -/
theorem Trimmed.sizeOf_eq {vs : List JsString} (h : Trimmed s vs s') {k : JsString} (hk : k ∉ vs) :
    s'.sizeOf k = s.sizeOf k := by
  rw [sizeOf, sizeOf, h.get?, if_neg hk]

/-- A trim leaves nothing behind of the recency order but a sublist. -/
theorem Trimmed.sublist {vs : List JsString} (h : Trimmed s vs s') :
    s'.lru.order.Sublist s.lru.order := by
  rw [h.order]
  exact List.filter_sublist

/-! ### The lookup with lazy purge -/

/-- Whether the entry under `key`, if any, is past its deadline at the reading `now`. -/
def Stale (s : CacheStore) (key : JsString) (now : ℤ) : Prop :=
  ∃ e d, s.store.get? key = some e ∧ e.expiresAt = some d ∧ d ≤ now

/-- All that a lookup can do: find a live entry, find nothing, or purge a stale copy. A reading of
the clock is consumed exactly when the entry has a deadline. -/
theorem getLiveEntry_cases (s : CacheStore) (c : Clock) (key : JsString) :
    (∃ e c', s.getLiveEntry c key = (some e, s, c') ∧ s.store.get? key = some e ∧
      (∀ d, e.expiresAt = some d → c.head < d) ∧ (e.expiresAt ≠ none → c' = c.tail)) ∨
    (s.getLiveEntry c key = (none, s, c) ∧ s.store.get? key = none) ∨
    (s.getLiveEntry c key = (none, (s.removeStoredKey key .expire).2, c.tail) ∧
      s.Stale key c.head) := by
  unfold getLiveEntry
  cases h : s.store.get? key with
  | none => exact Or.inr (Or.inl ⟨rfl, rfl⟩)
  | some e =>
    cases hd : e.expiresAt with
    | none =>
      refine Or.inl ⟨e, c, by simp only [hd], rfl, fun d h' => ?_, fun h' => absurd hd h'⟩
      rw [hd] at h'; cases h'
    | some d =>
      by_cases hlt : c.head ≥ d
      · exact Or.inr (Or.inr ⟨by simp only [hd, if_pos hlt], e, d, h, hd, hlt⟩)
      · refine Or.inl ⟨e, c.tail, by simp only [hd, if_neg hlt], rfl, fun d' h' => ?_,
          fun _ => rfl⟩
        rw [hd] at h'; cases h'
        exact not_le.1 hlt

/-- After a lookup the store is unchanged or has lost the key looked up. -/
theorem getLiveEntry_trimmed (hs : Sync s) (c : Clock) (key : JsString) :
    (s.getLiveEntry c key).2.1 = s ∨ Trimmed s [key] (s.getLiveEntry c key).2.1 := by
  rcases s.getLiveEntry_cases c key with ⟨e, c', h, -⟩ | ⟨h, -⟩ | ⟨h, e, d, he, -⟩
  · exact Or.inl (by rw [h])
  · exact Or.inl (by rw [h])
  · exact Or.inr (by rw [h]; exact trimmed_removeStoredKey hs he .expire)

/-- A lookup returns what the resulting store holds. -/
theorem getLiveEntry_get? (s : CacheStore) (c : Clock) (key : JsString) :
    (s.getLiveEntry c key).2.1.store.get? key = (s.getLiveEntry c key).1 := by
  rcases s.getLiveEntry_cases c key with ⟨e, c', h, he, -⟩ | ⟨h, he⟩ | ⟨h, e, d, he, -⟩
  · rw [h]; exact he
  · rw [h]; exact he
  · rw [h]
    show (s.removeStoredKey key .expire).2.store.get? key = none
    rw [removeStoredKey_store he, OrderedMap.get?_delete_self]

end CacheStore
end DistributedCache
