import DistributedCache.CacheCore.Invariant

/-!
# An unlimited store acts on one key at a time

Without limits nothing is ever evicted, so a call on a key depends on that key's entry alone and
changes no other. `entryStep` is a call seen from its key, and `exec_keyed` says that `exec` does
exactly that; the rest of the development reasons about unlimited stores through it. With limits
entries may go at any time, but none comes except the one that is set (`Effect.entries`).
-/

namespace DistributedCache

/-- The key an operation is about. -/
def Op.key : Op → Option JsString
  | .set key _ _ | .get key | .delete key | .existsKey key | .ttl key => some key
  | .purgeExpired _ => none

namespace CacheStore

/-- The entry under a key if it is live at the next reading. -/
def liveEntry (c : Clock) (entry : Option CacheEntry) : Option CacheEntry :=
  entry.filter fun e => match e.expiresAt with
    | none => true
    | some d => decide (c.head < d)

/-- An operation as its key sees it: the result, and the entry left under the key. -/
def entryStep (c : Clock) (entry : Option CacheEntry) : Op → Reply × Option CacheEntry
  | .set key value ex =>
      (.done, some ⟨value, ex.map (expiryOf c.head), entrySizeBytes key value⟩)
  | .get _ => (.value ((liveEntry c entry).map CacheEntry.value), liveEntry c entry)
  | .delete _ => (.flag (liveEntry c entry).isSome, none)
  | .existsKey _ => (.flag (liveEntry c entry).isSome, liveEntry c entry)
  | .ttl _ =>
      (.seconds (((liveEntry c entry).map fun e => remaining e c.tail.head).getD TTL_KEY_MISSING),
        liveEntry c entry)
  | .purgeExpired _ => (.purged 0, entry)

/-- A store without limits that satisfies its invariant. -/
structure Free (s : CacheStore) : Prop extends Inv s where
  noEntryLimit : s.maxEntries = none
  noMemoryLimit : s.maxMemoryBytes = none

variable {s s' : CacheStore} {c : Clock} {key : JsString}

theorem free_new : Free (new none none) where
  toInv := inv_new none none
  noEntryLimit := rfl
  noMemoryLimit := rfl

theorem LiveAt.liveEntry {e : CacheEntry} (h : LiveAt s c key e) :
    liveEntry c (s.store.get? key) = some e := by
  rw [CacheStore.liveEntry, h.1, Option.filter_some, if_pos]
  cases hd : e.expiresAt with
  | none => rfl
  | some d => exact decide_eq_true (h.2 d hd)

/-- A missing entry is gone afterwards, and no other has changed. -/
theorem MissingAt.get? (h : MissingAt s c key s') :
    liveEntry c (s.store.get? key) = none ∧
      ∀ k, s'.store.get? k = if k = key then none else s.store.get? k := by
  rcases h with ⟨rfl, hnone⟩ | ⟨rfl, e, d, he, hd, hle⟩
  · refine ⟨by rw [hnone]; rfl, fun k => ?_⟩
    split_ifs with hk
    · rw [hk, hnone]
    · rfl
  · refine ⟨?_, fun k => by rw [removeStoredKey_store he, OrderedMap.get?_delete]⟩
    rw [CacheStore.liveEntry, he, Option.filter_some, if_neg]
    simp only [hd, decide_eq_true_eq, not_lt]
    exact hle

/-! ### With limits -/

/-- What a store holds after an operation it held before, or it has just been set. -/
theorem Effect.entries {op : Op} {r : Except CacheError Reply} (h : Effect s c op r s')
    {k : JsString} {e : CacheEntry} (he : s'.store.get? k = some e) :
    s.store.get? k = some e ∨ ∃ value ex, op = .set k value ex ∧ e.value = value := by
  have missing {key : JsString} {t : CacheStore} (h : MissingAt s c key t)
      (he : t.store.get? k = some e) : s.store.get? k = some e := by
    rw [h.get?.2 k] at he
    split_ifs at he
    exact he
  cases h with
  | tooLarge _ => exact Or.inl he
  | stored _ h =>
    rw [h.get? k] at he
    split_ifs at he with hk
    · cases he
      exact Or.inr ⟨_, _, by rw [hk], rfl⟩
    · exact Or.inl he
  | hit _ => exact Or.inl he
  | miss h => exact Or.inl (missing h he)
  | deleted h =>
    rw [removeStoredKey_store h.1, OrderedMap.get?_delete] at he
    split_ifs at he
    exact Or.inl he
  | nothingToDelete h => exact Or.inl (missing h he)
  | found _ => exact Or.inl he
  | notFound h => exact Or.inl (missing h he)
  | timed _ => exact Or.inl he
  | notTimed h => exact Or.inl (missing h he)
  | swept h _ =>
    have he : _ = some e := (h.get? k).symm.trans he
    split_ifs at he
    exact Or.inl he

theorem exec_entries {call : Call} {r : Except CacheError Reply} {c' : Clock} (hs : Inv s)
    (h : s.exec c call = some (r, s', c')) {k : JsString} {e : CacheEntry}
    (he : s'.store.get? k = some e) :
    s.store.get? k = some e ∨ ∃ value ex, call.check = .ok (.set k value ex) ∧ e.value = value := by
  rcases exec_cases hs h with ⟨_, -, -, rfl⟩ | ⟨op, hcheck, heff⟩
  · exact Or.inl he
  · rcases heff.entries he with hold | ⟨value, ex, rfl, hvalue⟩
    · exact Or.inl hold
    · exact Or.inr ⟨value, ex, hcheck, hvalue⟩

/-! ### Without limits -/

/-- An unlimited store evicts nothing. -/
theorem Stored.victims_nil {value : JsString} {expiresAt : Option Deadline}
    {kept victims : List JsString} (hs : Free s) (h : Stored s key value expiresAt kept victims s') : victims = [] := by
  have hfits : Fits s (entrySizeBytes key value) (s.lru.order.erase key) :=
    ⟨fun n hn => (by rw [hs.noEntryLimit] at hn; cases hn),
      fun n hn => (by rw [hs.noMemoryLimit] at hn; cases hn)⟩
  have hlen := h.cut.shortest _ [] (List.append_nil _).symm hfits
  exact List.length_eq_zero_iff.1 (Nat.le_zero.1 hlen)

/-- An unlimited store keeps every other entry when it stores one. -/
theorem Stored.get?_free {value : JsString} {expiresAt : Option Deadline}
    {kept victims : List JsString} (hs : Free s) (h : Stored s key value expiresAt kept victims s') (k : JsString) :
    s'.store.get? k = if k = key then some ⟨value, expiresAt, entrySizeBytes key value⟩
      else s.store.get? k := by
  obtain rfl := h.victims_nil hs
  rw [h.get?, if_neg (List.not_mem_nil (a := k))]

/-- What an effect does to an unlimited store, entry by entry. -/
theorem Effect.entryStep {op : Op} {r : Except CacheError Reply} (hs : Free s)
    (h : Effect s c op r s') (hkey : op.key = some key) :
    r = .ok (entryStep c (s.store.get? key) op).1 ∧
      ∀ k, s'.store.get? k =
        if k = key then (CacheStore.entryStep c (s.store.get? key) op).2 else s.store.get? k := by
  have same (k : JsString) (e : CacheEntry) (h : s.store.get? key = some e) :
      s.store.get? k = if k = key then some e else s.store.get? k := by
    split_ifs with hk
    · rw [hk, h]
    · rfl
  cases h with
  | tooLarge hlarge => simp [entryTooLarge, hs.noMemoryLimit] at hlarge
  | stored _ h =>
    cases hkey
    exact ⟨rfl, h.get?_free hs⟩
  | hit h =>
    cases hkey
    simp only [CacheStore.entryStep, h.liveEntry, Option.map_some, true_and]
    exact fun k => same k _ h.1
  | miss h =>
    cases hkey
    simp only [CacheStore.entryStep, h.get?.1, Option.map_none, true_and]
    exact h.get?.2
  | deleted h =>
    cases hkey
    simp only [CacheStore.entryStep, h.liveEntry, Option.isSome_some, true_and]
    exact fun k => by rw [removeStoredKey_store h.1, OrderedMap.get?_delete]
  | nothingToDelete h =>
    cases hkey
    simp only [CacheStore.entryStep, h.get?.1, Option.isSome_none, true_and]
    exact h.get?.2
  | found h =>
    cases hkey
    simp only [CacheStore.entryStep, h.liveEntry, Option.isSome_some, true_and]
    exact fun k => same k _ h.1
  | notFound h =>
    cases hkey
    simp only [CacheStore.entryStep, h.get?.1, Option.isSome_none, true_and]
    exact h.get?.2
  | timed h =>
    cases hkey
    simp only [CacheStore.entryStep, h.liveEntry, Option.map_some, Option.getD_some, true_and]
    exact fun k => same k _ h.1
  | notTimed h =>
    cases hkey
    simp only [CacheStore.entryStep, h.get?.1, Option.map_none, Option.getD_none, true_and]
    exact h.get?.2
  | swept _ _ => cases hkey

theorem exec_free {call : Call} {r : Except CacheError Reply} {c' : Clock} (hs : Free s)
    (h : s.exec c call = some (r, s', c')) : Free s' where
  toInv := exec_inv hs.toInv h
  noEntryLimit := (exec_limits hs.toInv h).entries.trans hs.noEntryLimit
  noMemoryLimit := (exec_limits hs.toInv h).bytes.trans hs.noMemoryLimit

/-- **A call on an unlimited store is a step of its key's entry**, and leaves every other alone. -/
theorem exec_keyed {call : Call} {op : Op} (hs : Free s) (c : Clock) (hcheck : call.check = .ok op)
    (hkey : op.key = some key) :
    ∃ s' c', s.exec c call = some (.ok (entryStep c (s.store.get? key) op).1, s', c') ∧ Free s' ∧
      ∀ k, s'.store.get? k =
        if k = key then (entryStep c (s.store.get? key) op).2 else s.store.get? k := by
  obtain ⟨r, s', c', hexec, heff⟩ := exec_of_check_ok (c := c) hs.toSync hs.entries hcheck
  obtain ⟨rfl, hget⟩ := heff.entryStep hs hkey
  exact ⟨s', c', hexec, exec_free hs hexec, hget⟩

end CacheStore
end DistributedCache
