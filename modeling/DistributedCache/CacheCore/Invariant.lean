import DistributedCache.Lib.System
import DistributedCache.CacheCore.Effect

/-!
# The representation invariant

`Inv` adds the two limits to the agreement of map, recency list and byte total. Every effect of a
call keeps it (`Effect.inv`), so it holds throughout every run, whatever the clock reads and however
many calls throw.

* `CallEvent`, `system`: the store as a transition system, one step for each call, with arbitrary
  clock readings;
* `run`: a sequence of calls on one clock;
* `exec_returns`, `run_inv`: every call returns, and every state reached satisfies `Inv`.
-/

namespace DistributedCache
namespace CacheStore

/-- The representation invariant of a store. -/
structure Inv (s : CacheStore) : Prop extends Sync s where
  entries : ∀ n, s.maxEntries = some n → s.store.size ≤ (n : ℕ)
  bytes : ∀ n, s.maxMemoryBytes = some n → s.memoryBytes ≤ (n : ℕ)

variable {s s' : CacheStore} {c : Clock} {key value : JsString} {victims : List JsString}
  {maxEntries maxMemoryBytes : Option ℕ+}

theorem inv_new (maxEntries maxMemoryBytes : Option ℕ+) : Inv (new maxEntries maxMemoryBytes) where
  toSync := sync_new maxEntries maxMemoryBytes
  entries := fun n _ => Nat.zero_le n
  bytes := fun n _ => Int.natCast_nonneg n

/-- The limits accepted by the constructor are exactly those of `new`. -/
theorem construct_eq_ok {v w : JsValue} (h : construct v w = .ok s) :
    ∃ maxEntries maxMemoryBytes, s = new maxEntries maxMemoryBytes := by
  unfold construct at h
  cases hv : positiveLimit (js "maxEntries") v with
  | error e => rw [hv] at h; cases h
  | ok maxEntries =>
    cases hw : positiveLimit (js "maxMemoryBytes") w with
    | error e => rw [hv, hw] at h; cases h
    | ok maxMemoryBytes =>
      rw [hv, hw] at h
      cases h
      exact ⟨maxEntries, maxMemoryBytes, rfl⟩

/-- `Inv` does not read the counters, and reads the recency list up to order. -/
theorem Inv.congr (h : Inv s) (hstore : s'.store = s.store)
    (hlru : s'.lru.order.Perm s.lru.order) (hmem : s'.memoryBytes = s.memoryBytes)
    (hentries : s'.maxEntries = s.maxEntries) (hbytes : s'.maxMemoryBytes = s.maxMemoryBytes) :
    Inv s' where
  toSync := h.toSync.congr hstore hlru hmem
  entries := by rw [hentries, hstore]; exact h.entries
  bytes := by rw [hbytes, hmem]; exact h.bytes

theorem sizeOf_nonneg (s : CacheStore) (k : JsString) : 0 ≤ s.sizeOf k := by
  unfold sizeOf
  cases s.store.get? k with
  | none => exact le_refl 0
  | some e => exact Int.natCast_nonneg e.sizeBytes

/-- Removing keys lowers the byte total. -/
theorem Trimmed.memory_le (hs : Sync s) (h : Trimmed s victims s') :
    s'.memoryBytes ≤ s.memoryBytes := by
  have hsize : s'.lru.order.map s'.sizeOf = s'.lru.order.map s.sizeOf := by
    refine List.map_congr_left fun k hk => h.sizeOf_eq ?_
    rw [h.order, List.mem_filter] at hk
    simpa using hk.2
  rw [h.sync.memory_eq_sum, hs.memory_eq_sum, hsize]
  refine (h.sublist.map s.sizeOf).sum_le_sum fun x hx => ?_
  obtain ⟨k, -, rfl⟩ := List.mem_map.1 hx
  exact s.sizeOf_nonneg k

theorem Trimmed.inv (hs : Inv s) (h : Trimmed s victims s') : Inv s' where
  toSync := h.sync
  entries := by
    intro n hn
    rw [h.frame.maxEntries] at hn
    have hlen := h.sublist.length_le
    rw [h.sync.length_order, hs.toSync.length_order] at hlen
    exact hlen.trans (hs.entries n hn)
  bytes := by
    intro n hn
    rw [h.frame.maxMemoryBytes] at hn
    exact (h.memory_le hs.toSync).trans (hs.bytes n hn)

theorem MissingAt.inv (hs : Inv s) (h : MissingAt s c key s') : Inv s' := by
  rcases h with ⟨rfl, -⟩ | ⟨rfl, e, d, he, -⟩
  · exact hs
  · exact (trimmed_removeStoredKey hs.toSync he .expire).inv hs

/-- The victims of a `set` make room for both limits. -/
theorem Stored.inv {expiresAt : Option Deadline} {kept : List JsString}
    (h : Stored s key value expiresAt kept victims s') : Inv s' where
  toSync := h.sync
  entries := by
    intro n hn
    rw [h.frame.maxEntries] at hn
    have hfit := h.cut.fitting.1 n hn
    rw [← h.sync.length_order, h.order, List.length_cons]
    exact hfit
  bytes := by
    intro n hn
    rw [h.frame.maxMemoryBytes] at hn
    have hfit := h.cut.fitting.2 n hn
    have hnd : (kept ++ victims).Nodup := h.cut.split ▸ s.lru.nodup.erase key
    have hkey : key ∉ kept ++ victims := h.cut.split ▸ s.lru.nodup.not_mem_erase
    have hsize : kept.map s'.sizeOf = kept.map s.sizeOf := by
      refine List.map_congr_left fun k hk => ?_
      have hne : k ≠ key := fun e => hkey (e ▸ List.mem_append_left _ hk)
      have hv : k ∉ victims := fun hv => (List.nodup_append.1 hnd).2.2 k hk k hv rfl
      rw [sizeOf, sizeOf, h.get?, if_neg hne, if_neg hv]
    have hself : s'.sizeOf key = entrySizeBytes key value := by
      rw [sizeOf, h.get?, if_pos rfl]
      rfl
    rw [h.sync.memory_eq_sum, h.order, List.map_cons, List.sum_cons, hself, hsize]
    omega

/-- **Every operation keeps the representation invariant.** -/
theorem Effect.inv {op : Op} {r : Except CacheError Reply} (hs : Inv s) (h : Effect s c op r s') :
    Inv s' := by
  cases h with
  | tooLarge _ => exact hs
  | stored _ h => exact h.inv
  | hit _ => exact hs.congr rfl LruList.order_touch_perm rfl rfl rfl
  | miss h => exact (h.inv hs).congr rfl (List.Perm.refl _) rfl rfl rfl
  | deleted h => exact (trimmed_removeStoredKey hs.toSync h.1 .delete).inv hs
  | nothingToDelete h => exact h.inv hs
  | found _ => exact hs
  | notFound h => exact h.inv hs
  | timed _ => exact hs
  | notTimed h => exact h.inv hs
  | swept h _ => exact (h.inv hs).congr rfl (List.Perm.refl _) rfl rfl rfl

/-- The limits of a store never change. -/
structure SameLimits (s s' : CacheStore) : Prop where
  entries : s'.maxEntries = s.maxEntries
  bytes : s'.maxMemoryBytes = s.maxMemoryBytes

theorem SameLimits.refl (s : CacheStore) : SameLimits s s := ⟨rfl, rfl⟩

theorem SameLimits.trans {t : CacheStore} (h : SameLimits s s') (h' : SameLimits s' t) :
    SameLimits s t :=
  ⟨h'.entries.trans h.entries, h'.bytes.trans h.bytes⟩

theorem Frame.limits (h : Frame s s') : SameLimits s s' := ⟨h.maxEntries, h.maxMemoryBytes⟩

theorem MissingAt.limits (h : MissingAt s c key s') : SameLimits s s' := by
  rcases h with ⟨rfl, -⟩ | ⟨rfl, -⟩
  · exact .refl _
  · exact (frame_removeStoredKey s key .expire).limits

theorem Effect.limits {op : Op} {r : Except CacheError Reply} (h : Effect s c op r s') :
    SameLimits s s' := by
  cases h with
  | tooLarge _ => exact .refl s
  | stored _ h => exact h.frame.limits
  | hit _ => exact ⟨rfl, rfl⟩
  | miss h => exact h.limits.trans ⟨rfl, rfl⟩
  | deleted _ => exact (frame_removeStoredKey s _ .delete).limits
  | nothingToDelete h => exact h.limits
  | found _ => exact .refl s
  | notFound h => exact h.limits
  | timed _ => exact .refl s
  | notTimed h => exact h.limits
  | swept h _ => exact h.frame.limits.trans ⟨rfl, rfl⟩

/-! ### Runs -/

/-- Every call returns, by rejecting its arguments or with one of the listed effects. -/
theorem exec_returns (hs : Inv s) (c : Clock) (call : Call) :
    ∃ r s' c', s.exec c call = some (r, s', c') ∧
      ((∃ e, call.check = .error e ∧ r = .error e ∧ s' = s) ∨
        ∃ op, call.check = .ok op ∧ Effect s c op r s') := by
  cases hcheck : call.check with
  | error e =>
    exact ⟨_, _, _, exec_of_check_error hcheck, Or.inl ⟨e, rfl, rfl, rfl⟩⟩
  | ok op =>
    obtain ⟨r, s', c', hrun, heff⟩ := exec_of_check_ok (c := c) hs.toSync hs.entries hcheck
    exact ⟨r, s', c', hrun, Or.inr ⟨op, rfl, heff⟩⟩

/-- What a call that returned did. -/
theorem exec_cases {call : Call} {r : Except CacheError Reply} {c' : Clock} (hs : Inv s)
    (h : s.exec c call = some (r, s', c')) :
    (∃ e, call.check = .error e ∧ r = .error e ∧ s' = s) ∨
      ∃ op, call.check = .ok op ∧ Effect s c op r s' := by
  obtain ⟨r', s'', c'', hrun, hcases⟩ := exec_returns hs c call
  rw [h] at hrun
  cases hrun
  exact hcases

theorem exec_inv {call : Call} {r : Except CacheError Reply} {c' : Clock} (hs : Inv s)
    (h : s.exec c call = some (r, s', c')) : Inv s' := by
  rcases exec_cases hs h with ⟨e, -, -, rfl⟩ | ⟨op, -, heff⟩
  · exact hs
  · exact heff.inv hs

theorem exec_limits {call : Call} {r : Except CacheError Reply} {c' : Clock} (hs : Inv s)
    (h : s.exec c call = some (r, s', c')) : SameLimits s s' := by
  rcases exec_cases hs h with ⟨e, -, -, rfl⟩ | ⟨op, -, heff⟩
  · exact .refl _
  · exact heff.limits

/-- Run a sequence of calls on one clock, collecting what they return or throw. -/
def run (s : CacheStore) (c : Clock) :
    List Call → Option (List (Except CacheError Reply) × CacheStore × Clock)
  | [] => some ([], s, c)
  | call :: calls =>
      match s.exec c call with
      | none => none
      | some (r, s, c) => (run s c calls).map fun t => (r :: t.1, t.2)

/-- One call of a history: the readings offered by the clock, the call, and its result. -/
structure CallEvent where
  clock : Clock
  call : Call
  result : Except CacheError Reply

/-- The store as a transition system; the clock readings of every call are arbitrary. -/
def system (maxEntries maxMemoryBytes : Option ℕ+) : System CacheStore CallEvent where
  init := new maxEntries maxMemoryBytes
  step s ev s' := ∃ c', s.exec ev.clock ev.call = some (ev.result, s', c')

/-- Every reachable state satisfies the representation invariant. -/
theorem reachable_inv {past : List CallEvent}
    (hrun : (system maxEntries maxMemoryBytes).Run past s) : Inv s :=
  hrun.invariant (P := fun _ s => Inv s) (inv_new maxEntries maxMemoryBytes)
    fun _ _ _ _ _ hs ⟨_, h⟩ => exec_inv hs h

/-- What a sequence of calls on one clock reaches is reachable. -/
theorem reachable_of_run {past : List CallEvent} {c' : Clock} {calls : List Call}
    {results : List (Except CacheError Reply)} (h : (system maxEntries maxMemoryBytes).Run past s)
    (hrun : s.run c calls = some (results, s', c')) :
    ∃ past', (system maxEntries maxMemoryBytes).Run past' s' := by
  induction calls generalizing s c past results with
  | nil =>
    cases hrun
    exact ⟨past, h⟩
  | cons call calls ih =>
    rw [run] at hrun
    split at hrun
    · cases hrun
    · rename_i r s₁ c₁ hexec
      obtain ⟨⟨results', s₂, c₂⟩, hrest, heq⟩ := Option.map_eq_some_iff.1 hrun
      cases heq
      exact ih (.snoc (l := ⟨c, call, r⟩) h ⟨c₁, hexec⟩) hrest

/-- A run from a state with the invariant returns and ends in one. -/
theorem run_returns (hs : Inv s) (c : Clock) (calls : List Call) :
    ∃ results s' c', s.run c calls = some (results, s', c') ∧ Inv s' ∧ SameLimits s s' := by
  induction calls generalizing s c with
  | nil => exact ⟨[], s, c, rfl, hs, .refl s⟩
  | cons call calls ih =>
    obtain ⟨r, s₁, c₁, hexec, -⟩ := exec_returns hs c call
    obtain ⟨results, s', c', hrun, hs', hlimits⟩ := ih (exec_inv hs hexec) c₁
    refine ⟨r :: results, s', c', ?_, hs', (exec_limits hs hexec).trans hlimits⟩
    rw [run]
    simp only [hexec, hrun, Option.map_some]

/-- **The representation invariant over whole runs**: whatever the limits, the clock and the calls,
the run returns, and in the state reached the recency list holds exactly the stored keys, the byte
total is the sum of the entries' sizes, each entry has the size of its key and value, and both
limits hold. -/
theorem run_inv (maxEntries maxMemoryBytes : Option ℕ+) (c : Clock) (calls : List Call) :
    ∃ results s c', (new maxEntries maxMemoryBytes).run c calls = some (results, s, c') ∧
      (s.lru.order.Nodup ∧ s.store.keys.Nodup ∧ ∀ k, k ∈ s.store.keys ↔ k ∈ s.lru.order) ∧
      (s.memoryBytes = (s.store.entries.map fun e => (e.2.sizeBytes : ℤ)).sum ∧
        ∀ k e, (k, e) ∈ s.store.entries → e.sizeBytes = entrySizeBytes k e.value) ∧
      (∀ n, maxEntries = some n → s.store.size ≤ (n : ℕ)) ∧
      ∀ n, maxMemoryBytes = some n → s.memoryBytes ≤ (n : ℕ) := by
  obtain ⟨results, s, c', hrun, hs, hlimits⟩ :=
    run_returns (inv_new maxEntries maxMemoryBytes) c calls
  refine ⟨results, s, c', hrun, ⟨s.lru.nodup, s.store.keys_nodup, fun k => hs.perm.mem_iff.symm⟩,
    ⟨hs.memory, fun k e he => hs.sizes k e (OrderedMap.get?_eq_some_iff.2 he)⟩, ?_, ?_⟩
  · intro n hn
    exact hs.entries n (hlimits.entries.trans hn)
  · intro n hn
    exact hs.bytes n (hlimits.bytes.trans hn)

end CacheStore
end DistributedCache
