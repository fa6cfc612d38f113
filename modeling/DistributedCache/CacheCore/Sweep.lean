import DistributedCache.Lib.Circular
import DistributedCache.CacheCore.Invariant

/-!
# One sweep

`purgeExpired` examines a window of the stored keys: as many as asked for, in insertion order and
around the end, from the sweep cursor on (`sweepWindow`). The loop goes through the window once
(`sweepLoop_eq`) and takes out its expired keys, counting each (`sweepKeys_spec`). Everything else
stays: the other entries in their order, the recency order, the other counters (`purge_window`).
-/

namespace DistributedCache
namespace CacheStore

variable {s s' t : CacheStore} {key : JsString} {now : ℤ} {vs ws : List JsString}

/-! ### Expired keys -/

/-- Whether `key` is stored with a deadline that has passed at the reading `now`. -/
def staleAt (s : CacheStore) (now : ℤ) (key : JsString) : Bool :=
  match s.store.get? key with
  | some ⟨_, some expiresAt, _⟩ => decide (expiresAt ≤ now)
  | _ => false

theorem staleAt_iff : s.staleAt now key = true ↔ s.Stale key now := by
  unfold staleAt Stale
  constructor
  · intro h
    split at h
    · rename_i v d n he
      exact ⟨_, d, he, rfl, by simpa using h⟩
    · cases h
  · rintro ⟨⟨v, d', n⟩, d, he, hd, hle⟩
    obtain rfl : d' = some d := hd
    simpa [he] using hle

/-- Only the entry of the key matters. -/
theorem staleAt_congr (h : s'.store.get? key = s.store.get? key) :
    s'.staleAt now key = s.staleAt now key := by
  unfold staleAt
  rw [h]

/-! ### Going through a list of keys -/

/-- What one turn of the sweep does. -/
theorem sweepKey_eq (now : ℤ) (key : JsString) (s : CacheStore) (purged : ℕ) :
    sweepKey now key s purged =
      if s.staleAt now key then ((s.removeStoredKey key .expire).2, purged + 1) else (s, purged) := by
  cases he : s.store.get? key with
  | none => simp [sweepKey, staleAt, he]
  | some e =>
    obtain ⟨v, d, n⟩ := e
    cases d with
    | none => simp [sweepKey, staleAt, he]
    | some d => simp [sweepKey, staleAt, he]

/-- Examine the keys of a list one after the other. -/
def sweepKeys (now : ℤ) : List JsString → CacheStore → ℕ → CacheStore × ℕ
  | [], s, purged => (s, purged)
  | key :: keys, s, purged =>
      let next := sweepKey now key s purged
      sweepKeys now keys next.1 next.2

/-- **The sweep loop examines the window from the cursor on, each key of it once.** -/
theorem sweepLoop_eq (now : ℤ) (keys : List JsString) (cursor : ℕ) {left i : ℕ}
    (hi : i + left ≤ keys.length) (s : CacheStore) (purged : ℕ) :
    sweepLoop now keys cursor left i s purged =
      sweepKeys now (((keys.rotate cursor).drop i).take left) s purged := by
  induction left generalizing i s purged with
  | zero => rw [List.take_zero, sweepLoop, sweepKeys]
  | succ left ih =>
    have hlt : i < keys.length := by omega
    have hlt' : i < (keys.rotate cursor).length := by rwa [List.length_rotate]
    rw [sweepLoop, getElem?_add_mod hlt, List.getElem?_eq_getElem hlt',
      List.drop_eq_getElem_cons hlt', List.take_succ_cons, sweepKeys]
    exact ih (by omega) _ _

/-- Trimming does not depend on the order in which the victims are listed. -/
theorem Trimmed.congr (h : Trimmed s vs s') (hmem : ∀ k, k ∈ vs ↔ k ∈ ws) : Trimmed s ws s' where
  store := by rw [h.store, OrderedMap.without_congr hmem]
  order := by
    rw [h.order]
    refine List.filter_congr fun k _ => ?_
    simp only [hmem]
  sync := h.sync
  frame := h.frame

/-- `s'` is `s` after the expired keys `victims` have been taken out and counted. -/
structure Swept (s : CacheStore) (victims : List JsString) (s' : CacheStore) : Prop
    extends Trimmed s victims s' where
  expirations : s'.expirations = s.expirations + victims.length
  evictions : s'.evictions = s.evictions
  memory : s'.memoryBytes = s.memoryBytes - (victims.map s.sizeOf).sum

theorem Swept.refl (h : Sync s) : Swept s [] s where
  toTrimmed := Trimmed.refl h
  expirations := rfl
  evictions := rfl
  memory := by simp

/-- An expired key in front of those swept later. -/
theorem Swept.cons (hs : Sync s) (hstale : s.Stale key now) (hkey : key ∉ vs)
    (h : Swept (s.removeStoredKey key .expire).2 vs s') : Swept s (key :: vs) s' := by
  obtain ⟨e, d, he, -, -⟩ := hstale
  have htrim := trimmed_removeStoredKey hs he .expire
  have hcounts : (s.removeStoredKey key .expire).2.expirations = s.expirations + 1 ∧
      (s.removeStoredKey key .expire).2.evictions = s.evictions := by
    unfold removeStoredKey
    rw [he]
    exact ⟨rfl, rfl⟩
  have hsizes : vs.map (s.removeStoredKey key .expire).2.sizeOf = vs.map s.sizeOf := by
    refine List.map_congr_left fun k hk => htrim.sizeOf_eq fun hmem => ?_
    rw [List.mem_singleton.1 hmem] at hk
    exact hkey hk
  have hself : s.sizeOf key = e.sizeBytes := by simp [sizeOf, he]
  refine ⟨(htrim.trans h.toTrimmed).congr fun k => by simp [or_comm], ?_, ?_, ?_⟩
  · rw [h.expirations, hcounts.1, List.length_cons]
    omega
  · rw [h.evictions, hcounts.2]
  · rw [h.memory, removeStoredKey_memory he, hsizes, List.map_cons, List.sum_cons, hself]
    omega

/-- **Examining a list of distinct keys takes out exactly the expired ones.** -/
theorem sweepKeys_spec {keys : List JsString} (hs : Sync s) (hkeys : keys.Nodup) (purged : ℕ) :
    Swept s (keys.filter (s.staleAt now)) (sweepKeys now keys s purged).1 ∧
      (sweepKeys now keys s purged).2 = purged + (keys.filter (s.staleAt now)).length := by
  induction keys generalizing s purged with
  | nil => exact ⟨Swept.refl hs, rfl⟩
  | cons key keys ih =>
    obtain ⟨hnew, hrest⟩ := List.nodup_cons.1 hkeys
    rw [sweepKeys, sweepKey_eq]
    by_cases hstale : s.staleAt now key = true
    · obtain ⟨e, d, he, hd, hle⟩ := staleAt_iff.1 hstale
      -- the removal of one key changes no other verdict
      have hsame : keys.filter ((s.removeStoredKey key .expire).2.staleAt now) =
          keys.filter (s.staleAt now) := by
        refine List.filter_congr fun k hk => staleAt_congr ?_
        rw [removeStoredKey_store he, OrderedMap.get?_delete_of_ne]
        rintro rfl
        exact hnew hk
      obtain ⟨hswept, hcount⟩ := ih (sync_removeStoredKey he .expire hs) hrest (purged + 1)
      rw [hsame] at hswept hcount
      rw [List.filter_cons_of_pos hstale, if_pos hstale, List.length_cons]
      refine ⟨hswept.cons hs ⟨e, d, he, hd, hle⟩ fun hmem => ?_, by rw [hcount]; omega⟩
      exact hnew (List.mem_of_mem_filter hmem)
    · rw [List.filter_cons_of_neg hstale, if_neg hstale]
      exact ih hs hrest purged

/-! ### The window -/

/-- The keys that a sweep examines, in the order in which it does. -/
def sweepWindow (s : CacheStore) (maxExamined : Option ℕ) : List JsString :=
  (s.store.keys.rotate s.sweepCursor).take (sweepCount maxExamined s.store.size)

theorem sweepCount_le (maxExamined : Option ℕ) (n : ℕ) : sweepCount maxExamined n ≤ n := by
  cases maxExamined with
  | none => exact le_rfl
  | some m => exact min_le_right m n

theorem nodup_sweepWindow (s : CacheStore) (maxExamined : Option ℕ) :
    (s.sweepWindow maxExamined).Nodup :=
  (List.nodup_rotate.2 s.store.keys_nodup).sublist (List.take_sublist _ _)

theorem length_sweepWindow (s : CacheStore) (maxExamined : Option ℕ) :
    (s.sweepWindow maxExamined).length = sweepCount maxExamined s.store.size := by
  rw [sweepWindow, List.length_take, List.length_rotate, OrderedMap.length_keys]
  exact min_eq_left (sweepCount_le _ _)

/-- The window is read off the insertion order from the cursor on, around its end. -/
theorem getElem?_sweepWindow {maxExamined : Option ℕ} {i : ℕ}
    (hi : i < sweepCount maxExamined s.store.size) :
    (s.sweepWindow maxExamined)[i]? = s.store.keys[(s.sweepCursor + i) % s.store.size]? := by
  have hlt : i < s.store.keys.length := by
    rw [OrderedMap.length_keys]
    exact lt_of_lt_of_le hi (sweepCount_le _ _)
  rw [sweepWindow, List.getElem?_take_of_lt hi, ← getElem?_add_mod hlt, OrderedMap.length_keys]

theorem mem_sweepWindow_none : key ∈ s.sweepWindow none ↔ key ∈ s.store.keys := by
  have hall : s.sweepWindow none = s.store.keys.rotate s.sweepCursor := by
    refine List.take_of_length_le ?_
    rw [List.length_rotate, OrderedMap.length_keys]
    exact le_rfl
  rw [hall, List.mem_rotate]

/-- The cursor that a sweep leaves behind in a store that held `size` keys before it. -/
def nextCursor (s : CacheStore) (toExamine size : ℕ) (swept : CacheStore) : ℕ :=
  if swept.store.size = 0 then 0 else (s.sweepCursor + toExamine) % size

/-- **A sweep of a non-empty store** takes its expired window out and moves the cursor on. -/
theorem purgeExpired_spec {options : JsValue} {maxExamined : Option ℕ} (hs : Sync s)
    (hn : 1 ≤ s.store.size) (hargs : purgeArguments options = .ok maxExamined) (c : Clock) :
    ∃ swept, Swept s ((s.sweepWindow maxExamined).filter (s.staleAt c.head)) swept ∧
      s.purgeExpired c options =
        some (.ok ((s.sweepWindow maxExamined).filter (s.staleAt c.head)).length,
          { swept with sweepCursor :=
              s.nextCursor (sweepCount maxExamined s.store.size) s.store.size swept }, c.tail) := by
  have hcount : 0 + sweepCount maxExamined s.store.keys.length ≤ s.store.keys.length := by
    rw [Nat.zero_add]
    exact sweepCount_le maxExamined s.store.keys.length
  have hloop := sweepLoop_eq c.head s.store.keys s.sweepCursor hcount s 0
  rw [List.drop_zero] at hloop
  obtain ⟨hswept, hpurged⟩ := sweepKeys_spec hs (s.nodup_sweepWindow maxExamined) 0
  rw [OrderedMap.length_keys] at hloop
  change _ = sweepKeys c.head (s.sweepWindow maxExamined) s 0 at hloop
  refine ⟨_, hswept, ?_⟩
  have hne : s.store.size ≠ 0 := by omega
  rw [Nat.zero_add] at hpurged
  simp only [purgeExpired, hargs, if_neg hne, OrderedMap.length_keys, hloop, hpurged, nextCursor]

variable {past : List CallEvent} {maxEntries maxMemoryBytes : Option ℕ+}

/-- **One sweep does exactly its window.** From any reachable store and any cursor: the sweep goes
once through `min(m, n)` cyclically consecutive keys from the cursor on; it takes out those whose
deadline has passed, answers how many, adds that to `expirations` and takes their sizes off the byte
total; the other entries, both orders of the survivors and the other counters stay. Without a bound
the keys taken out are all that have expired. -/
theorem purge_window (hrun : (system maxEntries maxMemoryBytes).Run past s) (hn : 1 ≤ s.store.size)
    (cursor : ℕ) (c : Clock) {options : JsValue} {maxExamined : Option ℕ}
    (hargs : purgeArguments options = .ok maxExamined) :
    let t := { s with sweepCursor := cursor }
    let window := t.sweepWindow maxExamined
    let victims := window.filter (s.staleAt c.head)
    (window.Nodup ∧ window.length = sweepCount maxExamined s.store.size ∧
      (∀ i < window.length, window[i]? = s.store.keys[(cursor + i) % s.store.size]?) ∧
      sweepLoop c.head s.store.keys cursor window.length 0 t 0 = sweepKeys c.head window t 0) ∧
    (∀ k, k ∈ victims ↔ k ∈ window ∧ s.Stale k c.head) ∧
    (maxExamined = none → ∀ k, k ∈ victims ↔ s.Stale k c.head) ∧
    ∃ s', t.purgeExpired c options = some (.ok victims.length, s', c.tail) ∧
      s'.store.entries = s.store.entries.filter (fun e => e.1 ∉ victims) ∧
      s'.lru.order = s.lru.order.filter (· ∉ victims) ∧
      s'.expirations = s.expirations + victims.length ∧
      s'.memoryBytes = s.memoryBytes - (victims.map s.sizeOf).sum ∧
      s'.hits = s.hits ∧ s'.misses = s.misses ∧ s'.evictions = s.evictions := by
  intro t window victims
  have hsync : Sync t := (reachable_inv hrun).toSync.congr rfl (List.Perm.refl _) rfl
  have hlength : window.length = sweepCount maxExamined s.store.size :=
    t.length_sweepWindow maxExamined
  have hvictims : ∀ k, k ∈ victims ↔ k ∈ window ∧ s.Stale k c.head := by
    intro k
    rw [List.mem_filter, staleAt_iff]
  refine ⟨⟨t.nodup_sweepWindow maxExamined, hlength, fun i hi => ?_, ?_⟩, hvictims, ?_, ?_⟩
  · exact getElem?_sweepWindow (s := t) (hlength ▸ hi)
  · have hle : window.length ≤ s.store.keys.length := by
      rw [hlength, OrderedMap.length_keys]
      exact sweepCount_le _ _
    rw [sweepLoop_eq _ _ _ (by rwa [Nat.zero_add]), List.drop_zero, hlength]
    rfl
  · rintro rfl k
    rw [hvictims, mem_sweepWindow_none, and_iff_right_iff_imp]
    rintro ⟨e, d, he, -, -⟩
    exact OrderedMap.mem_keys_of_get? he
  · obtain ⟨swept, hswept, heq⟩ := purgeExpired_spec (s := t) hsync hn hargs c
    refine ⟨_, heq, ?_, hswept.order, hswept.expirations, hswept.memory, hswept.frame.hits,
      hswept.frame.misses, hswept.evictions⟩
    exact congrArg OrderedMap.entries hswept.store

/-- Three entries, two of which expire; a sweep of two keys from position `7` meets the last one
of them. -/
theorem purge_window_example : ∃ past s, (system none none).Run past s ∧
    s.store.keys = [js "a", js "b", js "c"] ∧
    ∃ s', { s with sweepCursor := 7 }.purgeExpired (Stream'.const 6000)
        (.object .undefined (.number (.int 2))) = some (.ok 1, s', (Stream'.const 6000).tail) ∧
      s'.lru.order = [js "b", js "a"] := by
  let calls : List Call := [
    .set (.string (js "a")) (.string (js "1")) (.object (.number (.int 1)) .undefined),
    .set (.string (js "b")) (.string (js "2")) .undefined,
    .set (.string (js "c")) (.string (js "3")) (.object (.number (.int 5)) .undefined)]
  have hrun : (CacheStore.new none none).run (Stream'.const 0) calls = some (_, _, _) := rfl
  obtain ⟨past, h⟩ := reachable_of_run .start hrun
  obtain ⟨-, -, -, s', hpurge, -, horder, -⟩ := purge_window h (by decide) 7 (Stream'.const 6000)
    (rfl : purgeArguments (.object .undefined (.number (.int 2))) = .ok (some 2))
  exact ⟨past, _, h, rfl, s', hpurge, horder⟩

end CacheStore
end DistributedCache
