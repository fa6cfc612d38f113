import DistributedCache.Lib.ShortBy
import DistributedCache.CacheCore.KeyView
import DistributedCache.CacheCore.Sweep

/-!
# A bigger cache never loses a hit

Two stores, for `n` and for `m ≥ n` entries and without a memory limit, run the same calls at the same
readings (`lockstep`). They answer differently: a key may be stored by one and not by the other. But
the recency order of the small store stays that of the large one with at most `m - n` keys left out,
and a key stored by both has the same entry in both (`Included`).

* `Included.trimmed`, `Included.effect`, `Included.sweep`: every call keeps this;
* `lru_inclusion`: a hit of the small store is a hit of the large one, with the same value.
-/

namespace DistributedCache

/-- A call other than a sweep of a bounded number of keys. -/
def Call.unsampled (call : Call) : Bool :=
  match call.check with
  | .ok (.purgeExpired (some _)) => false
  | _ => true

namespace CacheStore

/-- One call on both stores: the readings offered by the clock, the call, and the two results. -/
structure TwinEvent where
  clock : Clock
  call : Call
  small : Except CacheError Reply
  large : Except CacheError Reply

/-- A store for `n` entries and one for `m` entries, given the same calls at the same readings. -/
def lockstep (n m : ℕ+) : System (CacheStore × CacheStore) TwinEvent where
  init := (new (some n) none, new (some m) none)
  step p ev p' := ev.call.unsampled = true ∧
    (∃ c', p.1.exec ev.clock ev.call = some (ev.small, p'.1, c')) ∧
    ∃ c', p.2.exec ev.clock ev.call = some (ev.large, p'.2, c')

/-- A store for `n` entries without a memory limit. -/
structure Sized (n : ℕ+) (s : CacheStore) : Prop extends Inv s where
  entryLimit : s.maxEntries = some n
  noMemoryLimit : s.maxMemoryBytes = none

/-- Everything `s` holds `t` holds too, in the same order of use and with at most `d` more keys. -/
structure Included (d : ℕ) (s t : CacheStore) : Prop where
  order : ShortBy d s.lru.order t.lru.order
  entries : ∀ k e, s.store.get? k = some e → t.store.get? k = some e
  hits : s.hits ≤ t.hits

variable {s s' t t' : CacheStore} {c : Clock} {key : JsString} {d : ℕ} {n m : ℕ+}

theorem sized_new (n : ℕ+) : Sized n (new (some n) none) where
  toInv := inv_new (some n) none
  entryLimit := rfl
  noMemoryLimit := rfl

theorem exec_sized {call : Call} {r : Except CacheError Reply} {c' : Clock} (hs : Sized n s)
    (h : s.exec c call = some (r, s', c')) : Sized n s' where
  toInv := exec_inv hs.toInv h
  entryLimit := (exec_limits hs.toInv h).entries.trans hs.entryLimit
  noMemoryLimit := (exec_limits hs.toInv h).bytes.trans hs.noMemoryLimit

/-- What a `set` keeps of the other keys: the most recently used ones, as many as fit. -/
theorem Stored.kept_eq {value : JsString} {expiresAt : Option Deadline}
    {kept victims : List JsString} (hs : Sized n s) (h : Stored s key value expiresAt kept victims s') :
    kept = (s.lru.order.erase key).take (n - 1) := by
  have hn : 1 ≤ (n : ℕ) := n.pos
  have hfit : kept.length + 1 ≤ (n : ℕ) := h.cut.fitting.1 n hs.entryLimit
  have hsplit := h.cut.split
  -- the cut that leaves `n - 1` keys fits as well
  have hshort := h.cut.shortest ((s.lru.order.erase key).take (n - 1))
    ((s.lru.order.erase key).drop (n - 1)) (List.take_append_drop _ _).symm
    ⟨fun k hk => by
      rw [hs.entryLimit, Option.some.injEq] at hk
      subst hk
      have := List.length_take_le (n - 1 : ℕ) (s.lru.order.erase key)
      omega,
    fun k hk => by rw [hs.noMemoryLimit] at hk; cases hk⟩
  have hlen := congrArg List.length hsplit
  rw [List.length_append] at hlen
  rw [List.length_drop] at hshort
  have hkept : kept = (s.lru.order.erase key).take kept.length := by
    rw [hsplit, List.take_left]
  rw [hkept, List.take_eq_take_iff]
  omega

/-! ### The steps -/

/-- Removing the same keys from both stores. -/
theorem Included.trimmed {vs ws : List JsString} (h : Included d s t) (hs : Trimmed s vs s')
    (ht : Trimmed t ws t') (hsame : ∀ k e, s.store.get? k = some e → (k ∈ vs ↔ k ∈ ws))
    (hsync : Sync s) : Included d s' t' where
  order := by
    have horder : s'.lru.order = s.lru.order.filter (· ∉ ws) := by
      rw [hs.order]
      refine List.filter_congr fun k hk => ?_
      obtain ⟨e, he⟩ := OrderedMap.mem_keys_iff.1 (hsync.mem_order_iff.1 hk)
      simp only [hsame k e he]
    rw [horder, ht.order]
    exact h.order.filter _
  entries := by
    intro k e he
    rw [hs.get?] at he
    split_ifs at he with hk
    rw [ht.get?, if_neg fun hk' => hk ((hsame k e he).2 hk')]
    exact h.entries k e he
  hits := by
    rw [hs.frame.hits, ht.frame.hits]
    exact h.hits

theorem MissingAt.trimmed (hs : Sync s) (h : MissingAt s c key s') : Trimmed s [key] s' := by
  rcases h with ⟨rfl, hnone⟩ | ⟨rfl, e, d, he, -⟩
  · have hkey : key ∉ s'.store.keys := OrderedMap.get?_eq_none_iff.1 hnone
    refine ⟨?_, ?_, hs, .refl s'⟩
    · rw [OrderedMap.without_singleton, OrderedMap.delete_of_notMem hkey]
    · refine (List.filter_eq_self.2 fun k hk => ?_).symm
      have hne : k ≠ key := fun e => hkey (e ▸ hs.mem_order_iff.1 hk)
      simpa using hne
  · exact trimmed_removeStoredKey hs he .expire

theorem LiveAt.not_missingAt {e : CacheEntry} (h : LiveAt s c key e) : ¬ MissingAt s c key s' := by
  intro hmiss
  have hnone := hmiss.get?.1
  rw [h.liveEntry] at hnone
  cases hnone

/-- What is live in the small store is live in the large one. -/
theorem Included.live {e : CacheEntry} (h : Included d s t) (hs : LiveAt s c key e) :
    LiveAt t c key e :=
  ⟨h.entries key e hs.1, hs.2⟩

/-- What is live only in the large store is not stored by the small one. -/
theorem Included.absent {e : CacheEntry} (h : Included d s t) (hs : MissingAt s c key s')
    (ht : LiveAt t c key e) : s' = s ∧ s.store.get? key = none := by
  rcases hs with hs | ⟨-, e', d', he', hd, hle⟩
  · exact hs
  · have he := h.entries key e' he'
    rw [ht.1] at he
    cases he
    exact absurd (ht.2 d' hd) (not_lt.2 hle)

/-- Using a key that the large store holds. -/
theorem shortBy_touch {l l' : LruList JsString} (h : ShortBy d l.order l'.order)
    (hkey : key ∈ l'.order) : ShortBy d (l.touch key).order (l'.touch key).order := by
  rw [LruList.order_touch_of_mem hkey]
  by_cases hmem : key ∈ l.order
  · rw [LruList.order_touch_of_mem hmem]
    exact (h.erase key).cons key
  · rw [LruList.order_touch_of_notMem hmem]
    have herase := (h.erase key).sublist
    rw [List.erase_of_not_mem hmem] at herase
    refine ⟨herase.cons key, ?_⟩
    rw [← (List.perm_cons_erase hkey).length_eq]
    exact h.length_le

/-- **A `set` keeps the inclusion**: both stores put the key in front and keep as much of the others
as they have room for. -/
theorem Included.stored {value : JsString} {expiresAt : Option Deadline}
    {kept victims kept' victims' : List JsString} (h : Included (m - n) s t) (hnm : n ≤ m)
    (hn : Sized n s) (hm : Sized m t) (hs : Stored s key value expiresAt kept victims s')
    (ht : Stored t key value expiresAt kept' victims' t') : Included (m - n) s' t' := by
  have hle : (n : ℕ) ≤ m := hnm
  have hpos : 1 ≤ (n : ℕ) := n.pos
  have hkept : ShortBy (m - n) kept kept' := by
    rw [hs.kept_eq hn, ht.kept_eq hm]
    have hcut := (h.order.erase key).take (n - 1)
    rwa [show (n - 1 + (m - n) : ℕ) = m - 1 by omega] at hcut
  refine ⟨?_, fun k e he => ?_, ?_⟩
  · rw [hs.order, ht.order]
    exact hkept.cons key
  · rw [hs.get?] at he
    rw [ht.get?]
    split_ifs at he with hk hv
    · rw [if_pos hk]
      exact he
    · -- a key kept by the small store is kept by the large one
      have hmem : k ∈ kept := by
        have hk' : k ∈ s'.lru.order := by
          rw [hs.sync.mem_order_iff]
          refine OrderedMap.mem_keys_of_get? (v := e) ?_
          rw [hs.get?, if_neg hk, if_neg hv, he]
        rw [hs.order] at hk'
        exact (List.mem_cons.1 hk').resolve_left hk
      have hnd : (kept' ++ victims').Nodup := ht.cut.split ▸ t.lru.nodup.erase key
      have hv' : k ∉ victims' := fun hv' =>
        (List.nodup_append.1 hnd).2.2 k (hkept.sublist.subset hmem) k hv' rfl
      rw [if_neg hk, if_neg hv']
      exact h.entries k e he
  · rw [hs.frame.hits, ht.frame.hits]
    exact h.hits

/-- **Every operation but a sweep keeps the inclusion**, and a value that the small store returns
the large one returns too. -/
theorem Included.effect {op : Op} {r r' : Except CacheError Reply} (h : Included (m - n) s t)
    (hnm : n ≤ m) (hn : Sized n s) (hm : Sized m t) (hs : Effect s c op r s')
    (ht : Effect t c op r' t') (hop : ∀ k, op ≠ .purgeExpired k) :
    Included (m - n) s' t' ∧ ∀ v, r = .ok (.value (some v)) → r' = .ok (.value (some v)) := by
  have lookup {u u' : CacheStore} {key : JsString} (hu : MissingAt s c key u)
      (hu' : MissingAt t c key u') : Included (m - n) u u' :=
    h.trimmed (hu.trimmed hn.toSync) (hu'.trimmed hm.toSync) (fun _ _ _ => Iff.rfl) hn.toSync
  cases op with
  | set key value ex =>
    cases hs with
    | tooLarge hlarge => simp [entryTooLarge, hn.noMemoryLimit] at hlarge
    | stored _ hs =>
      cases ht with
      | tooLarge hlarge => simp [entryTooLarge, hm.noMemoryLimit] at hlarge
      | stored _ ht => exact ⟨h.stored hnm hn hm hs ht, fun v hv => by cases hv⟩
  | get key =>
    cases ht with
    | hit ht =>
      have hmem := hm.mem_order_iff.2 (OrderedMap.mem_keys_of_get? ht.1)
      cases hs with
      | hit hs =>
        obtain ⟨hentry, -⟩ := h.live hs
        rw [ht.1] at hentry
        cases hentry
        exact ⟨⟨shortBy_touch h.order hmem, h.entries, Nat.succ_le_succ h.hits⟩, fun v hv => hv⟩
      | miss hs =>
        -- the small store has lost the key, which moves to the front of the large one only
        obtain ⟨rfl, hnone⟩ := h.absent hs ht
        have horder := shortBy_touch h.order hmem
        rw [LruList.order_touch_of_notMem fun hk => OrderedMap.get?_eq_none_iff.1 hnone
          (hn.mem_order_iff.1 hk)] at horder
        exact ⟨⟨horder, h.entries, h.hits.trans (Nat.le_succ _)⟩, fun v hv => by cases hv⟩
    | miss ht =>
      cases hs with
      | hit hs => exact absurd ht (h.live hs).not_missingAt
      | miss hs =>
        have h' := lookup hs ht
        exact ⟨⟨h'.order, h'.entries, h'.hits⟩, fun v hv => by cases hv⟩
  | delete key =>
    have hs' : Trimmed s [key] s' := by
      cases hs with
      | deleted hs => exact trimmed_removeStoredKey hn.toSync hs.1 .delete
      | nothingToDelete hs => exact hs.trimmed hn.toSync
    have ht' : Trimmed t [key] t' := by
      cases ht with
      | deleted ht => exact trimmed_removeStoredKey hm.toSync ht.1 .delete
      | nothingToDelete ht => exact ht.trimmed hm.toSync
    refine ⟨h.trimmed hs' ht' (fun _ _ _ => Iff.rfl) hn.toSync, fun v hv => ?_⟩
    cases hs <;> cases hv
  | existsKey key =>
    cases ht with
    | found ht =>
      cases hs with
      | found hs => exact ⟨h, fun v hv => by cases hv⟩
      | notFound hs =>
        obtain ⟨rfl, -⟩ := h.absent hs ht
        exact ⟨h, fun v hv => by cases hv⟩
    | notFound ht =>
      cases hs with
      | found hs => exact absurd ht (h.live hs).not_missingAt
      | notFound hs => exact ⟨lookup hs ht, fun v hv => by cases hv⟩
  | ttl key =>
    cases ht with
    | timed ht =>
      cases hs with
      | timed hs => exact ⟨h, fun v hv => by cases hv⟩
      | notTimed hs =>
        obtain ⟨rfl, -⟩ := h.absent hs ht
        exact ⟨h, fun v hv => by cases hv⟩
    | notTimed ht =>
      cases hs with
      | timed hs => exact absurd ht (h.live hs).not_missingAt
      | notTimed hs => exact ⟨lookup hs ht, fun v hv => by cases hv⟩
  | purgeExpired k => exact absurd rfl (hop k)

/-- A full sweep takes out exactly the expired keys. -/
theorem exec_full_sweep {options : JsValue} {r : Except CacheError Reply} {c' : Clock} (hs : Sync s)
    (hargs : purgeArguments options = .ok none)
    (h : s.exec c (.purgeExpired options) = some (r, s', c')) :
    ∃ victims swept cursor purged, Trimmed s victims swept ∧
      (∀ k, k ∈ victims ↔ s.Stale k c.head) ∧ s' = { swept with sweepCursor := cursor } ∧
      r = .ok (.purged purged) := by
  by_cases hsize : s.store.size = 0
  · have hnone : ∀ k, ¬ s.Stale k c.head := by
      rintro k ⟨e, d, he, -⟩
      have hpos := List.length_pos_of_mem (OrderedMap.get?_eq_some_iff.1 he)
      exact absurd hsize hpos.ne'
    simp only [exec, purgeExpired, hargs, if_pos hsize, Outcome.map, Option.map_some, Except.map,
      Option.some.injEq, Prod.mk.injEq] at h
    exact ⟨[], s, 0, 0, .refl hs, fun k => by simp [hnone k], h.2.1.symm, h.1.symm⟩
  · obtain ⟨swept, hswept, heq⟩ := purgeExpired_spec hs (by omega) hargs c
    simp only [exec, heq, Outcome.map, Option.map_some, Except.map, Option.some.injEq,
      Prod.mk.injEq] at h
    refine ⟨_, swept, _, _, hswept.toTrimmed, fun k => ?_, h.2.1.symm, h.1.symm⟩
    rw [List.mem_filter, mem_sweepWindow_none, staleAt_iff, and_iff_right_iff_imp]
    rintro ⟨e, d, he, -, -⟩
    exact OrderedMap.mem_keys_of_get? he

/-- **A full sweep keeps the inclusion**: what it takes out of the small store it takes out of the
large one. -/
theorem Included.sweep {options : JsValue} {r r' : Except CacheError Reply} {c₁ c₂ : Clock}
    (h : Included d s t) (hs : Sync s) (ht : Sync t) (hargs : purgeArguments options = .ok none)
    (hrun : s.exec c (.purgeExpired options) = some (r, s', c₁))
    (hrun' : t.exec c (.purgeExpired options) = some (r', t', c₂)) :
    Included d s' t' ∧ ∀ v, r ≠ .ok (.value (some v)) := by
  obtain ⟨vs, u, cursor, purged, htrim, hvs, rfl, rfl⟩ := exec_full_sweep hs hargs hrun
  obtain ⟨ws, u', cursor', purged', htrim', hws, rfl, -⟩ := exec_full_sweep ht hargs hrun'
  have hsame : ∀ k e, s.store.get? k = some e → (k ∈ vs ↔ k ∈ ws) := by
    intro k e he
    rw [hvs, hws, Stale, Stale, he, h.entries k e he]
  have h' := h.trimmed htrim htrim' hsame hs
  exact ⟨⟨h'.order, h'.entries, h'.hits⟩, fun v hv => nomatch hv⟩

/-- **Every call keeps the inclusion**, and a value that the small store returns the large one
returns too. -/
theorem Included.exec {call : Call} {r r' : Except CacheError Reply} {c₁ c₂ : Clock}
    (h : Included (m - n) s t) (hnm : n ≤ m) (hn : Sized n s) (hm : Sized m t)
    (hcall : call.unsampled = true) (hrun : s.exec c call = some (r, s', c₁))
    (hrun' : t.exec c call = some (r', t', c₂)) :
    Included (m - n) s' t' ∧ ∀ v, r = .ok (.value (some v)) → r' = .ok (.value (some v)) := by
  rcases exec_cases hn.toInv hrun with ⟨e, hcheck, rfl, rfl⟩ | ⟨op, hcheck, heff⟩
  · rw [exec_of_check_error hcheck] at hrun'
    cases hrun'
    exact ⟨h, fun v hv => nomatch hv⟩
  · obtain ⟨op', hcheck', heff'⟩ : ∃ op', call.check = .ok op' ∧ Effect t c op' r' t' := by
      rcases exec_cases hm.toInv hrun' with ⟨e, he, -⟩ | h'
      · rw [hcheck] at he
        cases he
      · exact h'
    rw [hcheck] at hcheck'
    cases hcheck'
    by_cases hop : ∃ k, op = .purgeExpired k
    · obtain ⟨k, rfl⟩ := hop
      cases call with
      | purgeExpired options =>
        obtain ⟨k', hargs, heq⟩ := map_eq_ok_iff.1 hcheck
        cases heq
        cases k with
        | none =>
          obtain ⟨h', hno⟩ := h.sweep hn.toSync hm.toSync hargs hrun hrun'
          exact ⟨h', fun v hv => absurd hv (hno v)⟩
        | some k => simp [Call.unsampled, Call.check, hargs, Except.map] at hcall
      | set key value options =>
        obtain ⟨a, -, heq⟩ := map_eq_ok_iff.1 hcheck
        cases heq
      | get key | delete key | existsKey key | ttl key =>
        obtain ⟨k', -, heq⟩ := map_eq_ok_iff.1 hcheck
        cases heq
    · exact h.effect hnm hn hm heff heff' fun k hk => hop ⟨k, hk⟩

/-! ### Runs -/

variable {past : List TwinEvent} {p : CacheStore × CacheStore}

/-- What holds throughout a run in lockstep. -/
structure Twins (n m : ℕ+) (past : List TwinEvent) (p : CacheStore × CacheStore) : Prop where
  small : Sized n p.1
  large : Sized m p.2
  included : Included (m - n) p.1 p.2
  values : ∀ ev ∈ past, ∀ v, ev.small = .ok (.value (some v)) → ev.large = .ok (.value (some v))

theorem twins_of_run (hnm : n ≤ m) (hrun : (lockstep n m).Run past p) : Twins n m past p := by
  refine hrun.invariant (P := Twins n m) ?_ ?_
  · exact ⟨sized_new n, sized_new m,
      ⟨⟨List.nil_sublist _, Nat.zero_le _⟩, fun _ _ he => (nomatch he), le_rfl⟩,
      fun ev hev => nomatch hev⟩
  · rintro past q ev q' - h ⟨hcall, ⟨c₁, hsmall⟩, c₂, hlarge⟩
    obtain ⟨hincluded, hvalue⟩ := h.included.exec hnm h.small h.large hcall hsmall hlarge
    refine ⟨exec_sized h.small hsmall, exec_sized h.large hlarge, hincluded, ?_⟩
    exact List.forall_mem_cons.2 ⟨hvalue, h.values⟩

/-- **LRU inclusion.** Two stores for `n ≤ m` entries, without a memory limit, start empty and run
the same calls in lockstep, each at the same readings; sweeps are full. Every such call can be run
next. After every step the large store holds each entry of the small one, value and deadline; every
`get` that hit in the small store hit in the large one with the same value; and the small store has
counted no more hits. -/
theorem lru_inclusion (hnm : n ≤ m) (hrun : (lockstep n m).Run past p) :
    (∀ k e, p.1.store.get? k = some e → p.2.store.get? k = some e) ∧
    (∀ ev ∈ past, ∀ v, ev.small = .ok (.value (some v)) → ev.large = .ok (.value (some v))) ∧
    p.1.hits ≤ p.2.hits ∧
    ∀ c call, call.unsampled = true → ∃ small large p',
      (lockstep n m).step p ⟨c, call, small, large⟩ p' := by
  have h := twins_of_run hnm hrun
  refine ⟨h.included.entries, h.values, h.included.hits, fun c call hcall => ?_⟩
  obtain ⟨small, s', c₁, hsmall, -⟩ := exec_returns h.small.toInv c call
  obtain ⟨large, t', c₂, hlarge, -⟩ := exec_returns h.large.toInv c call
  exact ⟨small, large, (s', t'), hcall, ⟨c₁, hsmall⟩, c₂, hlarge⟩

/-- Stores for one and for two entries: a `get` that misses in the first hits in the second, and one
that hits in the first hits in both. -/
theorem lru_inclusion_example : ∃ past p, (lockstep 1 2).Run past p ∧
    p.1.store.keys = [js "b"] ∧ p.2.store.keys = [js "a", js "b"] ∧ p.1.hits ≤ p.2.hits ∧
    ∀ k e, p.1.store.get? k = some e → p.2.store.get? k = some e := by
  have call (past p) (call : Call) (small large : Except CacheError Reply) (p' : CacheStore ×
      CacheStore) (c₁ c₂ : Clock) (h : (lockstep 1 2).Run past p) (hcall : call.unsampled = true)
      (hsmall : p.1.exec (Stream'.const 0) call = some (small, p'.1, c₁))
      (hlarge : p.2.exec (Stream'.const 0) call = some (large, p'.2, c₂)) :
      (lockstep 1 2).Run (⟨Stream'.const 0, call, small, large⟩ :: past) p' :=
    .snoc h ⟨hcall, ⟨c₁, hsmall⟩, c₂, hlarge⟩
  have h1 := call _ _ (.set (.string (js "a")) (.string (js "1")) .undefined) _ _ (_, _) _ _ .start
    rfl rfl rfl
  have h2 := call _ _ (.set (.string (js "b")) (.string (js "2")) .undefined) _ _ (_, _) _ _ h1
    rfl rfl rfl
  have h3 := call _ _ (.get (.string (js "a"))) _ _ (_, _) _ _ h2 rfl rfl rfl
  have h4 := call _ _ (.get (.string (js "b"))) _ _ (_, _) _ _ h3 rfl rfl rfl
  have hincluded := lru_inclusion (n := 1) (m := 2) (by decide) h4
  exact ⟨_, _, h4, rfl, rfl, hincluded.2.2.1, hincluded.1⟩

end CacheStore
end DistributedCache
