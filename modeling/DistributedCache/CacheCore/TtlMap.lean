import Mathlib.Order.WithBot
import DistributedCache.CacheCore.KeyView

/-!
# The store refines a plain TTL map

`TtlMap` says what the store is for: a map from keys to a value and an optional deadline, which shows
an entry exactly while `now < deadline` and never purges anything.

* `TtlMap.exec`, `ttlSystem`: the reference map and its histories;
* `timedSystem`: the store with a clock that stands still within a call and never goes back between
  calls, with the set of keys evicted since their last successful `set` as a ghost;
* `Tracks`: a stored entry is the one of the reference; where the store has none, that of the
  reference has expired or its key was evicted;
* `exactSystem`: the histories in which no deadline is rounded, as one above `2 ^ 53` may be
  (`ttl_rounded`);
* `refines_ttlMap`: without limits every such history of the store, its purges left out, is a history
  of the reference map; with limits every value returned is the reference's, and a `get` misses a
  visible entry only for an evicted key.
-/

namespace DistributedCache

/-- An entry of the reference map. -/
structure TtlEntry where
  value : JsString
  deadline : Option ℤ
  deriving DecidableEq, Repr

/-- The reference map. -/
abbrev TtlMap := JsString → Option TtlEntry

/-- An entry is visible exactly while `now < deadline`. -/
def TtlEntry.visible (e : TtlEntry) (now : ℤ) : Bool :=
  match e.deadline with
  | none => true
  | some d => decide (now < d)

/-- The whole seconds an entry has left at `now`; `-1` without a deadline. -/
def TtlEntry.secondsLeft (e : TtlEntry) (now : ℤ) : ℤ :=
  match e.deadline with
  | none => -1
  | some d => (d - now) / 1000

namespace TtlMap

/-- The map without entries. -/
def empty : TtlMap := fun _ => none

/-- The visible entry of a key. -/
def lookup (m : TtlMap) (now : ℤ) (key : JsString) : Option TtlEntry :=
  (m key).filter (·.visible now)

/-- The operations of the reference map. -/
def exec (m : TtlMap) (now : ℤ) : Op → Reply × TtlMap
  | .set key value ex =>
      (.done, Function.update m key (some ⟨value, ex.map fun ex => now + 1000 * ex⟩))
  | .get key => (.value ((m.lookup now key).map TtlEntry.value), m)
  | .delete key => (.flag (m.lookup now key).isSome, Function.update m key none)
  | .existsKey key => (.flag (m.lookup now key).isSome, m)
  | .ttl key =>
      (.seconds (.int (((m.lookup now key).map fun e => e.secondsLeft now).getD (-2))), m)
  | .purgeExpired _ => (.purged 0, m)

end TtlMap

/-- One call of a history with the time at which it ran. -/
structure TimedEvent where
  now : ℤ
  call : Call
  result : Except CacheError Reply

/-- What the reference map answers to the call of an event. -/
def TtlMap.answer (m : TtlMap) (ev : TimedEvent) : Except CacheError Reply :=
  ev.call.check.map fun op => (m.exec ev.now op).1

/-- The reference map after the call of an event; a call that throws does not count. -/
def TtlMap.after (m : TtlMap) (ev : TimedEvent) : TtlMap :=
  match ev.call.check, ev.result with
  | .ok op, .ok _ => (m.exec ev.now op).2
  | _, _ => m

/-- The reference map after a history. -/
def TtlMap.ofHistory (past : List TimedEvent) : TtlMap :=
  past.foldr (fun ev m => m.after ev) TtlMap.empty

/-- The reference map as a transition system. -/
def ttlSystem : System TtlMap TimedEvent where
  init := TtlMap.empty
  step m ev m' := ev.result = m.answer ev ∧ m' = m.after ev

/-- Whether the event is a `purgeExpired`. -/
def TimedEvent.isPurge (ev : TimedEvent) : Bool :=
  match ev.call with
  | .purgeExpired _ => true
  | _ => false

/-- The event is a successful `set` of `key`. -/
def TimedEvent.Sets (ev : TimedEvent) (key : JsString) : Prop :=
  ∃ value ex r, ev.call.check = .ok (.set key value ex) ∧ ev.result = .ok r

/-- If the event is a `set` with an expiry, its deadline needs no rounding. -/
def TimedEvent.Exact (ev : TimedEvent) : Prop :=
  ∀ key value ex, ev.call.check = .ok (.set key value (some ex)) →
    (ex * 1000).natAbs ≤ 2 ^ 53 ∧ (ev.now + ex * 1000).natAbs ≤ 2 ^ 53

/-- An exact deadline is the reference's. -/
theorem TimedEvent.Exact.map_expiryOf {ev : TimedEvent} {key value : JsString} {ex : Option ℤ}
    (h : ev.Exact) (hcheck : ev.call.check = .ok (.set key value ex)) :
    ex.map (expiryOf ev.now) = (ex.map fun ex => ev.now + 1000 * ex).map WithTop.some := by
  cases ex with
  | none => rfl
  | some ex =>
    obtain ⟨hex, hsum⟩ := h key value ex hcheck
    rw [Option.map_some, Option.map_some, Option.map_some, expiryOf_exact hex hsum, mul_comm]

theorem TimedEvent.Exact.near {ev : TimedEvent} {key value : JsString} {ex : Option ℤ}
    (h : ev.Exact) (hcheck : ev.call.check = .ok (.set key value ex)) {d : ℤ}
    (hd : (ex.map fun ex => ev.now + 1000 * ex) = some d) : d ≤ ev.now + 2 ^ 53 := by
  obtain ⟨n, rfl, rfl⟩ := Option.map_eq_some_iff.1 hd
  obtain ⟨hex, -⟩ := h key value n hcheck
  omega

/-- A stored entry is the reference's, value and deadline. -/
structure TtlEntry.Matches (te : TtlEntry) (e : CacheEntry) : Prop where
  value : te.value = e.value
  expiresAt : e.expiresAt = te.deadline.map WithTop.some

/-- A deadline of the stored entry is the reference's. -/
theorem TtlEntry.Matches.deadline {te : TtlEntry} {e : CacheEntry} {d : Deadline}
    (h : te.Matches e) (hd : e.expiresAt = some d) : ∃ n : ℤ, te.deadline = some n ∧ d = n := by
  rw [h.expiresAt] at hd
  obtain ⟨n, hn, rfl⟩ := Option.map_eq_some_iff.1 hd
  exact ⟨n, hn, rfl⟩

/-- A store with the time of its last call and, as a ghost, the keys evicted since their last
successful `set`. -/
structure TimedStore where
  store : CacheStore
  last : WithBot ℤ
  evicted : Set JsString

namespace CacheStore

/-- In the step from `s` to `s'` a successful `set` of another key has taken out a live entry. -/
def Evicts (s : CacheStore) (ev : TimedEvent) (s' : CacheStore) (key : JsString) : Prop :=
  (∃ k, ev.Sets k ∧ k ≠ key) ∧ (∃ e, s.LiveAt (Stream'.const ev.now) key e) ∧
    s'.store.get? key = none

/-- The store under a clock that is constant within a call and never goes back. -/
def timedSystem (maxEntries maxMemoryBytes : Option ℕ+) : System TimedStore TimedEvent where
  init := ⟨new maxEntries maxMemoryBytes, ⊥, ∅⟩
  step st ev st' :=
    (∃ c', st.store.exec (Stream'.const ev.now) ev.call = some (ev.result, st'.store, c')) ∧
      st.last ≤ ev.now ∧ st'.last = ev.now ∧
      st'.evicted = {k | ¬ ev.Sets k ∧ (k ∈ st.evicted ∨ st.store.Evicts ev st'.store k)}

/-- The timed system with exact deadlines only. -/
def exactSystem (maxEntries maxMemoryBytes : Option ℕ+) : System TimedStore TimedEvent :=
  (timedSystem maxEntries maxMemoryBytes).restrict fun _ ev => ev.Exact

/-- The store holds what the reference holds, except for expired and for evicted entries, and no
deadline is more than `2 ^ 53` milliseconds away. -/
structure Tracks (s : CacheStore) (last : WithBot ℤ) (evicted : Set JsString) (m : TtlMap) :
    Prop where
  stored : ∀ k e, s.store.get? k = some e → ∃ te, m k = some te ∧ te.Matches e
  near : ∀ k te d, m k = some te → te.deadline = some d →
    ∀ now : ℤ, last ≤ now → d ≤ now + 2 ^ 53
  absent : ∀ k te, s.store.get? k = none → m k = some te →
    (∃ d, te.deadline = some d ∧ (d : WithBot ℤ) ≤ last) ∨ k ∈ evicted

variable {s s' : CacheStore} {c : Clock} {now : ℤ} {last : WithBot ℤ} {evicted evicted' : Set JsString}
  {m : TtlMap} {key : JsString} {ev : TimedEvent} {maxEntries maxMemoryBytes : Option ℕ+}

/-! ### Lookups agree -/

theorem Tracks.lookup_of_live {e : CacheEntry} (h : Tracks s last evicted m)
    (hlive : LiveAt s (Stream'.const now) key e) :
    ∃ te, m.lookup now key = some te ∧ te.Matches e := by
  obtain ⟨te, hm, hmatches⟩ := h.stored key e hlive.1
  refine ⟨te, ?_, hmatches⟩
  rw [TtlMap.lookup, hm, Option.filter_some, if_pos]
  cases hd : te.deadline with
  | none => simp [TtlEntry.visible, hd]
  | some d =>
    have hexp : e.expiresAt = some (d : Deadline) := by rw [hmatches.expiresAt, hd]; rfl
    have hlt := WithTop.coe_lt_coe.1 (hlive.2 d hexp)
    simpa [TtlEntry.visible, hd] using hlt

/-- An entry past its deadline is not visible. -/
theorem TtlEntry.visible_eq_false {te : TtlEntry} {d : ℤ} (hd : te.deadline = some d)
    (hle : d ≤ now) : te.visible now = false := by
  rw [TtlEntry.visible, hd]
  exact decide_eq_false (by omega)

/-- A stored entry past its deadline is not visible in the reference. -/
theorem Tracks.expired (h : Tracks s last evicted m) (hstale : s.Stale key now) :
    ∃ te d, m key = some te ∧ te.deadline = some d ∧ d ≤ now := by
  obtain ⟨e, d, he, hd, hle⟩ := hstale
  obtain ⟨te, hm, hmatches⟩ := h.stored key e he
  obtain ⟨n, hn, rfl⟩ := hmatches.deadline hd
  exact ⟨te, n, hm, hn, WithTop.coe_le_coe.1 hle⟩

theorem lookup_of_expired {te : TtlEntry} {d : ℤ} (hm : m key = some te)
    (hd : te.deadline = some d) (hle : d ≤ now) : m.lookup now key = none := by
  rw [TtlMap.lookup, hm, Option.filter_some, if_neg]
  rw [TtlEntry.visible_eq_false hd hle]
  exact Bool.false_ne_true

theorem Tracks.lookup_of_missing (h : Tracks s last evicted m) (hlast : last ≤ now)
    (hmiss : MissingAt s (Stream'.const now) key s') :
    m.lookup now key = none ∨ key ∈ evicted := by
  rcases hmiss with ⟨-, hnone⟩ | ⟨-, hstale⟩
  · cases hm : m key with
    | none => exact Or.inl (by rw [TtlMap.lookup, hm]; rfl)
    | some te =>
      rcases h.absent key te hnone hm with ⟨d, hd, hle⟩ | hev
      · exact Or.inl (lookup_of_expired hm hd (WithBot.coe_le_coe.1 (hle.trans hlast)))
      · exact Or.inr hev
  · obtain ⟨te, d, hm, hd, hle⟩ := h.expired hstale
    exact Or.inl (lookup_of_expired hm hd hle)

/-! ### One step -/

/-- Nothing but expired entries has gone. -/
def OnlyExpired (s : CacheStore) (now : ℤ) (s' : CacheStore) : Prop :=
  ∀ k, s'.store.get? k = s.store.get? k ∨ (s'.store.get? k = none ∧ s.Stale k now)

theorem Tracks.onlyExpired (h : Tracks s last evicted m) (hlast : last ≤ now)
    (hsub : evicted ⊆ evicted') (hs : OnlyExpired s now s') : Tracks s' now evicted' m where
  stored := by
    intro k e hk
    rcases hs k with heq | ⟨hnone, -⟩
    · exact h.stored k e (heq ▸ hk)
    · rw [hnone] at hk
      cases hk
  near := fun k te d hm hd t ht => h.near k te d hm hd t (hlast.trans ht)
  absent := by
    intro k te hk hm
    rcases hs k with heq | ⟨-, hstale⟩
    · rcases h.absent k te (heq ▸ hk) hm with ⟨d, hd, hle⟩ | hev
      · exact Or.inl ⟨d, hd, hle.trans hlast⟩
      · exact Or.inr (hsub hev)
    · obtain ⟨te', d, hm', hd, hle⟩ := h.expired hstale
      rw [hm] at hm'
      cases hm'
      exact Or.inl ⟨d, hd, WithBot.coe_le_coe.2 hle⟩

theorem MissingAt.onlyExpired (h : MissingAt s (Stream'.const now) key s') :
    OnlyExpired s now s' ∧ s'.store.get? key = none := by
  rcases h with ⟨rfl, hnone⟩ | ⟨rfl, hstale⟩
  · exact ⟨fun _ => Or.inl rfl, hnone⟩
  · obtain ⟨e, d, he, -⟩ := id hstale
    refine ⟨fun k => ?_, by rw [removeStoredKey_store he, OrderedMap.get?_delete_self]⟩
    rw [removeStoredKey_store he]
    by_cases hk : k = key
    · subst hk
      exact Or.inr ⟨OrderedMap.get?_delete_self, hstale⟩
    · exact Or.inl (OrderedMap.get?_delete_of_ne hk)

/-- Deleting a key that the store does not hold from the reference. -/
theorem Tracks.forget (h : Tracks s last evicted m) (hnone : s.store.get? key = none) :
    Tracks s last evicted (Function.update m key none) where
  stored := by
    intro k e hk
    have hne : k ≠ key := by
      rintro rfl
      rw [hnone] at hk
      cases hk
    rw [Function.update_of_ne hne]
    exact h.stored k e hk
  near := by
    intro k te d hm hd
    by_cases hkk : k = key
    · rw [hkk, Function.update_self] at hm
      cases hm
    · rw [Function.update_of_ne hkk] at hm
      exact h.near k te d hm hd
  absent := by
    intro k te hk hm
    by_cases hkk : k = key
    · rw [hkk, Function.update_self] at hm
      cases hm
    · rw [Function.update_of_ne hkk] at hm
      exact h.absent k te hk hm

/-- A successful `set` of `key`, on both sides. -/
theorem Tracks.stored_set {value : JsString} {deadline : Option ℤ} {kept victims : List JsString}
    (h : Tracks s last evicted m) (hlast : last ≤ now) (hs : Sync s)
    (hst : Stored s key value (deadline.map WithTop.some) kept victims s')
    (hnear : ∀ d, deadline = some d → d ≤ now + 2 ^ 53)
    (hsub : ∀ k, k ≠ key → k ∈ evicted → k ∈ evicted')
    (hvict : ∀ k e, k ≠ key → s.LiveAt (Stream'.const now) k e → s'.store.get? k = none →
      k ∈ evicted') :
    Tracks s' now evicted' (Function.update m key (some ⟨value, deadline⟩)) where
  stored := by
    intro k e hk
    rw [hst.get?] at hk
    by_cases hkk : k = key
    · rw [if_pos hkk] at hk
      cases hk
      rw [hkk, Function.update_self]
      exact ⟨_, rfl, rfl, rfl⟩
    · rw [if_neg hkk] at hk
      rw [Function.update_of_ne hkk]
      split_ifs at hk
      exact h.stored k e hk
  near := by
    intro k te d hm hd t ht
    by_cases hkk : k = key
    · rw [hkk, Function.update_self] at hm
      cases hm
      have hle := hnear d hd
      have hnow := WithBot.coe_le_coe.1 ht
      omega
    · rw [Function.update_of_ne hkk] at hm
      exact h.near k te d hm hd t (hlast.trans ht)
  absent := by
    intro k te hk hm
    have hnone := hk
    rw [hst.get?] at hk
    by_cases hkk : k = key
    · rw [if_pos hkk] at hk
      cases hk
    · rw [Function.update_of_ne hkk] at hm
      rw [if_neg hkk] at hk
      split_ifs at hk with hv
      · -- a victim of this call: expired, or evicted
        have hmem : k ∈ s.store.keys := by
          refine hs.mem_order_iff.1 (List.mem_of_mem_erase (b := key) ?_)
          rw [hst.cut.split]
          exact List.mem_append_right _ hv
        obtain ⟨e, he⟩ := OrderedMap.mem_keys_iff.1 hmem
        by_cases hlive : s.LiveAt (Stream'.const now) k e
        · exact Or.inr (hvict k e hkk hlive hnone)
        · simp only [LiveAt, he, true_and, not_forall] at hlive
          obtain ⟨d, hd, hle⟩ := hlive
          obtain ⟨te', n, hm', hn, hle'⟩ := h.expired ⟨e, d, he, hd, not_lt.1 hle⟩
          rw [hm] at hm'
          cases hm'
          exact Or.inl ⟨n, hn, WithBot.coe_le_coe.2 hle'⟩
      · rcases h.absent k te hk hm with ⟨d, hd, hle⟩ | hev
        · exact Or.inl ⟨d, hd, hle.trans hlast⟩
        · exact Or.inr (hsub k hkk hev)

theorem after_of_ok {op : Op} {r : Reply} (hcheck : ev.call.check = .ok op)
    (hr : ev.result = .ok r) : m.after ev = (m.exec ev.now op).2 := by
  simp only [TtlMap.after, hcheck, hr]

theorem after_of_error {e : CacheError} (hr : ev.result = .error e) : m.after ev = m := by
  rw [TtlMap.after, hr]
  cases ev.call.check <;> rfl

/-- The ghost set after an event that is no successful `set`. -/
theorem subset_of_not_sets (h : ∀ k, ¬ ev.Sets k) :
    evicted ⊆ {k | ¬ ev.Sets k ∧ (k ∈ evicted ∨ s.Evicts ev s' k)} :=
  fun k hk => ⟨h k, Or.inl hk⟩

theorem not_sets_of_check {op : Op} (hcheck : ev.call.check = .ok op)
    (hop : ∀ k v ex, op ≠ .set k v ex) : ∀ k, ¬ ev.Sets k := by
  rintro k ⟨v, ex, r, h, -⟩
  rw [hcheck] at h
  cases h
  exact hop k v ex rfl

/-- A successful `set` writes its own key only. -/
theorem sets_iff_of_check {value : JsString} {ex : Option ℤ} {r : Reply}
    (hcheck : ev.call.check = .ok (.set key value ex)) (hr : ev.result = .ok r) (k : JsString) :
    ev.Sets k ↔ k = key := by
  constructor
  · rintro ⟨v, ex', r', hcheck', -⟩
    rw [hcheck] at hcheck'
    cases hcheck'
    rfl
  · rintro rfl
    exact ⟨value, ex, r, hcheck, hr⟩

/-- A removed key is removed from both. -/
theorem Tracks.deleted {e : CacheEntry} (h : Tracks s last evicted m) (hlast : last ≤ now)
    (hget : s.store.get? key = some e) (hsub : evicted ⊆ evicted') :
    Tracks (s.removeStoredKey key .delete).2 now evicted' (Function.update m key none) where
  stored := by
    intro k e' hk
    rw [removeStoredKey_store hget, OrderedMap.get?_delete] at hk
    split_ifs at hk with hkk
    rw [Function.update_of_ne hkk]
    exact h.stored k e' hk
  near := by
    intro k te d hm hd t ht
    by_cases hkk : k = key
    · rw [hkk, Function.update_self] at hm
      cases hm
    · rw [Function.update_of_ne hkk] at hm
      exact h.near k te d hm hd t (hlast.trans ht)
  absent := by
    intro k te hk hm
    by_cases hkk : k = key
    · rw [hkk, Function.update_self] at hm
      cases hm
    · rw [Function.update_of_ne hkk] at hm
      rw [removeStoredKey_store hget, OrderedMap.get?_delete_of_ne hkk] at hk
      rcases h.absent k te hk hm with ⟨d, hd, hle⟩ | hev
      · exact Or.inl ⟨d, hd, hle.trans hlast⟩
      · exact Or.inr (hsub hev)

/-- **Store and reference stay together**: one call keeps `Tracks`. -/
theorem Tracks.step {c' : Clock} (h : Tracks s last evicted m) (hs : Inv s)
    (hexact : ev.Exact) (hlast : last ≤ ev.now)
    (hexec : s.exec (Stream'.const ev.now) ev.call = some (ev.result, s', c')) :
    Tracks s' ev.now {k | ¬ ev.Sets k ∧ (k ∈ evicted ∨ s.Evicts ev s' k)} (m.after ev) := by
  rcases exec_cases hs hexec with ⟨e, hcheck, hr, rfl⟩ | ⟨op, hcheck, heff⟩
  · rw [after_of_error hr]
    refine h.onlyExpired hlast (subset_of_not_sets ?_) fun _ => Or.inl rfl
    rintro k ⟨v, ex, r, hcheck', -⟩
    rw [hcheck] at hcheck'
    cases hcheck'
  · generalize hr : ev.result = r at heff
    have unchanged {t : CacheStore} (hno : ∀ k v ex, op ≠ .set k v ex)
        (hexp : OnlyExpired s ev.now t) (hstore : s'.store = t.store) :
        Tracks s' ev.now {k | ¬ ev.Sets k ∧ (k ∈ evicted ∨ s.Evicts ev s' k)} m :=
      h.onlyExpired hlast (subset_of_not_sets (not_sets_of_check hcheck hno))
        fun k => by rw [hstore]; exact hexp k
    cases heff with
    | tooLarge _ =>
      rw [after_of_error hr]
      refine h.onlyExpired hlast (subset_of_not_sets ?_) fun _ => Or.inl rfl
      rintro k ⟨v, ex, r, -, hr'⟩
      rw [hr] at hr'
      cases hr'
    | @stored key value ex kept victims _ hfit hst =>
      rw [after_of_ok hcheck hr]
      have hsets := sets_iff_of_check hcheck hr
      rw [show (Stream'.const ev.now).head = ev.now from rfl, hexact.map_expiryOf hcheck] at hst
      refine h.stored_set hlast hs.toSync hst (fun _ => hexact.near hcheck)
        (fun k hk hev => ⟨?_, Or.inl hev⟩)
        fun k e hk hlive hnone => ⟨?_, Or.inr ⟨⟨key, (hsets key).2 rfl, hk.symm⟩, ⟨e, hlive⟩, hnone⟩⟩
      · rw [hsets]
        exact hk
      · rw [hsets]
        exact hk
    | hit _ | found _ | timed _ =>
      rw [after_of_ok hcheck hr]
      exact unchanged (fun _ _ _ h => by cases h) (fun _ => Or.inl rfl) rfl
    | miss hmiss | notFound hmiss | notTimed hmiss =>
      rw [after_of_ok hcheck hr]
      exact unchanged (fun _ _ _ h => by cases h) hmiss.onlyExpired.1 rfl
    | deleted hlive =>
      rw [after_of_ok hcheck hr]
      exact h.deleted hlast hlive.1
        (subset_of_not_sets (not_sets_of_check hcheck fun _ _ _ h => by cases h))
    | nothingToDelete hmiss =>
      rw [after_of_ok hcheck hr]
      exact (unchanged (fun _ _ _ h => by cases h) hmiss.onlyExpired.1 rfl).forget
        hmiss.onlyExpired.2
    | swept htrim hstale =>
      rw [after_of_ok hcheck hr]
      refine unchanged (fun _ _ _ h => by cases h) (fun k => ?_) rfl
      rw [htrim.get?]
      split_ifs with hk
      · exact Or.inr ⟨rfl, hstale k hk⟩
      · exact Or.inl rfl

/-! ### Whole runs -/

variable {past : List TimedEvent} {st : TimedStore}

/-- A new store holds nothing, and neither does the reference. -/
theorem tracks_new : Tracks (new maxEntries maxMemoryBytes) ⊥ ∅ TtlMap.empty where
  stored := by
    intro k e hk
    simp [new] at hk
  near := by
    intro k te d hm
    cases hm
  absent := by
    intro k te _ hm
    cases hm

/-- In every run the store and the reference map of the history stay together. -/
theorem reachable_tracks (hrun : (exactSystem maxEntries maxMemoryBytes).Run past st) :
    Inv st.store ∧ Tracks st.store st.last st.evicted (TtlMap.ofHistory past) := by
  induction hrun with
  | start => exact ⟨inv_new maxEntries maxMemoryBytes, tracks_new⟩
  | @snoc past st st' ev _ hstep ih =>
    obtain ⟨⟨⟨c', hexec⟩, hle, hlast, hev⟩, hexact⟩ := hstep
    refine ⟨exec_inv ih.1 hexec, ?_⟩
    rw [hlast, hev]
    exact ih.2.step ih.1 hexact hle hexec

/-- Without limits nothing is evicted. -/
theorem evicts_free {c' : Clock} (hs : Free s)
    (hexec : s.exec (Stream'.const ev.now) ev.call = some (ev.result, s', c')) :
    ¬ s.Evicts ev s' key := by
  rintro ⟨⟨k, ⟨v, ex, r, hcheck, hr⟩, hne⟩, ⟨e, hlive⟩, hnone⟩
  rcases exec_cases hs.toInv hexec with ⟨e', hcheck', -⟩ | ⟨op, hcheck', heff⟩
  · rw [hcheck] at hcheck'
    cases hcheck'
  · rw [hcheck] at hcheck'
    cases hcheck'
    rw [hr] at heff
    cases heff with
    | stored _ hst =>
      obtain rfl := hst.victims_nil hs
      rw [hst.get?, if_neg hne.symm, if_neg (List.not_mem_nil), hlive.1] at hnone
      cases hnone

/-- A live entry has as many seconds left for the store as for the reference. -/
theorem Tracks.remaining_eq {e : CacheEntry} {te : TtlEntry} (h : Tracks s last evicted m)
    (hlast : last ≤ now) (hlive : LiveAt s (Stream'.const now) key e)
    (hm : m.lookup now key = some te) (hmatches : te.Matches e) :
    remaining e now = .int (te.secondsLeft now) := by
  unfold remaining TtlEntry.secondsLeft
  rw [hmatches.expiresAt]
  cases hd : te.deadline with
  | none => rfl
  | some d =>
    have hlt : now < d := WithTop.coe_lt_coe.1 (hlive.2 d (by rw [hmatches.expiresAt, hd]; rfl))
    have hnear := h.near key te d (Option.filter_eq_some_iff.1 hm).1 hd now hlast
    show wholeSeconds (toDouble ((d - now : ℤ) : WithTop ℤ)) = _
    rw [toDouble_small (by omega)]
    exact wholeSeconds_exact (by omega) (by omega)

theorem isPurge_of_check {maxExamined : Option ℕ}
    (hcheck : ev.call.check = .ok (.purgeExpired maxExamined)) : ev.isPurge = true := by
  have map_ne {α : Type} (x : Except CacheError α) (f : α → Op)
      (hf : ∀ a, f a ≠ .purgeExpired maxExamined) : x.map f ≠ .ok (.purgeExpired maxExamined) := by
    cases x with
    | error e => exact fun h => nomatch h
    | ok a => exact fun h => hf a (Except.ok.inj h)
  unfold TimedEvent.isPurge
  cases hcall : ev.call with
  | purgeExpired options => rfl
  | set | get | delete | existsKey | ttl =>
    rw [hcall] at hcheck
    exact absurd hcheck (map_ne _ _ fun _ h => nomatch h)

theorem after_of_isPurge (hp : ev.isPurge = true) : m.after ev = m := by
  unfold TimedEvent.isPurge at hp
  cases hcall : ev.call with
  | purgeExpired options =>
    rw [TtlMap.after, hcall, Call.check]
    cases purgeArguments options <;> cases ev.result <;> rfl
  | set | get | delete | existsKey | ttl =>
    rw [hcall] at hp
    cases hp

/-- Without limits the store answers as the reference does. -/
theorem Tracks.answer {c' : Clock} (h : Tracks s last ∅ m) (hs : Free s) (hlast : last ≤ ev.now)
    (hp : ev.isPurge = false)
    (hexec : s.exec (Stream'.const ev.now) ev.call = some (ev.result, s', c')) :
    ev.result = m.answer ev := by
  rcases exec_cases hs.toInv hexec with ⟨e, hcheck, hr, -⟩ | ⟨op, hcheck, heff⟩
  · rw [TtlMap.answer, hcheck, hr]
    rfl
  · rw [TtlMap.answer, hcheck]
    generalize ev.result = r at heff
    have miss {key : JsString} {t : CacheStore} (hm : MissingAt s (Stream'.const ev.now) key t) :
        m.lookup ev.now key = none :=
      (h.lookup_of_missing hlast hm).resolve_right (Set.notMem_empty key)
    cases heff with
    | tooLarge hlarge => simp [entryTooLarge, hs.noMemoryLimit] at hlarge
    | stored _ _ => rfl
    | hit hlive =>
      obtain ⟨te, hte, hmatches⟩ := h.lookup_of_live hlive
      simp only [Except.map, TtlMap.exec, hte, Option.map_some, hmatches.value]
    | miss hm => simp only [Except.map, TtlMap.exec, miss hm, Option.map_none]
    | deleted hlive =>
      obtain ⟨te, hte, -⟩ := h.lookup_of_live hlive
      simp only [Except.map, TtlMap.exec, hte, Option.isSome_some]
    | nothingToDelete hm => simp only [Except.map, TtlMap.exec, miss hm, Option.isSome_none]
    | found hlive =>
      obtain ⟨te, hte, -⟩ := h.lookup_of_live hlive
      simp only [Except.map, TtlMap.exec, hte, Option.isSome_some]
    | notFound hm => simp only [Except.map, TtlMap.exec, miss hm, Option.isSome_none]
    | @timed key e hlive =>
      obtain ⟨te, hte, hmatches⟩ := h.lookup_of_live hlive
      simp only [Except.map, TtlMap.exec, hte, Option.map_some, Option.getD_some]
      have hleft := h.remaining_eq hlast hlive hte hmatches
      exact congrArg (fun x => Except.ok (Reply.seconds x)) hleft
    | notTimed hm =>
      simp only [Except.map, TtlMap.exec, miss hm, Option.map_none, Option.getD_none]
      rfl
    | swept _ _ =>
      rw [isPurge_of_check hcheck] at hp
      cases hp

/-- What the simulation of an unlimited store by the reference map carries. -/
structure Unlimited (st : TimedStore) (m : TtlMap) : Prop where
  free : Free st.store
  evicted : st.evicted = ∅
  tracks : Tracks st.store st.last st.evicted m

/-- The reference map simulates the unlimited store, a `purgeExpired` being no step at all. -/
theorem simulates_ttlMap : (exactSystem none none).Simulates ttlSystem
    (fun ev => if ev.isPurge then none else some ev) Unlimited where
  init := by
    exact ⟨free_new, rfl, tracks_new⟩
  step := by
    intro st ev st' m h hstep
    obtain ⟨⟨⟨c', hexec⟩, hle, hlast, hev⟩, hexact⟩ := hstep
    have htracks := h.tracks.step h.free.toInv hexact hle hexec
    have hnone : {k | ¬ ev.Sets k ∧ (k ∈ st.evicted ∨ st.store.Evicts ev st'.store k)} = ∅ := by
      rw [h.evicted]
      refine Set.eq_empty_of_forall_notMem fun k hk => ?_
      rcases hk.2 with hk | hk
      · exact hk
      · exact evicts_free h.free hexec hk
    rw [← hev, ← hlast] at htracks
    have hst : Unlimited st' (m.after ev) :=
      ⟨exec_free h.free hexec, hev.trans hnone, htracks⟩
    cases hp : ev.isPurge with
    | true =>
      refine Or.inl ⟨by simp, ?_⟩
      rwa [after_of_isPurge hp] at hst
    | false =>
      refine Or.inr ⟨ev, m.after ev, by simp, ⟨?_, rfl⟩, hst⟩
      exact (h.evicted ▸ h.tracks).answer h.free hle hp hexec

/-- **Expiry is transparent up to `2 ^ 53`.** In histories in which no `set` needs its deadline
rounded the following holds. Without limits, every history of the store without its purges is a
history of the reference map, so every result is the reference's. With limits, a `get` that returns
a value returns the reference's visible value, and a `get` that misses a visible entry asks for a
key evicted since its last successful `set`. -/
theorem refines_ttlMap :
    (∀ past st, (exactSystem none none).Run past st →
      ∃ m, ttlSystem.Run (past.filter fun ev => !ev.isPurge) m) ∧
    ∀ maxEntries maxMemoryBytes past st ev st' key,
      (exactSystem maxEntries maxMemoryBytes).Run past st →
      (exactSystem maxEntries maxMemoryBytes).step st ev st' → ev.call = .get (.string key) →
      (∀ v, ev.result = .ok (.value (some v)) →
        ∃ d, (TtlMap.ofHistory past).lookup ev.now key = some ⟨v, d⟩) ∧
      (ev.result = .ok (.value none) → (TtlMap.ofHistory past).lookup ev.now key ≠ none →
        key ∈ st.evicted) := by
  constructor
  · intro past st hrun
    obtain ⟨m, hm, -⟩ := hrun.simulate simulates_ttlMap
    refine ⟨m, ?_⟩
    have hfilter : (past.filter fun ev => !ev.isPurge) =
        past.filterMap fun ev => if ev.isPurge then none else some ev := by
      rw [← List.filterMap_eq_filter]
      congr 1
      funext ev
      cases hp : ev.isPurge <;> simp [Option.guard, hp]
    rwa [hfilter]
  · rintro maxEntries maxMemoryBytes past st ev st' key hrun ⟨⟨⟨c', hexec⟩, hle, -, -⟩, -⟩ hcall
    obtain ⟨hs, htracks⟩ := reachable_tracks hrun
    rcases exec_cases hs hexec with ⟨e, -, hr, -⟩ | ⟨op, hcheck, heff⟩
    · rw [hr]
      exact ⟨fun v h => (by cases h), fun h => by cases h⟩
    · obtain rfl : op = .get key := by
        rw [hcall] at hcheck
        obtain ⟨k, hkey, rfl⟩ := map_eq_ok_iff.1 hcheck
        rw [JsValue.string.inj (assertValidKey_eq_ok_iff.1 hkey).1]
      generalize ev.result = r at heff
      generalize st'.store = s' at heff
      cases heff with
      | hit hlive =>
        refine ⟨fun v hv => ?_, fun h => by cases h⟩
        cases hv
        obtain ⟨⟨v, d⟩, hte, hmatches⟩ := htracks.lookup_of_live hlive
        obtain rfl : v = _ := hmatches.value
        exact ⟨d, hte⟩
      | miss hmiss =>
        refine ⟨fun v h => (by cases h), fun _ hvis => ?_⟩
        exact (htracks.lookup_of_missing hle hmiss).resolve_left hvis

/-- What a call returns is a step of the timed store. -/
theorem timed_step {st : TimedStore} {c' : Clock}
    (hexec : st.store.exec (Stream'.const ev.now) ev.call = some (ev.result, s', c'))
    (hlast : st.last ≤ ev.now) : (timedSystem maxEntries maxMemoryBytes).step st ev
      ⟨s', ev.now, {k | ¬ ev.Sets k ∧ (k ∈ st.evicted ∨ st.store.Evicts ev s' k)}⟩ :=
  ⟨⟨c', hexec⟩, hlast, rfl, rfl⟩

/-- A deadline above `2 ^ 53`: one millisecond later the remaining time is rounded up to the whole
`9007199254742` seconds, of which the reference map has one less. -/
theorem ttl_rounded : ∃ past st, (timedSystem none none).Run past st ∧
    past.map TimedEvent.call = [.ttl (.string (js "k")),
      .set (.string (js "k")) (.string (js "v"))
        (.object (.number (.int 9007199254742)) .undefined)] ∧
    past.map TimedEvent.now = [1, 0] ∧
    past.map TimedEvent.result = [.ok (.seconds (.int 9007199254742)), .ok .done] ∧
    ¬ ∃ m, ttlSystem.Run (past.filter fun ev => !ev.isPurge) m := by
  let set : TimedEvent := ⟨0, .set (.string (js "k")) (.string (js "v"))
    (.object (.number (.int 9007199254742)) .undefined), .ok .done⟩
  let ttl : TimedEvent := ⟨1, .ttl (.string (js "k")), .ok (.seconds (.int 9007199254742))⟩
  obtain ⟨s, _, hset, hfree, hget⟩ :=
    exec_keyed free_new (Stream'.const set.now) (rfl : set.call.check = .ok (.set _ _ _)) rfl
  obtain ⟨s', _, httl, -, -⟩ :=
    exec_keyed hfree (Stream'.const ttl.now) (rfl : ttl.call.check = .ok (.ttl (js "k"))) rfl
  have hanswer : (entryStep (Stream'.const ttl.now) (s.store.get? (js "k")) (.ttl (js "k"))).1 =
      .seconds (.int 9007199254742) := by
    rw [hget, if_pos rfl]
    decide +kernel
  rw [hanswer] at httl
  have h₀ : (timedSystem none none).Run [] ⟨new none none, ⊥, ∅⟩ := .start
  have h₁ := h₀.snoc (timed_step hset bot_le)
  have h₂ := h₁.snoc (timed_step httl (WithBot.coe_le_coe.2 (by decide)))
  refine ⟨[ttl, set], _, h₂, rfl, rfl, rfl, ?_⟩
  rintro ⟨m, hrun⟩
  cases hrun with
  | snoc hset httl =>
    cases hset with
    | snoc hstart hset =>
      cases hstart
      obtain ⟨-, rfl⟩ := hset
      exact absurd httl.1 (by decide)

end CacheStore
end DistributedCache
