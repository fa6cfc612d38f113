import DistributedCache.CacheCore.Invariant

/-!
# Errors leave the store untouched

`Call.Valid` says in words of the arguments what the assertions of `limits.js` and the option checks
accept. On every reachable state a call throws exactly when its arguments are not valid, or when it
is a `set` whose entry alone exceeds the memory limit, and whatever throws leaves the whole state as
it was (`throws_iff`). The second `ENTRY_TOO_LARGE`, which would come after evictions, is dead code
(`ensureCapacity_ok`).
-/

namespace DistributedCache

/-- The options that `set` accepts: none, or an object whose `ex` is absent or a positive integer. -/
def ValidSetOptions (options : JsValue) : Prop :=
  options = .undefined ∨ ∃ ex m, options = .object ex m ∧
    (ex = .undefined ∨ ∃ n, ex = .number (.int n) ∧ 0 < n)

/-- The options that `purgeExpired` accepts: none, or an object whose `maxExamined` is absent,
`null`, `Infinity` or a positive integer. -/
def ValidPurgeOptions (options : JsValue) : Prop :=
  options = .undefined ∨ ∃ ex m, options = .object ex m ∧
    (m = .undefined ∨ m = .null ∨ m = .number .infinity ∨ ∃ n, m = .number (.int n) ∧ 0 < n)

/-- Arguments that pass the checks of a call. -/
def Call.Valid : Call → Prop
  | .set key value options =>
      (∃ k, key = .string k ∧ ValidKey k) ∧ (∃ v, value = .string v ∧ ValidValue v) ∧
        ValidSetOptions options
  | .get key | .delete key | .existsKey key | .ttl key => ∃ k, key = .string k ∧ ValidKey k
  | .purgeExpired options => ValidPurgeOptions options

theorem assertValidKey_ok_iff (v : JsValue) :
    (∃ k, assertValidKey v = .ok k) ↔ ∃ k, v = .string k ∧ ValidKey k := by
  simp only [assertValidKey_eq_ok_iff]

namespace CacheStore

theorem setArguments_ok_iff (key value options : JsValue) :
    (∃ a, setArguments key value options = .ok a) ↔
      (∃ k, key = .string k ∧ ValidKey k) ∧ (∃ v, value = .string v ∧ ValidValue v) ∧
        ValidSetOptions options := by
  unfold setArguments
  constructor
  · rintro ⟨a, h⟩
    cases hk : assertValidKey key with
    | error e => rw [hk] at h; cases h
    | ok k =>
      cases hv : assertValidValue value with
      | error e => rw [hk, hv] at h; cases h
      | ok v =>
        cases ho : plainObject options with
        | error e => rw [hk, hv, ho] at h; cases h
        | ok o =>
          obtain ⟨ex, m⟩ := o
          have hex : ex = .undefined ∨ ∃ n, ex = .number (.int n) ∧ 0 < n := by
            by_cases hu : ex = .undefined
            · exact Or.inl hu
            · cases hx : assertValidEx ex with
              | error e =>
                rw [hk, hv, ho] at h
                simp only [bind, Except.bind, hu, if_false, hx] at h
                cases h
              | ok n => exact Or.inr ⟨n, assertValidEx_eq_ok_iff.1 hx⟩
          refine ⟨⟨k, assertValidKey_eq_ok_iff.1 hk⟩, ⟨v, assertValidValue_eq_ok_iff.1 hv⟩, ?_⟩
          rcases plainObject_eq_ok_iff.1 ho with rfl | ⟨rfl, -, -⟩
          · exact Or.inr ⟨ex, m, rfl, hex⟩
          · exact Or.inl rfl
  · rintro ⟨⟨k, hk⟩, ⟨v, hv⟩, ho⟩
    rw [assertValidKey_eq_ok_iff.2 hk, assertValidValue_eq_ok_iff.2 hv]
    rcases ho with rfl | ⟨ex, m, rfl, rfl | ⟨n, hn⟩⟩
    · exact ⟨_, rfl⟩
    · exact ⟨_, rfl⟩
    · refine ⟨(k, v, some n), ?_⟩
      have hne : ex ≠ .undefined := by
        rw [hn.1]
        exact fun h => nomatch h
      simp only [bind, Except.bind, plainObject, if_neg hne, assertValidEx_eq_ok_iff.2 hn]
      rfl

theorem purgeArguments_ok_iff (options : JsValue) :
    (∃ a, purgeArguments options = .ok a) ↔ ValidPurgeOptions options := by
  unfold purgeArguments
  constructor
  · rintro ⟨a, h⟩
    cases ho : plainObject options with
    | error e => rw [ho] at h; cases h
    | ok o =>
      obtain ⟨ex, m⟩ := o
      rw [ho] at h
      simp only [bind, Except.bind] at h
      rcases plainObject_eq_ok_iff.1 ho with rfl | ⟨rfl, -, -⟩
      · refine Or.inr ⟨ex, m, rfl, ?_⟩
        split at h
        · exact Or.inl rfl
        · exact Or.inr (Or.inl rfl)
        · exact Or.inr (Or.inr (Or.inl rfl))
        · rename_i n
          split_ifs at h with hn
          exact Or.inr (Or.inr (Or.inr ⟨n, rfl, by omega⟩))
        · cases h
      · exact Or.inl rfl
  · rintro (rfl | ⟨ex, m, rfl, rfl | rfl | rfl | ⟨n, rfl, hn⟩⟩)
    · exact ⟨_, rfl⟩
    · exact ⟨_, rfl⟩
    · exact ⟨_, rfl⟩
    · exact ⟨_, rfl⟩
    · refine ⟨some n.toNat, ?_⟩
      simp only [bind, Except.bind, plainObject, if_neg (show ¬ n ≤ 0 by omega)]
      rfl

/-- The checks of a call accept exactly the valid arguments. -/
theorem check_ok_iff (call : Call) : (∃ op, call.check = .ok op) ↔ call.Valid := by
  have map_ok {α : Type} (x : Except CacheError α) (f : α → Op) :
      (∃ op, x.map f = .ok op) ↔ ∃ a, x = .ok a := by
    cases x with
    | error e => exact iff_of_false (fun ⟨_, h⟩ => nomatch h) fun ⟨_, h⟩ => nomatch h
    | ok a => exact ⟨fun _ => ⟨a, rfl⟩, fun _ => ⟨f a, rfl⟩⟩
  cases call with
  | set key value options => exact (map_ok _ _).trans (setArguments_ok_iff key value options)
  | get key => exact (map_ok _ _).trans (assertValidKey_ok_iff key)
  | delete key => exact (map_ok _ _).trans (assertValidKey_ok_iff key)
  | existsKey key => exact (map_ok _ _).trans (assertValidKey_ok_iff key)
  | ttl key => exact (map_ok _ _).trans (assertValidKey_ok_iff key)
  | purgeExpired options => exact (map_ok _ _).trans (purgeArguments_ok_iff options)

variable {s s' : CacheStore} {c : Clock} {past : List CallEvent}
  {maxEntries maxMemoryBytes : Option ℕ+}

/-- A `set` whose entry alone exceeds the memory limit. -/
def Oversized (s : CacheStore) (call : Call) : Prop :=
  ∃ k v ex n, call.check = .ok (.set k v ex) ∧ s.maxMemoryBytes = some n ∧
    (n : ℕ) < entrySizeBytes k v

theorem entryTooLarge_iff (s : CacheStore) (sizeBytes : ℕ) :
    s.entryTooLarge sizeBytes = true ↔ ∃ n, s.maxMemoryBytes = some n ∧ (n : ℕ) < sizeBytes := by
  unfold entryTooLarge
  cases s.maxMemoryBytes with
  | none => simp
  | some n => simp

/-- An operation throws exactly when it is an oversized `set`, and then changes nothing. -/
theorem Effect.error_iff {call : Call} {op : Op} {r : Except CacheError Reply}
    (h : Effect s c op r s') (hcheck : call.check = .ok op) :
    ((∃ e, r = .error e) ↔ Oversized s call) ∧ ((∃ e, r = .error e) → s' = s) := by
  by_cases hset : ∃ k v ex, op = .set k v ex
  · obtain ⟨k, v, ex, rfl⟩ := hset
    cases h with
    | tooLarge hlarge =>
      obtain ⟨n, hn, hlt⟩ := (entryTooLarge_iff s _).1 hlarge
      exact ⟨⟨fun _ => ⟨k, v, ex, n, hcheck, hn, hlt⟩, fun _ => ⟨_, rfl⟩⟩, fun _ => rfl⟩
    | stored hfit _ =>
      refine ⟨iff_of_false (fun ⟨_, h⟩ => nomatch h) ?_, fun ⟨_, h⟩ => nomatch h⟩
      rintro ⟨k', v', ex', n, hcheck', hn, hlt⟩
      rw [hcheck] at hcheck'
      cases hcheck'
      rw [(entryTooLarge_iff s _).2 ⟨n, hn, hlt⟩] at hfit
      cases hfit
  · have hno : ¬ Oversized s call := by
      rintro ⟨k, v, ex, n, hcheck', -⟩
      rw [hcheck] at hcheck'
      cases hcheck'
      exact hset ⟨k, v, ex, rfl⟩
    have hok : ¬ ∃ e, r = .error e := by
      rintro ⟨e, rfl⟩
      cases h with
      | tooLarge _ => exact hset ⟨_, _, _, rfl⟩
    exact ⟨iff_of_false hok hno, fun h => absurd h hok⟩

/-- After the lookup that drops a stale copy, `ensureCapacity` never throws in a `set` that passed
the `ENTRY_TOO_LARGE` test: the second test is dead code. -/
theorem ensureCapacity_ok (hs : Inv s) (c : Clock) (k v : JsString)
    (hfit : s.entryTooLarge (entrySizeBytes k v) = false) :
    ∃ s' c', (s.getLiveEntry c k).2.1.ensureCapacity (s.getLiveEntry c k).2.2 k
      ((s.getLiveEntry c k).2.1.store.get? k).isNone (entrySizeBytes k v)
      ((((s.getLiveEntry c k).2.1.store.get? k).map CacheEntry.sizeBytes).getD 0) =
        some (.ok (), s', c') := by
  have hfull : s.store.get? k ≠ none → FitsEntries s (s.lru.order.erase k) := by
    intro hne n hn
    exact hs.toSync.length_erase_le hne (hs.entries n hn)
  obtain ⟨kept, victims, s', c', hrun, -⟩ := @setEntry_spec s k v hs.toSync c none hfull hfit
  simp only [setEntry] at hrun
  split at hrun
  · rename_i s₁ c₁ h
    exact ⟨s₁, c₁, h⟩
  · rename_i h
    exact absurd hrun (h s' c')

/-- **Errors leave the store untouched.** On every reachable state every call returns; it throws
exactly when its arguments are not valid or it is an oversized `set`; when it throws the state is
exactly what it was; and the second `ENTRY_TOO_LARGE` is never thrown. -/
theorem throws_iff (hrun : (system maxEntries maxMemoryBytes).Run past s) (c : Clock) (call : Call) :
    (∃ r s' c', s.exec c call = some (r, s', c') ∧
      ((∃ e, r = .error e) ↔ ¬ call.Valid ∨ Oversized s call) ∧
      ((∃ e, r = .error e) → s' = s)) ∧
    ∀ k v, s.entryTooLarge (entrySizeBytes k v) = false →
      ∃ s' c', (s.getLiveEntry c k).2.1.ensureCapacity (s.getLiveEntry c k).2.2 k
        ((s.getLiveEntry c k).2.1.store.get? k).isNone (entrySizeBytes k v)
        ((((s.getLiveEntry c k).2.1.store.get? k).map CacheEntry.sizeBytes).getD 0) =
          some (.ok (), s', c') := by
  have hs := reachable_inv hrun
  refine ⟨?_, fun k v hfit => ensureCapacity_ok hs c k v hfit⟩
  obtain ⟨r, s', c', hexec, hcases⟩ := exec_returns hs c call
  refine ⟨r, s', c', hexec, ?_⟩
  rcases hcases with ⟨e, hcheck, rfl, rfl⟩ | ⟨op, hcheck, heff⟩
  · have hinvalid : ¬ call.Valid := by
      rw [← check_ok_iff]
      rintro ⟨op, h⟩
      rw [hcheck] at h
      cases h
    exact ⟨iff_of_true ⟨e, rfl⟩ (Or.inl hinvalid), fun _ => rfl⟩
  · obtain ⟨hiff, hsame⟩ := heff.error_iff hcheck
    have hvalid : call.Valid := (check_ok_iff call).1 ⟨op, hcheck⟩
    refine ⟨hiff.trans ⟨Or.inr, ?_⟩, hsame⟩
    rintro (h | h)
    · exact absurd hvalid h
    · exact h

/-- With room for four bytes, a `set` of seven throws and leaves the one entry stored before. -/
theorem throws_iff_example : ∃ past s r s' c', (system none (some 4)).Run past s ∧
    s.lru.order = [js "a"] ∧
    s.exec (Stream'.const 0) (.set (.string (js "bb")) (.string (js "12345")) .undefined) =
      some (r, s', c') ∧ (∃ e, r = .error e) ∧ s' = s := by
  have hrun : (system none (some 4)).Run
      [⟨Stream'.const 0, .set (.string (js "a")) (.string (js "1")) .undefined, .ok .done⟩] _ :=
    .snoc .start ⟨_, rfl⟩
  obtain ⟨⟨r, s', c', hexec, hiff, hsame⟩, -⟩ := throws_iff hrun (Stream'.const 0)
    (.set (.string (js "bb")) (.string (js "12345")) .undefined)
  have hthrows := hiff.2 (Or.inr ⟨js "bb", js "12345", none, 4, rfl, rfl, by decide⟩)
  exact ⟨_, _, r, s', c', hrun, rfl, hexec, hthrows, hsame hthrows⟩

end CacheStore
end DistributedCache
