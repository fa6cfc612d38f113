import DistributedCache.Lib.Result
import DistributedCache.CacheCore.Eviction

/-!
# What a call can do

`Call.check` is the argument validation of a call; a call that passes it is an `Op`. `Effect s c op
r s'` lists everything an `Op` can do to a store at the clock `c`: its result `r` and the store `s'`
it leaves. `exec_of_check_error` and `exec_of_check_ok` say that `exec` does nothing else, and that
it always returns on a store whose three structures agree and whose entry limit holds.
-/

namespace DistributedCache

/-- A call whose arguments have been checked. -/
inductive Op
  | set (key value : JsString) (ex : Option ℤ)
  | get (key : JsString)
  | delete (key : JsString)
  | existsKey (key : JsString)
  | ttl (key : JsString)
  | purgeExpired (maxExamined : Option ℕ)
  deriving DecidableEq, Repr

/-- The argument validation of a call. -/
def Call.check : Call → Except CacheError Op
  | .set key value options =>
      (CacheStore.setArguments key value options).map fun a => .set a.1 a.2.1 a.2.2
  | .get key => (assertValidKey key).map .get
  | .delete key => (assertValidKey key).map .delete
  | .existsKey key => (assertValidKey key).map .existsKey
  | .ttl key => (assertValidKey key).map .ttl
  | .purgeExpired options => (CacheStore.purgeArguments options).map .purgeExpired

namespace CacheStore

/-- `key` is stored with entry `e`, which has not expired at the next reading. -/
def LiveAt (s : CacheStore) (c : Clock) (key : JsString) (e : CacheEntry) : Prop :=
  s.store.get? key = some e ∧ ∀ d, e.expiresAt = some d → c.head < d

/-- `key` is not stored, or stored with an entry that has expired; in the second case `s'` is the
store after the lazy purge. -/
def MissingAt (s : CacheStore) (c : Clock) (key : JsString) (s' : CacheStore) : Prop :=
  (s' = s ∧ s.store.get? key = none) ∨
    (s' = (s.removeStoredKey key .expire).2 ∧ s.Stale key c.head)

/-- The seconds that `ttl` answers for a live entry, at the second reading it takes. -/
def remaining (e : CacheEntry) (now : ℤ) : JsNumber :=
  match e.expiresAt with
  | none => TTL_NO_EXPIRY
  | some d => wholeSeconds (toDouble (d.map (· - now)))

theorem remaining_cases (e : CacheEntry) (now : ℤ) :
    (∃ n, remaining e now = .int n ∧ IsDouble n) ∨ remaining e now = .infinity := by
  unfold remaining
  split
  · exact Or.inl ⟨_, rfl, isDouble_of_natAbs_le (by decide)⟩
  · exact wholeSeconds_cases _

/-- Everything an operation can do. -/
inductive Effect (s : CacheStore) (c : Clock) : Op → Except CacheError Reply → CacheStore → Prop
  | tooLarge {key value : JsString} {ex : Option ℤ}
      (hlarge : s.entryTooLarge (entrySizeBytes key value) = true) :
      Effect s c (.set key value ex)
        (.error (s.entryTooLargeError (entrySizeBytes key value))) s
  | stored {key value : JsString} {ex : Option ℤ} {kept victims : List JsString} {s' : CacheStore}
      (hfit : s.entryTooLarge (entrySizeBytes key value) = false)
      (h : Stored s key value (ex.map (expiryOf c.head)) kept victims s') :
      Effect s c (.set key value ex) (.ok .done) s'
  | hit {key : JsString} {e : CacheEntry} (h : LiveAt s c key e) :
      Effect s c (.get key) (.ok (.value (some e.value)))
        { s with lru := s.lru.touch key, hits := s.hits + 1 }
  | miss {key : JsString} {s' : CacheStore} (h : MissingAt s c key s') :
      Effect s c (.get key) (.ok (.value none)) { s' with misses := s'.misses + 1 }
  | deleted {key : JsString} {e : CacheEntry} (h : LiveAt s c key e) :
      Effect s c (.delete key) (.ok (.flag true)) (s.removeStoredKey key .delete).2
  | nothingToDelete {key : JsString} {s' : CacheStore} (h : MissingAt s c key s') :
      Effect s c (.delete key) (.ok (.flag false)) s'
  | found {key : JsString} {e : CacheEntry} (h : LiveAt s c key e) :
      Effect s c (.existsKey key) (.ok (.flag true)) s
  | notFound {key : JsString} {s' : CacheStore} (h : MissingAt s c key s') :
      Effect s c (.existsKey key) (.ok (.flag false)) s'
  | timed {key : JsString} {e : CacheEntry} (h : LiveAt s c key e) :
      Effect s c (.ttl key) (.ok (.seconds (remaining e c.tail.head))) s
  | notTimed {key : JsString} {s' : CacheStore} (h : MissingAt s c key s') :
      Effect s c (.ttl key) (.ok (.seconds TTL_KEY_MISSING)) s'
  | swept {maxExamined : Option ℕ} {victims : List JsString} {s' : CacheStore} {cursor : ℕ}
      (htrim : Trimmed s victims s') (hstale : ∀ k ∈ victims, s.Stale k c.head) :
      Effect s c (.purgeExpired maxExamined) (.ok (.purged victims.length))
        { s' with sweepCursor := cursor }

variable {s : CacheStore} {c : Clock}

/-- The two answers of a lookup. -/
theorem getLiveEntry_live_or_missing (s : CacheStore) (c : Clock) (key : JsString) :
    (∃ e c', s.getLiveEntry c key = (some e, s, c') ∧ LiveAt s c key e ∧
      (e.expiresAt ≠ none → c' = c.tail)) ∨
    (∃ s' c', s.getLiveEntry c key = (none, s', c') ∧ MissingAt s c key s') := by
  rcases s.getLiveEntry_cases c key with ⟨e, c', h, he, hlive, hc⟩ | ⟨h, he⟩ | ⟨h, hstale⟩
  · exact Or.inl ⟨e, c', h, ⟨he, hlive⟩, hc⟩
  · exact Or.inr ⟨s, c, h, Or.inl ⟨rfl, he⟩⟩
  · exact Or.inr ⟨_, _, h, Or.inr ⟨rfl, hstale⟩⟩

/-! ### The sweep -/

/-- One turn of the sweep removes the examined key if it has expired, and nothing else. -/
theorem sweepKey_trimmed (hs : Sync s) (now : ℤ) (key : JsString) (purged : ℕ) :
    ∃ victims, Trimmed s victims (sweepKey now key s purged).1 ∧
      (∀ k ∈ victims, s.Stale k now) ∧
      (sweepKey now key s purged).2 = purged + victims.length := by
  unfold sweepKey
  split
  · rename_i v d n he
    split_ifs with hd
    · refine ⟨[key], trimmed_removeStoredKey hs he .expire, ?_, rfl⟩
      intro k hk
      rw [List.mem_singleton.1 hk]
      exact ⟨_, d, he, rfl, hd⟩
    · exact ⟨[], Trimmed.refl hs, by simp, rfl⟩
  · exact ⟨[], Trimmed.refl hs, by simp, rfl⟩

/-- The sweep removes expired keys only, each counted once. -/
theorem sweepLoop_trimmed (now : ℤ) (keys : List JsString) (cursor left i : ℕ) (hs : Sync s)
    (purged : ℕ) :
    ∃ victims, Trimmed s victims (sweepLoop now keys cursor left i s purged).1 ∧
      (∀ k ∈ victims, s.Stale k now) ∧
      (sweepLoop now keys cursor left i s purged).2 = purged + victims.length := by
  induction left generalizing i s purged with
  | zero => exact ⟨[], Trimmed.refl hs, by simp, rfl⟩
  | succ left ih =>
    rw [sweepLoop]
    split
    · exact ih (i + 1) hs purged
    · rename_i key _
      obtain ⟨vs, htrim, hstale, hcount⟩ := sweepKey_trimmed hs now key purged
      obtain ⟨ws, htrim', hstale', hcount'⟩ :=
        ih (i + 1) htrim.sync (sweepKey now key s purged).2
      refine ⟨ws ++ vs, htrim.trans htrim', ?_, ?_⟩
      · intro k hk
        rcases List.mem_append.1 hk with hk | hk
        · obtain ⟨e, d, he, hd, hle⟩ := hstale' k hk
          rw [htrim.get?] at he
          split_ifs at he
          exact ⟨e, d, he, hd, hle⟩
        · exact hstale k hk
      · rw [hcount', hcount, List.length_append]
        omega

/-! ### Every call -/

/-- A call whose arguments are rejected throws and changes nothing. -/
theorem exec_of_check_error {call : Call} {e : CacheError} (h : call.check = .error e) :
    s.exec c call = some (.error e, s, c) := by
  cases call with
  | set key value options =>
    simp [exec, set, map_eq_error_iff.1 h, Outcome.map, Except.map]
  | purgeExpired options =>
    simp [exec, purgeExpired, map_eq_error_iff.1 h, Outcome.map, Except.map]
  | get key | delete key | existsKey key | ttl key =>
    simp [exec, get, delete, existsKey, ttl, map_eq_error_iff.1 h, Outcome.map, Except.map]

/-- `set` past its argument validation. -/
theorem exec_set_ok {key value options : JsValue} {key' value' : JsString} {ex : Option ℤ}
    (hs : Sync s) (hfull : ∀ n, s.maxEntries = some n → s.store.size ≤ (n : ℕ)) (c : Clock)
    (hargs : setArguments key value options = .ok (key', value', ex)) :
    ∃ r s' c', s.exec c (.set key value options) = some (r, s', c') ∧
      Effect s c (.set key' value' ex) r s' := by
  cases hlarge : s.entryTooLarge (entrySizeBytes key' value') with
  | true =>
    exact ⟨_, s, if ex.isSome then c.tail else c, by simp only [exec, set, hargs, hlarge, if_true,
      Outcome.map, Option.map_some, Except.map], .tooLarge hlarge⟩
  | false =>
    obtain ⟨kept, victims, s', c', hrun, hstored⟩ :=
      setEntry_spec hs (if ex.isSome then c.tail else c) (ex.map (expiryOf c.head))
        (fun hne n hn => hs.length_erase_le hne (hfull n hn)) hlarge
    exact ⟨_, s', c', by simp only [exec, set, hargs, hlarge, Bool.false_eq_true, if_false,
      hrun, Outcome.map, Option.map_some, Except.map], .stored hlarge hstored⟩

/-- `ttl` past its argument validation; it reads the clock again for an entry with a deadline. -/
theorem exec_ttl_ok {key : JsValue} {k : JsString} (s : CacheStore) (c : Clock)
    (hkey : assertValidKey key = .ok k) :
    ∃ r s' c', s.exec c (.ttl key) = some (r, s', c') ∧ Effect s c (.ttl k) r s' := by
  rcases s.getLiveEntry_live_or_missing c k with ⟨e, c', hl, hlive, hc⟩ | ⟨s', c', hl, hmiss⟩
  · have heff := Effect.timed hlive
    obtain ⟨v, d, n⟩ := e
    cases d with
    | none =>
      exact ⟨_, _, c', by simp only [exec, ttl, hkey, hl, Outcome.map, Option.map_some,
        Except.map, remaining], heff⟩
    | some d =>
      obtain rfl := hc (by simp)
      exact ⟨_, _, c.tail.tail, by simp only [exec, ttl, hkey, hl, Outcome.map, Option.map_some,
        Except.map, remaining], heff⟩
  · exact ⟨_, _, c', by simp only [exec, ttl, hkey, hl, Outcome.map, Option.map_some,
      Except.map], .notTimed hmiss⟩

/-- `purgeExpired` past its argument validation. -/
theorem exec_purge_ok {options : JsValue} {maxExamined : Option ℕ} (hs : Sync s) (c : Clock)
    (hargs : purgeArguments options = .ok maxExamined) :
    ∃ r s' c', s.exec c (.purgeExpired options) = some (r, s', c') ∧
      Effect s c (.purgeExpired maxExamined) r s' := by
  by_cases hsize : s.store.size = 0
  · refine ⟨_, { s with sweepCursor := 0 }, c, ?_, .swept (Trimmed.refl hs) (by simp)⟩
    simp only [exec, purgeExpired, hargs, if_pos hsize, Outcome.map, Option.map_some, Except.map,
      List.length_nil]
  · -- the cursor moves on from the length of the old snapshot
    set count := sweepCount maxExamined s.store.keys.length
    obtain ⟨victims, htrim, hstale, hcount⟩ :=
      sweepLoop_trimmed c.head s.store.keys s.sweepCursor count 0 hs 0
    set swept := sweepLoop c.head s.store.keys s.sweepCursor count 0 s 0 with hswept
    have hrun : s.exec c (.purgeExpired options) = some (.ok (.purged swept.2),
        { swept.1 with sweepCursor :=
            if swept.1.store.size = 0 then 0
            else (s.sweepCursor + count) % s.store.keys.length }, c.tail) := by
      simp only [exec, purgeExpired, hargs, if_neg hsize, Outcome.map, Option.map_some,
        Except.map, hswept, count]
    rw [hcount, Nat.zero_add] at hrun
    exact ⟨_, _, c.tail, hrun, .swept htrim hstale⟩

/-- A call whose arguments are accepted returns, and its effect is listed. -/
theorem exec_of_check_ok {call : Call} {op : Op} (hs : Sync s)
    (hfull : ∀ n, s.maxEntries = some n → s.store.size ≤ (n : ℕ)) (h : call.check = .ok op) :
    ∃ r s' c', s.exec c call = some (r, s', c') ∧ Effect s c op r s' := by
  cases call with
  | set key value options =>
    obtain ⟨⟨key', value', ex⟩, hargs, rfl⟩ := map_eq_ok_iff.1 h
    exact exec_set_ok hs hfull c hargs
  | get key =>
    obtain ⟨k, hkey, rfl⟩ := map_eq_ok_iff.1 h
    rcases s.getLiveEntry_live_or_missing c k with ⟨e, c', hl, hlive, -⟩ | ⟨s', c', hl, hmiss⟩
    · exact ⟨_, _, c', by simp only [exec, get, hkey, hl, Outcome.map, Option.map_some,
        Except.map], .hit hlive⟩
    · exact ⟨_, _, c', by simp only [exec, get, hkey, hl, Outcome.map, Option.map_some,
        Except.map], .miss hmiss⟩
  | delete key =>
    obtain ⟨k, hkey, rfl⟩ := map_eq_ok_iff.1 h
    rcases s.getLiveEntry_live_or_missing c k with ⟨e, c', hl, hlive, -⟩ | ⟨s', c', hl, hmiss⟩
    · exact ⟨_, _, c', by simp only [exec, delete, hkey, hl, Outcome.map, Option.map_some,
        Except.map, removeStoredKey_fst hlive.1], .deleted hlive⟩
    · exact ⟨_, _, c', by simp only [exec, delete, hkey, hl, Outcome.map, Option.map_some,
        Except.map], .nothingToDelete hmiss⟩
  | existsKey key =>
    obtain ⟨k, hkey, rfl⟩ := map_eq_ok_iff.1 h
    rcases s.getLiveEntry_live_or_missing c k with ⟨e, c', hl, hlive, -⟩ | ⟨s', c', hl, hmiss⟩
    · exact ⟨_, _, c', by simp only [exec, existsKey, hkey, hl, Outcome.map, Option.map_some,
        Except.map, Option.isSome_some], .found hlive⟩
    · exact ⟨_, _, c', by simp only [exec, existsKey, hkey, hl, Outcome.map, Option.map_some,
        Except.map, Option.isSome_none], .notFound hmiss⟩
  | ttl key =>
    obtain ⟨k, hkey, rfl⟩ := map_eq_ok_iff.1 h
    exact exec_ttl_ok s c hkey
  | purgeExpired options =>
    obtain ⟨maxExamined, hargs, rfl⟩ := map_eq_ok_iff.1 h
    exact exec_purge_ok hs c hargs

end CacheStore
end DistributedCache
