import Mathlib.Data.Stream.Init
import Mathlib.Data.PNat.Basic
import DistributedCache.Lib.OrderedMap
import DistributedCache.Js.Double
import DistributedCache.CacheCore.Limits
import DistributedCache.CacheCore.LruList

/-!
# The cache store

`packages/cache-core/src/cache-store.js`. A call takes the store and the readings that the injected
clock is going to return, one for each `this.now()` the call makes, and gives back what the caller
sees, the new store and the readings that are left.

* `CacheStore`, `CacheEntry`, `Clock`; `expiryOf` and `wholeSeconds`, the arithmetic on deadlines;
* `removeStoredKey`, `getLiveEntry`, `evictOne`, the two eviction loops (`evictWhile`) and
  `ensureCapacity`;
* `set`, `get`, `delete`, `existsKey`, `ttl`, `purgeExpired`, and `exec`, which runs one `Call`.

A `while` loop of the source is run on fuel. `none` stands for a loop that outlives its fuel; the
fuel is one more than the number of keys, and `Eviction` shows that no reachable store uses it up.
-/

namespace DistributedCache

/-- The readings of the injected clock still to come. -/
abbrev Clock := Stream' ℤ

/-- A deadline in milliseconds; `⊤` is `Infinity`. -/
abbrev Deadline := WithTop ℤ

/-- The deadline of an entry set at the reading `now`: `this.now() + options.ex * 1000`. -/
def expiryOf (now ex : ℤ) : Deadline := toDouble (now + toDouble ((ex * 1000 : ℤ) : WithTop ℤ))

/-- `Math.max(0, Math.floor(remainingMs / 1000))`. -/
def wholeSeconds : WithTop ℤ → JsNumber
  | ⊤ => .infinity
  | (remainingMs : ℤ) => .int (max 0 (Rounding.floorQuotient 53 remainingMs 1000))

/-- A later reading gives no earlier deadline. -/
theorem expiryOf_mono {now now' : ℤ} (h : now ≤ now') (ex : ℤ) :
    expiryOf now ex ≤ expiryOf now' ex :=
  toDouble_mono (add_le_add_left (WithTop.coe_le_coe.2 h) _)

/-- The deadline of an entry that never expires, although it has one. -/
theorem expiryOf_eq_top {now ex : ℤ} (h : 2 ^ DOUBLE_DIGITS ≤ ex * 1000) : expiryOf now ex = ⊤ := by
  rw [expiryOf, toDouble_eq_top h, WithTop.add_top]
  rfl

/-- Up to `2 ^ 53` a deadline is exact. -/
theorem expiryOf_exact {now ex : ℤ} (hex : (ex * 1000).natAbs ≤ 2 ^ 53)
    (hsum : (now + ex * 1000).natAbs ≤ 2 ^ 53) : expiryOf now ex = (now + ex * 1000 : ℤ) := by
  rw [expiryOf, toDouble_small hex, ← WithTop.coe_add, toDouble_small hsum]

/-- A deadline lies ahead of a time that is a safe integer. -/
theorem lt_expiryOf {now reading ex : ℤ} (hsafe : now.natAbs < 2 ^ 53) (hle : now ≤ reading)
    (hex : 0 < ex) : (now : Deadline) < expiryOf reading ex := by
  have hms : ((1 : ℤ) : WithTop ℤ) ≤ toDouble ((ex * 1000 : ℤ) : WithTop ℤ) :=
    le_toDouble (isDouble_of_natAbs_le (by decide)) (WithTop.coe_le_coe.2 (by omega))
  have hnext : ((now + 1 : ℤ) : WithTop ℤ) ≤ expiryOf reading ex := by
    refine le_toDouble (isDouble_of_natAbs_le (by omega)) ?_
    rw [WithTop.coe_add]
    exact add_le_add (WithTop.coe_le_coe.2 hle) hms
  exact (WithTop.coe_lt_coe.2 (Int.lt_succ now)).trans_le hnext

theorem wholeSeconds_exact {ms : ℤ} (hpos : 0 ≤ ms) (hle : ms ≤ 2 ^ 53) :
    wholeSeconds ms = .int (ms / 1000) := by
  have hquot : Rounding.floorQuotient 53 ms 1000 = ms / 1000 :=
    Rounding.floorQuotient_eq (c := 9) hpos (by decide) (by decide) (by decide) (by decide)
      (by norm_num at hle ⊢; omega)
  show JsNumber.int (max 0 _) = _
  rw [hquot, max_eq_right (Int.ediv_nonneg hpos (by decide))]

/-- The seconds left are an integer that is a number, or `Infinity`. -/
theorem wholeSeconds_cases (x : WithTop ℤ) :
    (∃ n, wholeSeconds (toDouble x) = .int n ∧ IsDouble n) ∨
      wholeSeconds (toDouble x) = .infinity := by
  cases hx : toDouble x using WithTop.recTopCoe with
  | top => exact Or.inr rfl
  | coe ms =>
    exact Or.inl ⟨_, rfl, isDouble_max_floorQuotient (by decide) (lt_of_toDouble_eq_coe hx)⟩

/-- One stored entry; `expiresAt = none` is the source's `null`. -/
structure CacheEntry where
  value : JsString
  expiresAt : Option Deadline
  sizeBytes : ℕ
  deriving DecidableEq, Repr

/-- The state of a `CacheStore`. -/
structure CacheStore where
  store : OrderedMap JsString CacheEntry
  lru : LruList JsString
  maxEntries : Option ℕ+
  maxMemoryBytes : Option ℕ+
  memoryBytes : ℤ
  expirations : ℕ
  evictions : ℕ
  hits : ℕ
  misses : ℕ
  sweepCursor : ℕ

/-- What a call that returns leaves behind: its result or the error it throws, the store, and the
clock. `none` is a call that never returns. -/
abbrev Outcome (α : Type) := Option (Except CacheError α × CacheStore × Clock)

/-- Payload size: UTF-8 bytes of key and value. -/
def entrySizeBytes (key value : JsString) : ℕ := byteLength key + byteLength value

/-- `TTL_KEY_MISSING`. -/
def TTL_KEY_MISSING : JsNumber := .int (-2)

/-- `TTL_NO_EXPIRY`. -/
def TTL_NO_EXPIRY : JsNumber := .int (-1)

/-- Why a key is removed. -/
inductive RemoveReason
  | delete
  | expire
  | evict
  deriving DecidableEq, Repr

namespace CacheStore

/-- A new store with the given limits. -/
def new (maxEntries maxMemoryBytes : Option ℕ+) : CacheStore where
  store := .empty
  lru := .empty
  maxEntries := maxEntries
  maxMemoryBytes := maxMemoryBytes
  memoryBytes := 0
  expirations := 0
  evictions := 0
  hits := 0
  misses := 0
  sweepCursor := 0

/-- The constructor's check of one limit: `undefined` is no limit. -/
def positiveLimit (name : JsString) : JsValue → Except CacheError (Option ℕ+)
  | .undefined => .ok none
  | .number (.int n) =>
      if h : 0 < n.toNat then .ok (some ⟨n.toNat, h⟩)
      else .error ⟨.invalidOptions, name ++ js " must be a positive integer"⟩
  | _ => .error ⟨.invalidOptions, name ++ js " must be a positive integer"⟩

/-- The constructor, given the two limits of its options. -/
def construct (maxEntries maxMemoryBytes : JsValue) : Except CacheError CacheStore := do
  let maxEntries ← positiveLimit (js "maxEntries") maxEntries
  let maxMemoryBytes ← positiveLimit (js "maxMemoryBytes") maxMemoryBytes
  return new maxEntries maxMemoryBytes

/-! ### Removal -/

/-- `#removeStoredKey`. -/
def removeStoredKey (s : CacheStore) (key : JsString) (reason : RemoveReason) :
    Bool × CacheStore :=
  match s.store.get? key with
  | none => (false, s)
  | some entry =>
      (true, { s with
        store := s.store.delete key
        lru := (s.lru.remove key).2
        memoryBytes := s.memoryBytes - entry.sizeBytes
        expirations := if reason = .expire then s.expirations + 1 else s.expirations
        evictions := if reason = .evict then s.evictions + 1 else s.evictions })

/-- `#getLiveEntry`: the live entry, or nothing after a lazy purge. -/
def getLiveEntry (s : CacheStore) (c : Clock) (key : JsString) :
    Option CacheEntry × CacheStore × Clock :=
  match s.store.get? key with
  | none => (none, s, c)
  | some entry =>
      match entry.expiresAt with
      | none => (some entry, s, c)
      | some expiresAt =>
          if c.head ≥ expiresAt then (none, (s.removeStoredKey key .expire).2, c.tail)
          else (some entry, s, c.tail)

/-! ### Eviction -/

/-- Whether the entry of a victim has expired, reading the clock only if it has a deadline. -/
def victimExpired (c : Clock) : Option CacheEntry → Bool × Clock
  | some ⟨_, some expiresAt, _⟩ => (decide (c.head ≥ expiresAt), c.tail)
  | _ => (false, c)

/-- `#evictOne`: remove the least recently used key unless it is `protectKey`. -/
def evictOne (s : CacheStore) (c : Clock) (protectKey : JsString) : Bool × CacheStore × Clock :=
  match s.lru.peekLru with
  | none => (false, s, c)
  | some victim =>
      if victim = protectKey then (false, s, c)
      else
        let expired := victimExpired c (s.store.get? victim)
        (true, (s.removeStoredKey victim (if expired.1 then .expire else .evict)).2, expired.2)

/-- `while (cond) { if (!this.#evictOne(protectKey)) break; }` -/
def evictWhile (cond : CacheStore → Bool) (protectKey : JsString) :
    ℕ → CacheStore → Clock → Option (CacheStore × Clock)
  | 0, _, _ => none
  | fuel + 1, s, c =>
      if cond s then
        match s.evictOne c protectKey with
        | (true, s', c') => evictWhile cond protectKey fuel s' c'
        | (false, s', c') => some (s', c')
      else some (s, c)

/-- The condition of the first loop: `this.store.size >= this.#maxEntries`. -/
def overEntries (maxEntries : ℕ+) (s : CacheStore) : Bool := decide (s.store.size ≥ (maxEntries : ℕ))

/-- The condition of the second loop:
`this.#memoryBytes - oldSizeBytes + sizeBytes > this.#maxMemoryBytes`. -/
def overMemory (maxMemoryBytes : ℕ+) (sizeBytes oldSizeBytes : ℕ) (s : CacheStore) : Bool :=
  decide (s.memoryBytes - oldSizeBytes + sizeBytes > (maxMemoryBytes : ℕ))

/-- The fuel of an eviction loop: every turn but the last takes a key out of the list. -/
def evictFuel (s : CacheStore) : ℕ := s.lru.size + 1

/-- The first part of `#ensureCapacity`: make room for one more entry. -/
def ensureEntries (s : CacheStore) (c : Clock) (key : JsString) (isNew : Bool) :
    Option (CacheStore × Clock) :=
  match s.maxEntries with
  | some maxEntries =>
      if isNew then evictWhile (overEntries maxEntries) key s.evictFuel s c else some (s, c)
  | none => some (s, c)

/-- `if (!isNew) this.#lru.touch(key)`: prefer other victims when an entry is resized. -/
def touchExisting (s : CacheStore) (key : JsString) (isNew : Bool) : CacheStore :=
  if isNew then s else { s with lru := s.lru.touch key }

/-- The second part of `#ensureCapacity`: make room for `sizeBytes`. -/
def ensureMemory (s : CacheStore) (c : Clock) (key : JsString) (isNew : Bool)
    (sizeBytes oldSizeBytes : ℕ) : Outcome Unit :=
  match s.maxMemoryBytes with
  | none => some (.ok (), s, c)
  | some maxMemoryBytes =>
      let s := s.touchExisting key isNew
      match evictWhile (overMemory maxMemoryBytes sizeBytes oldSizeBytes) key s.evictFuel s c with
      | none => none
      | some (s, c) =>
          if overMemory maxMemoryBytes sizeBytes oldSizeBytes s then
            some (.error ⟨.entryTooLarge, js "cannot free enough memory for key+value size " ++
              decimal sizeBytes⟩, s, c)
          else some (.ok (), s, c)

/-- `#ensureCapacity`. -/
def ensureCapacity (s : CacheStore) (c : Clock) (key : JsString) (isNew : Bool)
    (sizeBytes oldSizeBytes : ℕ) : Outcome Unit :=
  match s.ensureEntries c key isNew with
  | none => none
  | some (s, c) => s.ensureMemory c key isNew sizeBytes oldSizeBytes

/-! ### The calls -/

/-- The checks of `set`, in the source's order: key, value, options, `ex`. -/
def setArguments (key value options : JsValue) :
    Except CacheError (JsString × JsString × Option ℤ) := do
  let key ← assertValidKey key
  let value ← assertValidValue value
  let options ← plainObject options
  if options.1 = .undefined then return (key, value, none)
  let ex ← assertValidEx options.1
  return (key, value, some ex)

/-- The entry written at the end of `set`. -/
def writeEntry (s : CacheStore) (key value : JsString) (expiresAt : Option Deadline) (sizeBytes : ℕ)
    (existing : Option CacheEntry) : CacheStore :=
  let memoryBytes :=
    match existing with
    | some old => s.memoryBytes - old.sizeBytes
    | none => s.memoryBytes
  { s with
    store := s.store.set key ⟨value, expiresAt, sizeBytes⟩
    memoryBytes := memoryBytes + sizeBytes
    lru := s.lru.add key }

/-- Whether a single entry of `sizeBytes` bytes exceeds the memory limit. -/
def entryTooLarge (s : CacheStore) (sizeBytes : ℕ) : Bool :=
  match s.maxMemoryBytes with
  | some maxMemoryBytes => decide (sizeBytes > (maxMemoryBytes : ℕ))
  | none => false

/-- The error of `set` for an entry above the memory limit. -/
def entryTooLargeError (s : CacheStore) (sizeBytes : ℕ) : CacheError where
  code := .entryTooLarge
  message := js "key+value size " ++ decimal sizeBytes ++ js " exceeds maxMemoryBytes " ++
    decimal ((s.maxMemoryBytes.map PNat.val).getD 0)

/-- The part of `set` after its checks and the `ENTRY_TOO_LARGE` test. -/
def setEntry (s : CacheStore) (c : Clock) (key value : JsString) (expiresAt : Option Deadline) :
    Outcome Unit :=
  let sizeBytes := entrySizeBytes key value
  -- drop a stale copy of the same key
  let live := s.getLiveEntry c key
  let existing := live.2.1.store.get? key
  let oldSizeBytes := (existing.map CacheEntry.sizeBytes).getD 0
  match live.2.1.ensureCapacity live.2.2 key existing.isNone sizeBytes oldSizeBytes with
  | some (.ok (), s, c) => some (.ok (), s.writeEntry key value expiresAt sizeBytes existing, c)
  | other => other

/-- `set`. -/
def set (s : CacheStore) (c : Clock) (key value options : JsValue) : Outcome Unit :=
  match setArguments key value options with
  | .error e => some (.error e, s, c)
  | .ok (key, value, ex) =>
      let expiresAt := ex.map (expiryOf c.head)
      let c := if ex.isSome then c.tail else c
      if s.entryTooLarge (entrySizeBytes key value) then
        some (.error (s.entryTooLargeError (entrySizeBytes key value)), s, c)
      else s.setEntry c key value expiresAt

/-- `get`; a miss is `none`. -/
def get (s : CacheStore) (c : Clock) (key : JsValue) : Outcome (Option JsString) :=
  match assertValidKey key with
  | .error e => some (.error e, s, c)
  | .ok key =>
      match s.getLiveEntry c key with
      | (none, s, c) => some (.ok none, { s with misses := s.misses + 1 }, c)
      | (some entry, s, c) =>
          some (.ok (some entry.value), { s with lru := s.lru.touch key, hits := s.hits + 1 }, c)

/-- `delete`. -/
def delete (s : CacheStore) (c : Clock) (key : JsValue) : Outcome Bool :=
  match assertValidKey key with
  | .error e => some (.error e, s, c)
  | .ok key =>
      match s.getLiveEntry c key with
      | (none, s, c) => some (.ok false, s, c)
      | (some _, s, c) =>
          let removed := s.removeStoredKey key .delete
          some (.ok removed.1, removed.2, c)

/-- `exists`. -/
def existsKey (s : CacheStore) (c : Clock) (key : JsValue) : Outcome Bool :=
  match assertValidKey key with
  | .error e => some (.error e, s, c)
  | .ok key =>
      match s.getLiveEntry c key with
      | (entry, s, c) => some (.ok entry.isSome, s, c)

/-- `ttl`: `-2` missing, `-1` no expiry, else the whole seconds left. -/
def ttl (s : CacheStore) (c : Clock) (key : JsValue) : Outcome JsNumber :=
  match assertValidKey key with
  | .error e => some (.error e, s, c)
  | .ok key =>
      match s.getLiveEntry c key with
      | (none, s, c) => some (.ok TTL_KEY_MISSING, s, c)
      | (some ⟨_, none, _⟩, s, c) => some (.ok TTL_NO_EXPIRY, s, c)
      | (some ⟨_, some expiresAt, _⟩, s, c) =>
          let remainingMs := toDouble (expiresAt.map (· - c.head))
          some (.ok (wholeSeconds remainingMs), s, c.tail)

/-- The checks of `purgeExpired`: the bound on examined keys, `none` for `Infinity`. -/
def purgeArguments (options : JsValue) : Except CacheError (Option ℕ) := do
  let options ← plainObject options
  match options.2 with
  | .undefined => return none
  | .null => return none
  | .number .infinity => return none
  | .number (.int n) =>
      if n ≤ 0 then throw ⟨.invalidOptions, js "maxExamined must be a positive integer"⟩
      return some n.toNat
  | _ => throw ⟨.invalidOptions, js "maxExamined must be a positive integer"⟩

/-- One turn of the sweep: examine one key of the snapshot at the reading `now`. -/
def sweepKey (now : ℤ) (key : JsString) (s : CacheStore) (purged : ℕ) : CacheStore × ℕ :=
  match s.store.get? key with
  | some ⟨_, some expiresAt, _⟩ =>
      if now ≥ expiresAt then ((s.removeStoredKey key .expire).2, purged + 1) else (s, purged)
  | _ => (s, purged)

/-- The sweep loop over positions `i, i + 1, …` of the snapshot `keys`, started at `cursor`. -/
def sweepLoop (now : ℤ) (keys : List JsString) (cursor : ℕ) :
    ℕ → ℕ → CacheStore → ℕ → CacheStore × ℕ
  | 0, _, s, purged => (s, purged)
  | left + 1, i, s, purged =>
      match keys[(cursor + i) % keys.length]? with
      | none => sweepLoop now keys cursor left (i + 1) s purged
      | some key =>
          let next := sweepKey now key s purged
          sweepLoop now keys cursor left (i + 1) next.1 next.2

/-- `toExamine`: how many of `keys` keys one sweep examines. -/
def sweepCount (maxExamined : Option ℕ) (keys : ℕ) : ℕ :=
  match maxExamined with
  | none => keys
  | some maxExamined => min maxExamined keys

/-- `purgeExpired`. -/
def purgeExpired (s : CacheStore) (c : Clock) (options : JsValue) : Outcome ℕ :=
  match purgeArguments options with
  | .error e => some (.error e, s, c)
  | .ok maxExamined =>
      if s.store.size = 0 then some (.ok 0, { s with sweepCursor := 0 }, c)
      else
        let keys := s.store.keys
        let toExamine := sweepCount maxExamined keys.length
        let swept := sweepLoop c.head keys s.sweepCursor toExamine 0 s 0
        let cursor := (s.sweepCursor + toExamine) % keys.length
        some (.ok swept.2, { swept.1 with
          sweepCursor := if swept.1.store.size = 0 then 0 else cursor }, c.tail)

end CacheStore

/-- A call on a store, with arbitrary arguments. -/
inductive Call
  | set (key value options : JsValue)
  | get (key : JsValue)
  | delete (key : JsValue)
  | existsKey (key : JsValue)
  | ttl (key : JsValue)
  | purgeExpired (options : JsValue)
  deriving DecidableEq, Repr

/-- What a call returns. -/
inductive Reply
  | done
  | value (value : Option JsString)
  | flag (b : Bool)
  | seconds (x : JsNumber)
  | purged (n : ℕ)
  deriving DecidableEq, Repr

namespace CacheStore

/-- Wrap the result of a call. -/
def Outcome.map {α β : Type} (f : α → β) (o : Outcome α) : Outcome β :=
  Option.map (fun r => (Except.map f r.1, r.2)) o

/-- Run one call. -/
def exec (s : CacheStore) (c : Clock) : Call → Outcome Reply
  | .set key value options => Outcome.map (fun _ => .done) (s.set c key value options)
  | .get key => Outcome.map .value (s.get c key)
  | .delete key => Outcome.map .flag (s.delete c key)
  | .existsKey key => Outcome.map .flag (s.existsKey c key)
  | .ttl key => Outcome.map .seconds (s.ttl c key)
  | .purgeExpired options => Outcome.map .purged (s.purgeExpired c options)

end CacheStore

end DistributedCache
