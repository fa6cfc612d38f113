import DistributedCache.CacheCore.Drain

/-!
# The background sweeper

`startSweeper`, `stopSweeper`, `isSweeperRunning` and the `sweeper` option of the constructor in
`packages/cache-core/src/cache-store.js`. The scheduler keeps the intervals that have been set and
not cleared, and may let any of them tick at any time; a tick calls `purgeExpired` with the bound
that its interval was set with.

* `SweeperOptions`, `startArguments`, `Scheduler`, `SweptStore` and `SweepEvent`, `sweeperSystem`;
* there is never more than one interval, it has the options of the last accepted `startSweeper`, and
  to the store a tick is one more call (`sweeper_alone`);
* whatever is called in between, enough ticks leave no entry that had expired when they began
  (`ticks_drain`).
-/

namespace DistributedCache

/-- The argument of `startSweeper`: none, an object, or a value that is no plain object. -/
inductive SweeperOptions
  | undefined
  | object (intervalMs maxExamined : JsValue)
  | notPlain
  deriving DecidableEq, Repr

/-- `DEFAULT_SWEEP_MAX_EXAMINED`. -/
def DEFAULT_SWEEP_MAX_EXAMINED : ℕ+ := ⟨20, by decide⟩

/-- `DEFAULT_SWEEP_INTERVAL_MS`. -/
def DEFAULT_SWEEP_INTERVAL_MS : ℕ+ := ⟨1000, by decide⟩

/-- `options.name ?? fallback`, which has to be a positive integer. -/
def positiveOption (name : JsString) (fallback : ℕ+) : JsValue → Except CacheError ℕ+
  | .undefined => .ok fallback
  | .null => .ok fallback
  | .number (.int n) =>
      if h : 0 < n.toNat then .ok ⟨n.toNat, h⟩
      else .error ⟨.invalidOptions, name ++ js " must be a positive integer"⟩
  | _ => .error ⟨.invalidOptions, name ++ js " must be a positive integer"⟩

/-- The checks of `startSweeper`: the delay and the bound on examined keys. -/
def startArguments : SweeperOptions → Except CacheError (ℕ+ × ℕ+)
  | .undefined => .ok (DEFAULT_SWEEP_INTERVAL_MS, DEFAULT_SWEEP_MAX_EXAMINED)
  | .object intervalMs maxExamined => do
      let intervalMs ← positiveOption (js "intervalMs") DEFAULT_SWEEP_INTERVAL_MS intervalMs
      let maxExamined ← positiveOption (js "maxExamined") DEFAULT_SWEEP_MAX_EXAMINED maxExamined
      return (intervalMs, maxExamined)
  | .notPlain => .error ⟨.invalidOptions, js "options must be a plain object"⟩

/-! ### Intervals -/

/-- An interval that has been set; its callback has captured `maxExamined`. -/
structure Interval where
  id : ℕ
  intervalMs : ℕ+
  maxExamined : ℕ+
  deriving DecidableEq, Repr

/-- What the interval was set with. -/
def Interval.options (i : Interval) : ℕ+ × ℕ+ := (i.intervalMs, i.maxExamined)

/-- The scheduler, with the intervals that the store has set and not cleared. -/
structure Scheduler where
  intervals : List Interval
  nextId : ℕ
  deriving DecidableEq, Repr

/-- `setInterval`: a new interval under a new id. -/
def Scheduler.setInterval (scheduler : Scheduler) (intervalMs maxExamined : ℕ+) : ℕ × Scheduler :=
  (scheduler.nextId, ⟨scheduler.intervals ++ [⟨scheduler.nextId, intervalMs, maxExamined⟩],
    scheduler.nextId + 1⟩)

/-- `clearInterval`. -/
def Scheduler.clearInterval (scheduler : Scheduler) (id : ℕ) : Scheduler :=
  { scheduler with intervals := scheduler.intervals.filter fun i => i.id ≠ id }

/-- A store with its sweeper. -/
structure SweptStore where
  store : CacheStore
  scheduler : Scheduler
  sweeperId : Option ℕ

namespace SweptStore

/-- `stopSweeper`. -/
def stopSweeper (s : SweptStore) : SweptStore :=
  match s.sweeperId with
  | none => s
  | some id => { s with scheduler := s.scheduler.clearInterval id, sweeperId := none }

/-- `startSweeper`. -/
def startSweeper (s : SweptStore) (options : SweeperOptions) :
    Except CacheError Unit × SweptStore :=
  match startArguments options with
  | .error e => (.error e, s)
  | .ok (intervalMs, maxExamined) =>
      let s := s.stopSweeper
      let set := s.scheduler.setInterval intervalMs maxExamined
      (.ok (), { s with scheduler := set.2, sweeperId := some set.1 })

/-- `isSweeperRunning`. -/
def isSweeperRunning (s : SweptStore) : Bool := s.sweeperId.isSome

/-- The constructor, given the limits and the `sweeper` of its options. -/
def construct (maxEntries maxMemoryBytes : JsValue) (sweeper : SweeperOptions) :
    Except CacheError SweptStore := do
  let store ← CacheStore.construct maxEntries maxMemoryBytes
  let s : SweptStore := ⟨store, ⟨[], 0⟩, none⟩
  match sweeper with
  | .undefined => return s
  | .notPlain => throw ⟨.invalidOptions, js "sweeper must be a plain object"⟩
  | .object intervalMs maxExamined =>
      let started := s.startSweeper (.object intervalMs maxExamined)
      started.1.map fun _ => started.2

end SweptStore

/-- What happens to a store with its sweeper. -/
inductive SweepEvent
  | call (event : CacheStore.CallEvent)
  | startSweeper (options : SweeperOptions) (result : Except CacheError Unit)
  | stopSweeper
  | tick (interval : Interval) (clock : Clock) (result : Except CacheError Reply)

/-- The event as a call on the store. -/
def SweepEvent.onStore : SweepEvent → Option CacheStore.CallEvent
  | .call event => some event
  | .tick interval clock result =>
      some ⟨clock, .purgeExpired (CacheStore.boundedOptions interval.maxExamined), result⟩
  | .startSweeper _ _ => none
  | .stopSweeper => none

namespace SweptStore

/-- One event. -/
inductive Step (s : SweptStore) : SweepEvent → SweptStore → Prop
  | call {event : CacheStore.CallEvent} {store : CacheStore} {c : Clock}
      (h : s.store.exec event.clock event.call = some (event.result, store, c)) :
      Step s (.call event) { s with store := store }
  | startSweeper (options : SweeperOptions) :
      Step s (.startSweeper options (s.startSweeper options).1) (s.startSweeper options).2
  | stopSweeper : Step s .stopSweeper s.stopSweeper
  | tick {interval : Interval} {clock c : Clock} {result : Except CacheError Reply}
      {store : CacheStore} (hset : interval ∈ s.scheduler.intervals)
      (h : s.store.exec clock (.purgeExpired (CacheStore.boundedOptions interval.maxExamined)) =
        some (result, store, c)) :
      Step s (.tick interval clock result) { s with store := store }

end SweptStore

/-- A constructed store with its sweeper, as a transition system. -/
def sweeperSystem (init : SweptStore) : System SweptStore SweepEvent where
  init := init
  step := SweptStore.Step

/-! ### The interval that is set -/

/-- What an event does to the delay and the bound that are in force. -/
def rearm (armed : Option (ℕ+ × ℕ+)) : SweepEvent → Option (ℕ+ × ℕ+)
  | .startSweeper options _ =>
      match startArguments options with
      | .ok options => some options
      | .error _ => armed
  | .stopSweeper => none
  | .call _ => armed
  | .tick _ _ _ => armed

/-- What the `sweeper` option of the constructor puts in force. -/
def firstArmed : SweeperOptions → Option (ℕ+ × ℕ+)
  | .object intervalMs maxExamined => (startArguments (.object intervalMs maxExamined)).toOption
  | .undefined => none
  | .notPlain => none

/-- What is in force after a history. -/
def armedAfter (sweeper : SweeperOptions) (past : List SweepEvent) : Option (ℕ+ × ℕ+) :=
  past.foldr (fun event armed => rearm armed event) (firstArmed sweeper)

namespace SweptStore

variable {s s' t init : SweptStore} {armed : Option (ℕ+ × ℕ+)} {options : SweeperOptions}
  {event : SweepEvent}

/-- The scheduler has the store's interval and no other, with the options in force. -/
structure Armed (s : SweptStore) (armed : Option (ℕ+ × ℕ+)) : Prop where
  ids : s.scheduler.intervals.map Interval.id = s.sweeperId.toList
  options : s.scheduler.intervals.map Interval.options = armed.toList

@[simp] theorem stopSweeper_store (s : SweptStore) : s.stopSweeper.store = s.store := by
  unfold stopSweeper
  cases s.sweeperId <;> rfl

/-- Stopping clears every interval. -/
theorem Armed.stopped (h : Armed s armed) :
    s.stopSweeper.scheduler.intervals = [] ∧ s.stopSweeper.sweeperId = none := by
  have hids := h.ids
  unfold stopSweeper
  cases hid : s.sweeperId with
  | none =>
    rw [hid] at hids
    exact ⟨List.map_eq_nil_iff.1 hids, hid⟩
  | some id =>
    rw [hid] at hids
    refine ⟨List.filter_eq_nil_iff.2 fun i hi => ?_, rfl⟩
    have hmem : i.id ∈ (some id).toList := hids ▸ List.mem_map_of_mem hi
    simpa using hmem

theorem Armed.stopSweeper (h : Armed s armed) : Armed s.stopSweeper none where
  ids := by rw [h.stopped.1, h.stopped.2]; rfl
  options := by rw [h.stopped.1]; rfl

theorem startSweeper_of_ok {a : ℕ+ × ℕ+} (h : startArguments options = .ok a) :
    s.startSweeper options = (.ok (), { s.stopSweeper with
      scheduler := (s.stopSweeper.scheduler.setInterval a.1 a.2).2
      sweeperId := some s.stopSweeper.scheduler.nextId }) := by
  unfold startSweeper
  rw [h]
  rfl

theorem startSweeper_of_error {e : CacheError} (h : startArguments options = .error e) :
    s.startSweeper options = (.error e, s) := by
  unfold startSweeper
  rw [h]

@[simp] theorem startSweeper_store (s : SweptStore) (options : SweeperOptions) :
    (s.startSweeper options).2.store = s.store := by
  cases h : startArguments options with
  | error e => rw [startSweeper_of_error h]
  | ok a => rw [startSweeper_of_ok h]; exact s.stopSweeper_store

theorem Armed.startSweeper (h : Armed s armed) (options : SweeperOptions)
    (result : Except CacheError Unit) :
    Armed (s.startSweeper options).2 (rearm armed (.startSweeper options result)) := by
  cases hargs : startArguments options with
  | error e =>
    rw [startSweeper_of_error hargs]
    simpa only [rearm, hargs] using h
  | ok a =>
    rw [startSweeper_of_ok hargs]
    simp only [rearm, hargs]
    constructor
    · show (s.stopSweeper.scheduler.intervals ++ [_]).map Interval.id = _
      rw [h.stopped.1]
      rfl
    · show (s.stopSweeper.scheduler.intervals ++ [_]).map Interval.options = _
      rw [h.stopped.1]
      rfl

theorem Armed.isSweeperRunning_eq (h : Armed s armed) : s.isSweeperRunning = armed.isSome := by
  have hlength := congrArg List.length h.ids
  have hlength' := congrArg List.length h.options
  rw [List.length_map] at hlength hlength'
  rw [isSweeperRunning]
  cases hid : s.sweeperId <;> cases armed <;> simp_all

theorem Step.keeps_armed (hstep : Step s event s') (h : Armed s armed) :
    Armed s' (rearm armed event) := by
  cases hstep with
  | call _ => exact ⟨h.ids, h.options⟩
  | startSweeper options => exact h.startSweeper options _
  | stopSweeper => exact h.stopSweeper
  | tick _ _ => exact ⟨h.ids, h.options⟩

/-! ### Runs -/

variable {maxEntriesOption maxMemoryBytesOption : JsValue} {sweeper : SweeperOptions}
  {maxEntries maxMemoryBytes : Option ℕ+} {past later : List SweepEvent}

/-- The constructor makes a new store, and sets an interval if it was asked to. -/
theorem construct_spec
    (hinit : construct maxEntriesOption maxMemoryBytesOption sweeper = .ok init) :
    CacheStore.construct maxEntriesOption maxMemoryBytesOption = .ok init.store ∧
      Armed init (firstArmed sweeper) := by
  obtain ⟨store, hstore, hinit⟩ := bind_eq_ok_iff.1 hinit
  have hnew : Armed ⟨store, ⟨[], 0⟩, none⟩ none := ⟨rfl, rfl⟩
  cases sweeper with
  | undefined =>
    cases hinit
    exact ⟨hstore, hnew⟩
  | notPlain => cases hinit
  | object intervalMs maxExamined =>
    obtain ⟨u, hresult, rfl⟩ := map_eq_ok_iff.1 hinit
    rw [startSweeper_store]
    refine ⟨hstore, ?_⟩
    cases hargs : startArguments (.object intervalMs maxExamined) with
    | error e =>
      rw [startSweeper_of_error hargs] at hresult
      cases hresult
    | ok a =>
      have harmed := hnew.startSweeper (.object intervalMs maxExamined) (.ok ())
      simp only [rearm, hargs] at harmed
      simpa only [firstArmed, hargs, Except.toOption] using harmed

/-- What one event is to the store. -/
theorem Step.onStore (hstep : Step s event s') :
    (event.onStore = none ∧ s'.store = s.store) ∨ ∃ call, event.onStore = some call ∧
      (CacheStore.system maxEntries maxMemoryBytes).step s.store call s'.store := by
  cases hstep with
  | call h => exact Or.inr ⟨_, rfl, _, h⟩
  | startSweeper options => exact Or.inl ⟨rfl, s.startSweeper_store options⟩
  | stopSweeper => exact Or.inl ⟨rfl, s.stopSweeper_store⟩
  | tick _ h => exact Or.inr ⟨_, rfl, _, h⟩

/-- Forgetting the sweeper leaves a run of the store. -/
theorem simulates (hstore : init.store = CacheStore.new maxEntries maxMemoryBytes) :
    System.Simulates (sweeperSystem init) (CacheStore.system maxEntries maxMemoryBytes)
      SweepEvent.onStore fun s store => s.store = store where
  init := hstore
  step := by
    rintro s event s' _ rfl hstep
    rcases Step.onStore hstep with ⟨hnone, hsame⟩ | ⟨call, hsome, hcall⟩
    · exact Or.inl ⟨hnone, hsame⟩
    · exact Or.inr ⟨call, _, hsome, hcall, rfl⟩

/-- The store of a run is reached by the calls on it, the ticks among them. -/
theorem store_run (hstore : CacheStore.construct maxEntriesOption maxMemoryBytesOption =
    .ok init.store) (hrun : (sweeperSystem init).Run past s) :
    ∃ maxEntries maxMemoryBytes, init.store = CacheStore.new maxEntries maxMemoryBytes ∧
      (CacheStore.system maxEntries maxMemoryBytes).Run (past.filterMap SweepEvent.onStore)
        s.store := by
  obtain ⟨maxEntries, maxMemoryBytes, hnew⟩ := CacheStore.construct_eq_ok hstore
  obtain ⟨store, hstoreRun, rfl⟩ := hrun.simulate (simulates hnew)
  exact ⟨maxEntries, maxMemoryBytes, hnew, hstoreRun⟩

theorem store_inv (hstore : CacheStore.construct maxEntriesOption maxMemoryBytesOption =
    .ok init.store) (hrun : (sweeperSystem init).Run past s) : CacheStore.Inv s.store := by
  obtain ⟨_, _, -, hstoreRun⟩ := store_run hstore hrun
  exact CacheStore.reachable_inv hstoreRun

theorem armed_run (hinit : Armed init (firstArmed sweeper))
    (hrun : (sweeperSystem init).Run past s) : Armed s (armedAfter sweeper past) :=
  hrun.invariant (P := fun past s => Armed s (armedAfter sweeper past)) hinit
    fun _ _ _ _ _ harmed hstep => hstep.keeps_armed harmed

/-- A sweep with a bound never throws. -/
theorem purge_returns (hs : CacheStore.Inv t.store) (c : Clock) (m : ℕ+) :
    ∃ n store c', t.store.exec c (.purgeExpired (CacheStore.boundedOptions m)) =
      some (.ok (.purged n), store, c') := by
  have hcheck : (Call.purgeExpired (CacheStore.boundedOptions m)).check =
      .ok (.purgeExpired (some m)) := by
    rw [Call.check, CacheStore.purgeArguments_bounded]
    rfl
  obtain ⟨r, store, c', hexec, heffect⟩ := CacheStore.exec_of_check_ok hs.toSync hs.entries hcheck
  cases heffect with
  | swept _ _ => exact ⟨_, _, c', hexec⟩

/-- **There is one interval at most, and its ticks are calls.** In every run of a constructed store
the scheduler has the interval that the store knows and no other, with the delay and the bound of
the last `startSweeper` that was accepted and not stopped. Calls and ticks together are a run of the
store. Every tick came from the interval in force, with the bound in force, and never throws. -/
theorem sweeper_alone
    (hinit : construct maxEntriesOption maxMemoryBytesOption sweeper = .ok init)
    (hrun : (sweeperSystem init).Run past s) :
    (s.scheduler.intervals.map Interval.id = s.sweeperId.toList ∧
      s.scheduler.intervals.map Interval.options = (armedAfter sweeper past).toList ∧
      s.isSweeperRunning = (armedAfter sweeper past).isSome) ∧
    (∃ maxEntries maxMemoryBytes, init.store = CacheStore.new maxEntries maxMemoryBytes ∧
      (CacheStore.system maxEntries maxMemoryBytes).Run (past.filterMap SweepEvent.onStore)
        s.store) ∧
    (∀ later before interval clock result,
      past = later ++ .tick interval clock result :: before →
        armedAfter sweeper before = some interval.options ∧ ∃ n, result = .ok (.purged n)) ∧
    ∀ interval ∈ s.scheduler.intervals, ∀ clock, ∃ n s',
      (sweeperSystem init).step s (.tick interval clock (.ok (.purged n))) s' := by
  obtain ⟨hstore, hfirst⟩ := construct_spec hinit
  have harmed := armed_run hfirst hrun
  refine ⟨⟨harmed.ids, harmed.options, harmed.isSweeperRunning_eq⟩, store_run hstore hrun, ?_, ?_⟩
  · rintro later before interval clock result rfl
    obtain ⟨u, htick, -⟩ := hrun.split
    cases htick with
    | snoc hbefore hstep =>
      have hthen := armed_run hfirst hbefore
      cases hstep with
      | tick hset hexec =>
        obtain ⟨n, store, c', hreturns⟩ :=
          purge_returns (store_inv hstore hbefore) clock interval.maxExamined
        rw [hreturns] at hexec
        cases hexec
        refine ⟨?_, n, rfl⟩
        have hmem := List.mem_map_of_mem (f := Interval.options) hset
        rw [hthen.options] at hmem
        simpa using hmem
  · intro interval hset clock
    obtain ⟨n, store, c', hexec⟩ := purge_returns (store_inv hstore hrun) clock interval.maxExamined
    exact ⟨n, _, .tick hset hexec⟩

/-- A store made with a sweeper, stopped, started with a bad option and then with a bound of five;
the interval that ticks is the third that was asked for and the second that was set. -/
theorem sweeper_alone_example : ∃ init past s,
    construct .undefined .undefined (.object .undefined .undefined) = .ok init ∧
    (sweeperSystem init).Run past s ∧ past.length = 4 ∧
    armedAfter (.object .undefined .undefined) past = some (⟨50, by decide⟩, ⟨5, by decide⟩) ∧
    s.scheduler.intervals.map Interval.id = s.sweeperId.toList ∧ s.sweeperId = some 1 := by
  let init : SweptStore := ⟨CacheStore.new none none,
    ⟨[⟨0, DEFAULT_SWEEP_INTERVAL_MS, DEFAULT_SWEEP_MAX_EXAMINED⟩], 1⟩, some 0⟩
  have hinit : construct .undefined .undefined (.object .undefined .undefined) = .ok init := rfl
  have h₀ : (sweeperSystem init).Run [] init := .start
  have h₁ := h₀.snoc .stopSweeper
  have h₂ := h₁.snoc (.startSweeper (.object (.number (.int 0)) .undefined))
  have h₃ := h₂.snoc (.startSweeper (.object (.number (.int 50)) (.number (.int 5))))
  have h₄ := h₃.snoc (@Step.tick _ ⟨1, ⟨50, by decide⟩, ⟨5, by decide⟩⟩
    (Stream'.const 0) _ (.ok (.purged 0)) _ List.mem_cons_self rfl)
  exact ⟨init, _, _, hinit, h₄, rfl, rfl, (sweeper_alone hinit h₄).1.1, rfl⟩

/-! ### Enough ticks -/

/-- How many keys an event may add. -/
def added (event : SweepEvent) : ℕ :=
  (event.onStore.map fun call => CacheStore.added call.call).getD 0

/-- The keys that the calls of a history may have added. -/
def addedBy (later : List SweepEvent) : ℕ := (later.map added).sum

/-- The event is a tick with a bound of at least `m`. -/
def isTick (m : ℕ+) : SweepEvent → Bool
  | .tick interval _ _ => decide (m ≤ interval.maxExamined)
  | _ => false

/-- The event reads the clock at `now` or later. -/
def NotBefore (now : ℤ) (event : SweepEvent) : Prop :=
  ∀ call, event.onStore = some call → now ≤ call.clock.head

variable {now : ℤ} {m : ℕ+} {r held sweeps : ℕ}

/-- **One event of a round.** -/
theorem Step.draining (hstep : Step s event s') (hs : CacheStore.Inv s.store)
    (hsafe : now.natAbs < 2 ^ 53) (hnow : NotBefore now event) (hr : held + added event ≤ r * m)
    (h : CacheStore.Draining s.store now m r held sweeps) :
    CacheStore.Draining s'.store now m r (held + added event)
      (sweeps + (isTick m event).toNat) := by
  cases hstep with
  | call hexec =>
    obtain ⟨n, hadvance⟩ := CacheStore.exec_advance hs hsafe (hnow _ rfl) hexec
    exact h.advance hadvance hr (Or.inl rfl)
  | startSweeper options => rwa [startSweeper_store]
  | stopSweeper => rwa [stopSweeper_store]
  | @tick interval _ _ _ _ _ hexec =>
    obtain ⟨⟨r', store, c'⟩, hpurge, heq⟩ := Option.map_eq_some_iff.1 hexec
    cases heq
    have hadvance := CacheStore.purge_advance hs.toSync
      (CacheStore.purgeArguments_bounded interval.maxExamined) (hnow _ rfl) hpurge
    refine h.advance hadvance hr ?_
    rw [isTick]
    by_cases hbound : m ≤ interval.maxExamined
    · refine Or.inr ⟨by simp [hbound], rfl, ?_⟩
      have hle : (m : ℕ) ≤ interval.maxExamined := hbound
      rw [CacheStore.sweepCount]
      omega
    · exact Or.inl (by simp [hbound])

/-- **Enough ticks leave no entry that had expired.** From any state of any run on, let calls be
made, and the sweeper be stopped and started, in any order, all of it at `now`, a safe integer, or
later. With `n` keys stored at first, `n'` at last and `j` calls of `set` in between,
`(n + j - n' + 1)` times `⌈(n + j) / m⌉` ticks with a bound of at least `m` leave no entry whose
deadline had passed by `now`. -/
theorem ticks_drain
    (hinit : construct maxEntriesOption maxMemoryBytesOption sweeper = .ok init)
    (hrun : (sweeperSystem init).Run past s) (htrace : (sweeperSystem init).Trace s later t)
    (hsafe : now.natAbs < 2 ^ 53) (hnow : ∀ event ∈ later, NotBefore now event)
    (hticks : (s.store.store.size + addedBy later - t.store.store.size + 1) *
      ((s.store.store.size + addedBy later + m - 1) / m) ≤ later.countP (isTick m)) :
    ∀ k, ¬ t.store.Stale k now := by
  obtain ⟨hstore, -⟩ := construct_spec hinit
  set r := (s.store.store.size + addedBy later + m - 1) / m with hrdef
  have hr : s.store.store.size + addedBy later ≤ r * m := by
    have hdiv := Nat.div_add_mod (s.store.store.size + addedBy later + m - 1) m
    have hmod := Nat.mod_lt (s.store.store.size + addedBy later + m - 1) m.pos
    rw [← hrdef, Nat.mul_comm] at hdiv
    omega
  clear_value r
  refine CacheStore.Draining.drained (m := m) (r := r) ?_ hticks
  clear hticks hrdef
  induction htrace with
  | refl => exact CacheStore.draining_start s.store now (by simpa [addedBy] using hr)
  | @snoc later t t' event htrace hstep ih =>
    have hadded : addedBy (event :: later) = addedBy later + added event := by
      rw [addedBy, List.map_cons, List.sum_cons, Nat.add_comm]
      rfl
    rw [hadded] at hr ⊢
    have hthen := ih (fun event hevent => hnow event (List.mem_cons_of_mem _ hevent)) (by omega)
    have hnext := hstep.draining (store_inv hstore (hrun.trace htrace)) hsafe
      (hnow event List.mem_cons_self) (by omega) hthen
    have hcount : (isTick m event).toNat = if isTick m event then 1 else 0 := by
      cases isTick m event <;> rfl
    rw [List.countP_cons, ← Nat.add_assoc, ← hcount]
    exact hnext

/-- Two entries, one of which expires at `1000`. A read, a tick, and two more after a restart with
a larger bound. -/
theorem ticks_drain_example : ∃ init past s later t,
    construct .undefined .undefined (.object .undefined (.number (.int 2))) = .ok init ∧
    (sweeperSystem init).Run past s ∧ (sweeperSystem init).Trace s later t ∧
    s.store.staleAt 1000 (js "a") = true ∧ later.length = 6 ∧ ∀ k, ¬ t.store.Stale k 1000 := by
  let init : SweptStore := ⟨CacheStore.new none none,
    ⟨[⟨0, DEFAULT_SWEEP_INTERVAL_MS, ⟨2, by decide⟩⟩], 1⟩, some 0⟩
  have hinit : construct .undefined .undefined (.object .undefined (.number (.int 2))) =
    .ok init := rfl
  have h₀ : (sweeperSystem init).Run [] init := .start
  have h₁ := h₀.snoc (@Step.call _ ⟨Stream'.const 0, .set (.string (js "a")) (.string (js "1"))
    (.object (.number (.int 1)) .undefined), .ok .done⟩ _ _ rfl)
  have h₂ := h₁.snoc (@Step.call _ ⟨Stream'.const 0, .set (.string (js "b")) (.string (js "2"))
    .undefined, .ok .done⟩ _ _ rfl)
  have hstore : CacheStore.construct .undefined .undefined = .ok init.store := rfl
  have later {past s} (_ : (sweeperSystem init).Run past s) :
      (sweeperSystem init).Trace s [] s := .refl
  have t₁ := (later h₂).snoc (@Step.call _ ⟨Stream'.const 1000, .get (.string (js "b")),
    .ok (.value (some (js "2")))⟩ _ _ rfl)
  obtain ⟨n₂, _, _, e₂⟩ :=
    purge_returns (store_inv hstore (h₂.trace t₁)) (Stream'.const 1000) ⟨2, by decide⟩
  have t₂ := t₁.snoc (@Step.tick _ ⟨0, _, _⟩ _ _ _ _ List.mem_cons_self e₂)
  have t₃ := t₂.snoc .stopSweeper
  have t₄ := t₃.snoc (.startSweeper (.object .undefined (.number (.int 3))))
  obtain ⟨n₅, _, _, e₅⟩ :=
    purge_returns (store_inv hstore (h₂.trace t₄)) (Stream'.const 1500) ⟨3, by decide⟩
  have t₅ := t₄.snoc (@Step.tick _ ⟨1, _, _⟩ _ _ _ _ List.mem_cons_self e₅)
  obtain ⟨n₆, _, _, e₆⟩ :=
    purge_returns (store_inv hstore (h₂.trace t₅)) (Stream'.const 1500) ⟨3, by decide⟩
  have t₆ := t₅.snoc (@Step.tick _ ⟨1, _, _⟩ _ _ _ _ List.mem_cons_self e₆)
  refine ⟨init, _, _, _, _, hinit, h₂, t₆, rfl, rfl, ?_⟩
  refine ticks_drain (m := ⟨2, by decide⟩) hinit h₂ t₆ (by decide) ?_ ?_
  · simp only [List.forall_mem_cons]
    refine ⟨?_, ?_, ?_, ?_, ?_, ?_, fun _ h => absurd h List.not_mem_nil⟩
    · rintro _ ⟨⟩
      exact show (1000 : ℤ) ≤ 1500 by decide
    · rintro _ ⟨⟩
      exact show (1000 : ℤ) ≤ 1500 by decide
    · rintro _ ⟨⟩
    · rintro _ ⟨⟩
    · rintro _ ⟨⟩
      exact le_refl (1000 : ℤ)
    · rintro _ ⟨⟩
      exact le_refl (1000 : ℤ)
  · -- three ticks, for at most two keys that have gone
    show (2 + 0 - _ + 1) * ((2 + 0 + 2 - 1) / 2) ≤ 3
    omega

end SweptStore
end DistributedCache
