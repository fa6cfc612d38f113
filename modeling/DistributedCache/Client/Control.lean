import DistributedCache.Client.Machine

/-!
# The drain loop and the queue

Which parts of the client hold which command, at every `await` of the loop.

* `ensureConnected_same`, `connectOnce_same`, `nextItem_spec`, …: what the functions of the client
  leave as it was;
* `Control`: the slot is taken exactly while the loop waits for a reply, a queue that is not empty is
  being drained, and whoever waits for a connection attempt waits for one that is under way;
* `ledger`: the commands as jobs of a single-server queue. Every step of the client is a sequence of
  steps of its ledger (`step_ledger`).
-/

namespace DistributedCache

namespace CacheClient

variable {num : Numerals} {s s' : CacheClient} {ev : ClientEvent} {item : QueueItem}

/-! ### What stays the same -/

/-- Only the sockets and the attempt under way may differ. -/
structure SameCommands (s s' : CacheClient) : Prop where
  maxReconnectAttempts : s'.maxReconnectAttempts = s.maxReconnectAttempts
  closed : s'.closed = s.closed
  intentionalClose : s'.intentionalClose = s.intentionalClose
  queue : s'.queue = s.queue
  inFlight : s'.inFlight = s.inFlight
  loop : s'.loop = s.loop
  connectCall : s'.connectCall = s.connectCall
  readBuffer : s'.readBuffer = s.readBuffer
  links : s'.links = s.links
  commands : s'.commands = s.commands
  writes : s'.writes = s.writes
  outcomes : s'.outcomes = s.outcomes

theorem SameCommands.refl (s : CacheClient) : SameCommands s s :=
  ⟨rfl, rfl, rfl, rfl, rfl, rfl, rfl, rfl, rfl, rfl, rfl, rfl⟩

theorem destroySocket_same (s : CacheClient) : SameCommands s s.destroySocket :=
  ⟨rfl, rfl, rfl, rfl, rfl, rfl, rfl, rfl, rfl, rfl, rfl, rfl⟩

theorem setSocket_same (s : CacheClient) (sid : ℕ) (socket : Socket) :
    SameCommands s (s.setSocket sid socket) :=
  ⟨rfl, rfl, rfl, rfl, rfl, rfl, rfl, rfl, rfl, rfl, rfl, rfl⟩

theorem connectOnce_same (s : CacheClient) (attempt : ℕ) :
    SameCommands s (s.connectOnce attempt).1 := by
  unfold connectOnce
  split_ifs
  · exact .refl s
  · exact .refl s
  · exact ⟨rfl, rfl, rfl, rfl, rfl, rfl, rfl, rfl, rfl, rfl, rfl, rfl⟩

theorem ensureConnected_same (s : CacheClient) (b : Bool) :
    SameCommands s (s.ensureConnected b).1 := by
  unfold ensureConnected
  split_ifs
  · exact .refl s
  · exact .refl s
  · exact connectOnce_same s 1
  · exact .refl s

/-! ### Waiting for a connection -/

/-- The calls of `#ensureConnectedForOperation` that have not been taken note of. -/
def ensures (s : CacheClient) : List Ensure :=
  (match s.loop with
    | .ensuring _ e => [e]
    | _ => []) ++ s.connectCall.toList

/-- Whoever waits for an attempt waits for one under way, and no error comes from the server. -/
def EnsureOk (pending : Option ℕ) : Ensure → Prop
  | .attempting _ => pending.isSome = true
  | .attemptFailed _ err => err.code ≠ .serverError
  | .threw err => err.code ≠ .serverError
  | .delaying _ => True
  | .returned => True

theorem connectOnce_ok (s : CacheClient) (attempt : ℕ) :
    EnsureOk (s.connectOnce attempt).1.connectingPromise (s.connectOnce attempt).2 ∧
      (s.connectingPromise.isSome → (s.connectOnce attempt).1 = s) := by
  unfold connectOnce
  split_ifs with hconnected hpending
  · exact ⟨trivial, fun _ => rfl⟩
  · exact ⟨hpending, fun _ => rfl⟩
  · exact ⟨rfl, fun h => absurd h hpending⟩

theorem ensureConnected_ok (s : CacheClient) (b : Bool) :
    EnsureOk (s.ensureConnected b).1.connectingPromise (s.ensureConnected b).2 ∧
      (s.connectingPromise.isSome → (s.ensureConnected b).1 = s) := by
  unfold ensureConnected
  split_ifs
  · exact ⟨trivial, fun _ => rfl⟩
  · exact ⟨by simp [EnsureOk], fun _ => rfl⟩
  · exact connectOnce_ok s 1
  · exact ⟨by simp [EnsureOk], fun _ => rfl⟩

/-- A call that waits for the attempt under way still does when nothing replaces the attempt. -/
theorem EnsureOk.mono {pending pending' : Option ℕ} {e : Ensure} (h : EnsureOk pending e)
    (hmono : pending.isSome → pending'.isSome) : EnsureOk pending' e := by
  cases e with
  | attempting attempt => exact hmono h
  | attemptFailed attempt err => exact h
  | threw err => exact h
  | delaying attempt => trivial
  | returned => trivial

theorem EnsureOk.connected {pending pending' : Option ℕ} {e : Ensure} (h : EnsureOk pending e) :
    EnsureOk pending' e.connected := by
  cases e with
  | attempting attempt => trivial
  | attemptFailed attempt err => exact h
  | threw err => exact h
  | delaying attempt => trivial
  | returned => trivial

theorem EnsureOk.failed {pending pending' : Option ℕ} {e : Ensure} {err : ClientError}
    (h : EnsureOk pending e) (herr : err.code ≠ .serverError) : EnsureOk pending' (e.failed err) := by
  cases e with
  | attempting attempt => exact herr
  | attemptFailed attempt err => exact h
  | threw err => exact h
  | delaying attempt => trivial
  | returned => trivial

theorem afterFailure_ok (s : CacheClient) (attempt : ℕ) {err : ClientError}
    (h : err.code ≠ .serverError) (pending : Option ℕ) :
    EnsureOk pending (s.afterFailure attempt err) := by
  unfold afterFailure
  split_ifs
  · trivial
  · exact h

/-! ### The invariant -/

/-- Which part of the client is busy with what. -/
structure Control (s : CacheClient) : Prop where
  replying : s.inFlight.isSome = true ↔ s.loop = .replying
  running : s.queue ≠ [] → s.loop ≠ .idle
  closed : s.closed = true → s.queue = []
  calls : ∀ e ∈ s.ensures, EnsureOk s.connectingPromise e

/-- The invariant but for the loop, which is about to go on. -/
structure Paused (s : CacheClient) : Prop where
  free : s.inFlight = none
  closed : s.closed = true → s.queue = []
  calls : ∀ e ∈ s.connectCall, EnsureOk s.connectingPromise e

theorem Control.free (h : Control s) (hloop : s.loop ≠ .replying) : s.inFlight = none := by
  cases hflight : s.inFlight with
  | none => rfl
  | some item => exact absurd (h.replying.1 (by rw [hflight]; rfl)) hloop

theorem Control.paused (h : Control s) (hloop : s.loop ≠ .replying) : Paused s :=
  ⟨h.free hloop, h.closed, fun e he =>
    h.calls e (List.mem_append_right _ (Option.mem_toList.2 he))⟩

/-- The loop waits for a connection for a command that it has taken. -/
theorem Paused.waits {u : CacheClient} (h : Paused s) (hsame : SameCommands s u)
    (hkeep : s.connectingPromise.isSome → u = s) {e : Ensure}
    (hok : EnsureOk u.connectingPromise e) (item : QueueItem) :
    Control { u with loop := .ensuring item e } := by
  refine ⟨?_, fun _ h => (nomatch h), ?_, fun e' he' => ?_⟩
  · simp [hsame.inFlight, h.free]
  · simpa only [hsame.queue, hsame.closed] using h.closed
  · simp only [ensures, List.singleton_append, List.mem_cons, Option.mem_toList] at he'
    rcases he' with rfl | he'
    · exact hok
    · rw [hsame.connectCall] at he'
      refine (h.calls e' he').mono fun hsome => ?_
      show u.connectingPromise.isSome = true
      rw [hkeep hsome]
      exact hsome

theorem Paused.ensure (h : Paused s) (item : QueueItem) :
    Control { (s.ensureConnected false).1 with
      loop := .ensuring item (s.ensureConnected false).2 } := by
  obtain ⟨hok, hkeep⟩ := ensureConnected_ok s false
  exact h.waits (ensureConnected_same s false) hkeep hok item

/-- The loop takes up the next command, or ends. -/
theorem Paused.nextItem (h : Paused s) : Control s.nextItem := by
  have finished : Control { s with loop := .finished } := by
    refine ⟨?_, fun _ h => (nomatch h), h.closed, fun e he => h.calls e ?_⟩
    · simp [h.free]
    · exact Option.mem_toList.1 (by simpa [ensures] using he)
  unfold CacheClient.nextItem
  split
  · exact finished
  · rename_i item queue hqueue
    split_ifs with hclosed
    · exact finished
    · have hpaused : Paused { s with queue := queue } :=
        ⟨h.free, fun hc => absurd hc hclosed, h.calls⟩
      exact hpaused.ensure item

/-- `#drainQueue` does nothing while the loop runs, and starts it otherwise. -/
theorem drainQueue_of_running (h : s.loop ≠ .idle) : s.drainQueue = s := if_pos (Or.inl h)

theorem Paused.drainQueue (h : Paused s) (hloop : s.loop = .idle) : Control s.drainQueue := by
  unfold CacheClient.drainQueue
  split_ifs with hcase
  · refine ⟨by simp [h.free, hloop], fun hne => ?_, h.closed, fun e he => h.calls e ?_⟩
    · rcases hcase with hcase | hcase | hcase
      · exact absurd hloop hcase
      · simp [h.free] at hcase
      · exact absurd hcase hne
    · simpa [ensures, hloop] using he
  · exact h.nextItem

theorem control_drainQueue (hidle : s.loop = .idle → Paused s)
    (hrunning : s.loop ≠ .idle → Control s) : Control s.drainQueue := by
  by_cases hloop : s.loop = .idle
  · exact (hidle hloop).drainQueue hloop
  · rw [drainQueue_of_running hloop]
    exact hrunning hloop

theorem settle_of_inFlight (h : s.inFlight = some item) (r : Except ClientError Response) :
    s.settle r =
      { s with inFlight := none, loop := .settled, outcomes := (item.id, r) :: s.outcomes } := by
  rw [settle, h]

/-- The slot is cleared and the loop can go on. -/
theorem Control.settle (h : Control s) (r : Except ClientError Response) : Control (s.settle r) := by
  unfold CacheClient.settle
  cases hflight : s.inFlight with
  | none => exact h
  | some item =>
    refine ⟨by simp, fun _ h => (nomatch h), h.closed, fun e he => h.calls e ?_⟩
    exact List.mem_append_right _ (by simpa [ensures] using he)

theorem settle_loop_ne_idle (h : s.inFlight = some item) (r : Except ClientError Response) :
    (s.settle r).loop ≠ .idle := by
  rw [settle_of_inFlight h]
  exact fun h => (nomatch h)

/-- A line settles the command in flight, if there is one. -/
theorem dispatchResponseLine_eq (s : CacheClient) (line : JsString) :
    (s.inFlight = none ∧ s.dispatchResponseLine num line = s) ∨
      ∃ item, s.inFlight = some item ∧ s.dispatchResponseLine num line =
        s.settle (dispatchResponse num item.throwOnServerErr line) := by
  unfold dispatchResponseLine
  cases hflight : s.inFlight with
  | none => exact Or.inl ⟨rfl, rfl⟩
  | some item =>
    refine Or.inr ⟨item, rfl, ?_⟩
    simp only
    split
    · rename_i message heq
      rw [heq]
    · exact drainQueue_of_running (settle_loop_ne_idle hflight _)

/-- The lines of a chunk settle commands one after another. -/
theorem onData_induction {P : CacheClient → Prop} (chunk : JsString)
    (hbuffer : ∀ buffer, P { s with readBuffer := buffer })
    (hsettle : ∀ s r, P s → P (s.settle r)) : P (s.onData num chunk) := by
  have fold (lines : List JsString) (s : CacheClient) (h : P s) :
      P (lines.foldl (dispatchResponseLine num) s) := by
    induction lines generalizing s with
    | nil => exact h
    | cons line lines ih =>
      rw [List.foldl_cons]
      rcases dispatchResponseLine_eq s line with ⟨-, heq⟩ | ⟨item, -, heq⟩
      · rw [heq]
        exact ih s h
      · rw [heq]
        exact ih _ (hsettle s _ h)
  exact fold _ _ (hbuffer _)

theorem Control.destroySocket (h : Control s) : Control s.destroySocket :=
  ⟨h.replying, h.running, h.closed, h.calls⟩

theorem Control.setSocket (h : Control s) (sid : ℕ) (socket : Socket) :
    Control (s.setSocket sid socket) :=
  ⟨h.replying, h.running, h.closed, h.calls⟩

theorem Control.onSocketFailure (h : Control s) (err : ClientError) :
    Control (s.onSocketFailure err) := by
  unfold CacheClient.onSocketFailure
  split_ifs
  · exact h
  · exact (h.settle _).destroySocket

theorem Control.commandLine (h : Control s) (line : JsString) (throwOnServerErr : Bool) :
    Control (s.commandLine line throwOnServerErr) := by
  unfold CacheClient.commandLine
  simp only
  split_ifs with hclosed
  · exact ⟨h.replying, h.running, h.closed, h.calls⟩
  · refine control_drainQueue (fun hloop => ?_) fun hloop => ?_
    · have hpaused := h.paused (by rw [hloop]; exact fun h => (nomatch h))
      exact ⟨hpaused.free, fun hc => absurd hc hclosed, hpaused.calls⟩
    · exact ⟨h.replying, fun _ => hloop, fun hc => absurd hc hclosed, h.calls⟩

/-- The explicit call waits for a connection. -/
theorem Control.waits {u : CacheClient} (h : Control s) (hsame : SameCommands s u)
    (hkeep : s.connectingPromise.isSome → u = s) {e : Ensure}
    (hok : EnsureOk u.connectingPromise e) : Control { u with connectCall := some e } := by
  refine ⟨?_, ?_, ?_, fun e' he' => ?_⟩
  · simpa only [hsame.inFlight, hsame.loop] using h.replying
  · simpa only [hsame.queue, hsame.loop] using h.running
  · simpa only [hsame.queue, hsame.closed] using h.closed
  · rcases List.mem_append.1 he' with he' | he'
    · rw [hsame.loop] at he'
      refine (h.calls e' (List.mem_append_left _ he')).mono fun hsome => ?_
      show u.connectingPromise.isSome = true
      rw [hkeep hsome]
      exact hsome
    · obtain rfl := List.mem_singleton.1 he'
      exact hok

theorem Control.connect (h : Control s) : Control s.connect := by
  unfold CacheClient.connect
  split_ifs
  · exact h
  · obtain ⟨hok, hkeep⟩ := ensureConnected_ok s true
    exact h.waits (ensureConnected_same s true) hkeep hok

theorem Control.close (h : Control s) : Control s.close := by
  have hloop : s.inFlight = none → s.loop ≠ .replying := by
    intro hnone heq
    have := h.replying.2 heq
    rw [hnone] at this
    cases this
  unfold CacheClient.close failInFlight CacheClient.settle rejectQueue
  simp only
  cases hflight : s.inFlight with
  | none =>
    exact ⟨by simp [CacheClient.destroySocket, hloop hflight], fun hne => absurd rfl hne,
      fun _ => rfl, h.calls⟩
  | some item =>
    refine ⟨by simp [CacheClient.destroySocket], fun hne => absurd rfl hne, fun _ => rfl,
      fun e he => h.calls e ?_⟩
    exact List.mem_append_right _ (by simpa [ensures, CacheClient.destroySocket] using he)

/-- The calls after every one that waits has been told how the attempt ended. -/
theorem ensures_map (s : CacheClient) (f : Ensure → Ensure) {e : Ensure}
    (he : e ∈ (match s.loop.mapEnsure f with
      | .ensuring _ e => [e]
      | _ => []) ++ (s.connectCall.map f).toList) : ∃ e' ∈ s.ensures, e = f e' := by
  rcases List.mem_append.1 he with he | he
  · cases hloop : s.loop with
    | ensuring item e' =>
      rw [hloop] at he
      exact ⟨e', by simp [ensures, hloop], List.mem_singleton.1 he⟩
    | idle | replying | settled | finished =>
      rw [hloop] at he
      cases he
  · cases hcall : s.connectCall with
    | none => rw [hcall] at he; cases he
    | some e' =>
      rw [hcall] at he
      exact ⟨e', by simp [ensures, hcall], List.mem_singleton.1 he⟩

@[simp] theorem mapEnsure_eq_replying {l : DrainLoop} {f : Ensure → Ensure} :
    l.mapEnsure f = .replying ↔ l = .replying := by
  cases l <;> simp [DrainLoop.mapEnsure]

@[simp] theorem mapEnsure_eq_idle {l : DrainLoop} {f : Ensure → Ensure} :
    l.mapEnsure f = .idle ↔ l = .idle := by
  cases l <;> simp [DrainLoop.mapEnsure]

theorem Control.onConnected (h : Control s) (sid : ℕ) : Control (s.onConnected sid) := by
  refine ⟨by simpa [CacheClient.onConnected] using h.replying,
    by simpa [CacheClient.onConnected] using h.running, h.closed, fun e he => ?_⟩
  obtain ⟨e', he', rfl⟩ := ensures_map s Ensure.connected he
  exact (h.calls e' he').connected

theorem Control.onConnectFailed (h : Control s) (sid : ℕ) {err : ClientError}
    (herr : err.code ≠ .serverError) : Control (s.onConnectFailed sid err) := by
  refine ⟨by simpa [CacheClient.onConnectFailed] using h.replying,
    by simpa [CacheClient.onConnectFailed] using h.running, h.closed, fun e he => ?_⟩
  obtain ⟨e', he', rfl⟩ := ensures_map s (Ensure.failed err) he
  exact (h.calls e' he').failed herr

/-- Another attempt, by the loop or by the explicit call. -/
theorem Control.connectOnce_loop (h : Control s) {e : Ensure} (hloop : s.loop = .ensuring item e)
    (attempt : ℕ) : Control { (s.connectOnce attempt).1 with
      loop := .ensuring item (s.connectOnce attempt).2 } := by
  obtain ⟨hok, hkeep⟩ := connectOnce_ok s attempt
  exact (h.paused (by simp [hloop])).waits (connectOnce_same s attempt) hkeep hok item

theorem Control.connectOnce_call (h : Control s) (attempt : ℕ) :
    Control { (s.connectOnce attempt).1 with connectCall := some (s.connectOnce attempt).2 } := by
  obtain ⟨hok, hkeep⟩ := connectOnce_ok s attempt
  exact h.waits (connectOnce_same s attempt) hkeep hok

theorem Control.proceed (h : Control s) (hloop : s.loop = .ensuring item .returned) :
    Control (s.proceed item) := by
  have hpaused := h.paused (by simp [hloop])
  unfold CacheClient.proceed
  cases s.socket with
  | none =>
    exact Paused.nextItem (s := s.reject item _) ⟨hpaused.free, hpaused.closed, hpaused.calls⟩
  | some sid =>
    exact ⟨by simp, fun _ h => (nomatch h), h.closed,
      fun e he => hpaused.calls e (by simpa [ensures] using he)⟩

/-- **Every step keeps it.** -/
theorem step_control (h : ClientStep num s ev s') (hs : Control s) : Control s' := by
  cases h with
  | submit throwOnServerErr _ => exact hs.commandLine _ _
  | connect => exact hs.connect
  | close => exact hs.close
  | connected _ => exact hs.onConnected _
  | connectTimeout _ => exact hs.onConnectFailed _ (by simp)
  | connectError _ message => exact hs.onConnectFailed _ (by simp)
  | loopDelay hloop => exact hs.connectOnce_loop hloop _
  | connectDelay _ => exact hs.connectOnce_call _
  | resumeFailed hloop =>
    rename_i item attempt err
    have hfailed := hs.calls (.attemptFailed attempt err) (by simp [ensures, hloop])
    refine ⟨by simp [hs.free (by simp [hloop])], fun _ h => (nomatch h), hs.closed, fun e he => ?_⟩
    simp only [ensures, List.singleton_append, List.mem_cons, Option.mem_toList] at he
    rcases he with rfl | he
    · exact afterFailure_ok s attempt hfailed _
    · exact (hs.paused (by simp [hloop])).calls e he
  | resumeReturned hloop => exact hs.proceed hloop
  | resumeThrew hloop =>
    have hpaused := hs.paused (by simp [hloop])
    exact Paused.nextItem (s := s.reject _ _) ⟨hpaused.free, hpaused.closed, hpaused.calls⟩
  | resumeSettled hloop => exact (hs.paused (by simp [hloop])).nextItem
  | resumeFinished hloop =>
    have hpaused := hs.paused (by simp [hloop])
    exact Paused.drainQueue ⟨hpaused.free, hpaused.closed, hpaused.calls⟩ rfl
  | connectFailed hcall =>
    rename_i attempt err
    have hfailed := hs.calls (.attemptFailed attempt err) (by simp [ensures, hcall])
    refine ⟨hs.replying, hs.running, hs.closed, fun e he => ?_⟩
    rcases List.mem_append.1 he with he | he
    · exact hs.calls e (List.mem_append_left _ he)
    · obtain rfl := List.mem_singleton.1 he
      exact afterFailure_ok s attempt hfailed _
  | connectSettled _ _ =>
    refine ⟨hs.replying, hs.running, hs.closed, fun e he => hs.calls e ?_⟩
    exact List.mem_append_left _ (by simpa [ensures] using he)
  | data _ _ _ =>
    refine onData_induction _ (fun buffer => ?_) fun s r h => h.settle r
    exact ⟨hs.replying, hs.running, hs.closed, hs.calls⟩
  | commandTimeout _ => exact (hs.settle _).destroySocket
  | writeFails _ _ message => exact (hs.setSocket _ _).settle _
  | socketError _ message => exact (hs.setSocket _ _).onSocketFailure _
  | socketClose _ => exact (hs.setSocket _ _).onSocketFailure _
  | nodeDestroys _ => exact hs.setSocket _ _
  | peerEnds _ => exact hs.setSocket _ _
  | answer _ _ => exact ⟨hs.replying, hs.running, hs.closed, hs.calls⟩

/-! ### What no step undoes -/

/-- The number of attempts stays the same, and a closed client stays closed. -/
structure Persists (s s' : CacheClient) : Prop where
  maxReconnectAttempts : s'.maxReconnectAttempts = s.maxReconnectAttempts
  closed : s.closed = true → s'.closed = true

theorem Persists.of_eq (hattempts : s'.maxReconnectAttempts = s.maxReconnectAttempts)
    (hclosed : s'.closed = s.closed) : Persists s s' :=
  ⟨hattempts, fun h => hclosed.trans h⟩

theorem Persists.trans {s'' : CacheClient} (h : Persists s s') (h' : Persists s' s'') :
    Persists s s'' :=
  ⟨h'.maxReconnectAttempts.trans h.maxReconnectAttempts, fun hc => h'.closed (h.closed hc)⟩

theorem SameCommands.persists (h : SameCommands s s') : Persists s s' :=
  .of_eq h.maxReconnectAttempts h.closed

theorem Persists.nextItem (h : Persists s s') : Persists s s'.nextItem := by
  unfold CacheClient.nextItem
  split
  · exact ⟨h.maxReconnectAttempts, h.closed⟩
  · rename_i item queue _
    split_ifs
    · exact ⟨h.maxReconnectAttempts, h.closed⟩
    · have hsame := ensureConnected_same { s' with queue := queue } false
      exact ⟨hsame.maxReconnectAttempts.trans h.maxReconnectAttempts,
        fun hclosed => hsame.closed.trans (h.closed hclosed)⟩

theorem Persists.drainQueue (h : Persists s s') : Persists s s'.drainQueue := by
  unfold CacheClient.drainQueue
  split_ifs
  · exact h
  · exact h.nextItem

theorem settle_persists (s : CacheClient) (r : Except ClientError Response) :
    Persists s (s.settle r) := by
  unfold CacheClient.settle
  split <;> exact .of_eq rfl rfl

theorem onSocketFailure_persists (s : CacheClient) (err : ClientError) :
    Persists s (s.onSocketFailure err) := by
  unfold onSocketFailure
  split_ifs
  · exact .of_eq rfl rfl
  · exact (s.settle_persists _).trans (destroySocket_same _).persists

theorem step_persists (h : ClientStep num s ev s') : Persists s s' := by
  cases h with
  | submit throwOnServerErr _ =>
    unfold commandLine
    simp only
    split_ifs
    · exact .of_eq rfl rfl
    · exact Persists.drainQueue (.of_eq rfl rfl)
  | connect =>
    unfold connect
    split_ifs
    · exact .of_eq rfl rfl
    · have hsame := ensureConnected_same s true
      exact .of_eq hsame.maxReconnectAttempts hsame.closed
  | close =>
    have hsettled := settle_persists { s with intentionalClose := true, closed := true }
      (.error ⟨.clientClosed, js "client is closed"⟩)
    exact ⟨hsettled.maxReconnectAttempts, fun _ => hsettled.closed rfl⟩
  | loopDelay _ | connectDelay _ =>
    exact .of_eq (connectOnce_same s _).maxReconnectAttempts (connectOnce_same s _).closed
  | resumeReturned _ =>
    unfold proceed
    split
    · exact Persists.nextItem (.of_eq rfl rfl)
    · exact .of_eq rfl rfl
  | resumeThrew _ => exact Persists.nextItem (.of_eq rfl rfl)
  | resumeSettled _ => exact Persists.nextItem (.of_eq rfl rfl)
  | resumeFinished _ => exact Persists.drainQueue (.of_eq rfl rfl)
  | data _ _ _ =>
    exact onData_induction (P := Persists s) _ (fun _ => .of_eq rfl rfl) fun u r h =>
      h.trans (u.settle_persists r)
  | commandTimeout _ => exact (s.settle_persists _).trans (destroySocket_same _).persists
  | writeFails _ _ message => exact (setSocket_same s _ _).persists.trans (settle_persists _ _)
  | socketError _ message =>
    exact (setSocket_same s _ _).persists.trans (onSocketFailure_persists _ _)
  | socketClose _ => exact (setSocket_same s _ _).persists.trans (onSocketFailure_persists _ _)
  | connected _ | connectTimeout _ | connectError _ message | resumeFailed _ | connectFailed _
  | connectSettled _ _ | nodeDestroys _ | peerEnds _ | answer _ _ => exact .of_eq rfl rfl

end CacheClient

end DistributedCache
