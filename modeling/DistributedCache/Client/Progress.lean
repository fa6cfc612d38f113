import DistributedCache.Client.Integrity
import DistributedCache.Lib.Progress

/-!
# No command waits forever

A step of the client either leaves the loop of `#processNext` where it is or moves it on, and
`step_turn` says once in which ways. While a command is not settled, each of these moves is paid for
by `work`: the attempts that the loop has left for the command it has taken, and a full round for
each command that is ahead in the queue. Commands submitted later, the explicit `connect()`, sockets that
fail and answers that nobody waits for do not add to it.

* `Turn`, `step_turn`: what a step does to the loop and the queue;
* `CacheClient.work`, `ranked_work`;
* `loop_moves`: the client's own timers and continuations can always move the loop on;
* `no_starvation`.
-/

namespace DistributedCache

/-- A call of `#ensureConnectedForOperation` goes on. -/
inductive Ensure.Step (maxReconnectAttempts : ℕ) : Ensure → Ensure → Prop
  | connected (attempt : ℕ) : Step maxReconnectAttempts (.attempting attempt) .returned
  | failed (attempt : ℕ) (err : ClientError) :
      Step maxReconnectAttempts (.attempting attempt) (.attemptFailed attempt err)
  | delay {attempt : ℕ} (err : ClientError) (h : attempt < maxReconnectAttempts) :
      Step maxReconnectAttempts (.attemptFailed attempt err) (.delaying attempt)
  | giveUp (attempt : ℕ) (err : ClientError) :
      Step maxReconnectAttempts (.attemptFailed attempt err) (.threw err)
  | retry (attempt : ℕ) :
      Step maxReconnectAttempts (.delaying attempt) (.attempting (attempt + 1))
  | joined (attempt : ℕ) : Step maxReconnectAttempts (.delaying attempt) .returned

/-- A call of `#ensureConnectedForOperation` has run up to its first `await`. -/
inductive Ensure.Fresh (maxReconnectAttempts : ℕ) : Ensure → Prop
  | attempting (h : 1 ≤ maxReconnectAttempts) : Fresh maxReconnectAttempts (.attempting 1)
  | returned : Fresh maxReconnectAttempts .returned
  | threw (err : ClientError) : Fresh maxReconnectAttempts (.threw err)

/-- The turns left for a call of `#ensureConnectedForOperation` and the command it is for. -/
def Ensure.left (maxReconnectAttempts : ℕ) : Ensure → ℕ
  | .attempting attempt => 3 * (maxReconnectAttempts - attempt) + 3
  | .attemptFailed attempt _ => 3 * (maxReconnectAttempts - attempt) + 2
  | .delaying attempt => 3 * (maxReconnectAttempts - attempt) + 1
  | .returned => 2
  | .threw _ => 1

theorem Ensure.left_le (maxReconnectAttempts : ℕ) (e : Ensure) :
    e.left maxReconnectAttempts ≤ 3 * maxReconnectAttempts + 3 := by
  cases e <;> simp only [left] <;> omega

theorem Ensure.left_pos (maxReconnectAttempts : ℕ) (e : Ensure) :
    0 < e.left maxReconnectAttempts := by
  cases e <;> simp only [left] <;> omega

theorem Ensure.Fresh.left_lt {maxReconnectAttempts : ℕ} {e : Ensure}
    (h : e.Fresh maxReconnectAttempts) :
    e.left maxReconnectAttempts < 3 * maxReconnectAttempts + 3 := by
  cases h <;> simp only [left] <;> omega

/-- A retry is made only where an attempt is left. -/
theorem Ensure.Step.left_lt {maxReconnectAttempts : ℕ} {e e' : Ensure}
    (h : e.Step maxReconnectAttempts e')
    (hdelay : ∀ attempt, e = .delaying attempt → attempt < maxReconnectAttempts) :
    e'.left maxReconnectAttempts < e.left maxReconnectAttempts := by
  cases h with
  | connected | failed | delay | giveUp => simp only [left]; omega
  | retry attempt | joined attempt =>
    have hlt := hdelay attempt rfl
    simp only [left]
    omega

/-- The turns left for the command that the loop is busy with. -/
def DrainLoop.left (maxReconnectAttempts : ℕ) : DrainLoop → ℕ
  | .ensuring _ e => e.left maxReconnectAttempts
  | .replying => 1
  | .idle | .settled | .finished => 0

theorem DrainLoop.left_le (maxReconnectAttempts : ℕ) (l : DrainLoop) :
    l.left maxReconnectAttempts ≤ 3 * maxReconnectAttempts + 3 := by
  cases l with
  | ensuring item e => exact e.left_le maxReconnectAttempts
  | replying | idle | settled | finished => simp [left]

namespace CacheClient

open Ledger

variable {num : Numerals} {s s' : CacheClient} {ev : ClientEvent} {item : QueueItem} {i : ℕ}
  {past : List ClientEvent} {autoReconnect : Bool} {maxReconnectAttempts : ℕ}

/-- The command with this number is settled. -/
def Done (s : CacheClient) (i : ℕ) : Prop := i ∈ s.outcomes.map Prod.fst

/-- The queue has been added to at its end, or all that was in it is settled. -/
def Requeued (s s' : CacheClient) : Prop :=
  (∃ new : List QueueItem, s'.queue = s.queue ++ new ∧ ∀ item ∈ new, s.commands.length ≤ item.id) ∨
    s'.queue = [] ∧ ∀ item ∈ s.queue, Done s' item.id

/-- The loop has gone on with the queue: it has ended, or taken the first command. -/
inductive Next (s s' : CacheClient) : Prop
  | ended (hqueue : s.queue = [] ∨ s.closed = true) (h : s'.queue = s.queue)
      (hloop : s'.loop = .idle ∨ s'.loop = .finished)
  | took {item : QueueItem} {e : Ensure} (hqueue : s.queue = item :: s'.queue)
      (hloop : s'.loop = .ensuring item e) (h : e.Fresh s.maxReconnectAttempts)

/-- What a step does to the loop. -/
inductive Turn (s s' : CacheClient) : Prop
  | stays (h : s'.loop = s.loop) (hqueue : Requeued s s')
  | starts (h : s.loop = .idle)
      (hfresh : ∀ item attempt, s'.loop ≠ .ensuring item (.delaying attempt))
  | waits {item : QueueItem} {e e' : Ensure} (h : s.loop = .ensuring item e)
      (h' : s'.loop = .ensuring item e') (hstep : e.Step s.maxReconnectAttempts e')
      (hqueue : s'.queue = s.queue)
  | writes {item : QueueItem} (h : s.loop = .ensuring item .returned) (h' : s'.loop = .replying)
      (hqueue : s'.queue = s.queue)
  | settles {item : QueueItem} (h : s.inFlight = some item) (h' : s'.loop = .settled)
      (hdone : Done s' item.id) (hqueue : Requeued s s')
  | goesOn (h : s.loop ≠ .idle) (hfree : s.inFlight = none)
      (hdone : ∀ item ∈ held s.loop, Done s' item.id) (hnext : Next s s')

theorem Requeued.of_eq (h : s'.queue = s.queue) : Requeued s s' :=
  Or.inl ⟨[], by rw [h, List.append_nil], fun _ hmem => absurd hmem List.not_mem_nil⟩

/-! ### The loop -/

theorem connectOnce_fresh (s : CacheClient) (attempt : ℕ) :
    (s.connectOnce attempt).2 = .returned ∨ (s.connectOnce attempt).2 = .attempting attempt := by
  unfold connectOnce
  split_ifs
  · exact Or.inl rfl
  · exact Or.inr rfl
  · exact Or.inr rfl

theorem ensureConnected_fresh (s : CacheClient) (b : Bool) :
    (s.ensureConnected b).2.Fresh s.maxReconnectAttempts := by
  unfold ensureConnected
  split_ifs with hconnected hauto hattempts
  · exact .returned
  · exact .threw _
  · rcases s.connectOnce_fresh 1 with h | h
    · rw [h]
      exact .returned
    · rw [h]
      exact .attempting hattempts
  · exact .threw _

theorem next_nextItem {u : CacheClient} (hqueue : u.queue = s.queue) (hclosed : u.closed = s.closed)
    (hattempts : u.maxReconnectAttempts = s.maxReconnectAttempts) : Next s u.nextItem := by
  unfold nextItem
  split
  · rename_i hnil
    exact .ended (Or.inl (hqueue ▸ hnil)) hqueue (Or.inr rfl)
  · rename_i item queue hcons
    split_ifs with hc
    · exact .ended (Or.inr (hclosed ▸ hc)) hqueue (Or.inr rfl)
    · have hsame := ensureConnected_same { u with queue := queue } false
      refine .took ?_ rfl
        (hattempts ▸ ensureConnected_fresh { u with queue := queue } false)
      rw [← hqueue, hcons]
      exact congrArg _ hsame.queue.symm

/-- Whoever waits is told how the attempt ended. -/
theorem turn_mapEnsure {f : Ensure → Ensure} (hloop : s'.loop = s.loop.mapEnsure f)
    (hqueue : s'.queue = s.queue)
    (hf : ∀ e, f e = e ∨ e.Step s.maxReconnectAttempts (f e)) : Turn s s' := by
  cases h : s.loop with
  | ensuring item e =>
    rw [h] at hloop
    rcases hf e with he | he
    · exact .stays (by rw [hloop, h]; exact congrArg _ he) (.of_eq hqueue)
    · exact .waits h hloop he hqueue
  | idle | replying | settled | finished => exact .stays (by rw [hloop, h]; rfl) (.of_eq hqueue)

theorem turn_settle {u : CacheClient} (hflight : u.inFlight = s.inFlight)
    (hloop : u.loop = s.loop) (r : Except ClientError Response)
    (h' : s'.loop = (u.settle r).loop) (houtcomes : s'.outcomes = (u.settle r).outcomes)
    (hqueue : s'.queue = s.queue) : Turn s s' := by
  cases hcase : s.inFlight with
  | none =>
    have hsame : u.settle r = u := by rw [settle, hflight, hcase]
    exact .stays (by rw [h', hsame, hloop]) (.of_eq hqueue)
  | some item =>
    rw [settle_of_inFlight (hflight.trans hcase)] at h' houtcomes
    exact .settles hcase h' (by simp [Done, houtcomes]) (.of_eq hqueue)

theorem turn_onSocketFailure {u : CacheClient} (hflight : u.inFlight = s.inFlight)
    (hloop : u.loop = s.loop) (hqueue : u.queue = s.queue) (err : ClientError) :
    Turn s (u.onSocketFailure err) := by
  unfold onSocketFailure
  split_ifs
  · exact .stays hloop (.of_eq hqueue)
  · refine turn_settle hflight hloop (.error err) rfl rfl ?_
    rw [← hqueue]
    unfold failInFlight settle destroySocket
    split <;> rfl

/-- The loop has rejected the command that it had taken, and goes on. -/
theorem turn_reject (hs : Control s) {e : Ensure} (hloop : s.loop = .ensuring item e)
    (err : ClientError) : Turn s (s.reject item err).nextItem := by
  refine .goesOn (by simp [hloop]) (hs.free (by simp [hloop])) (fun held hheld => ?_)
    (next_nextItem (u := s.reject item err) rfl rfl rfl)
  rw [hloop] at hheld
  obtain rfl := List.mem_singleton.1 hheld
  rw [Done, (nextItem_spec _).2.2.2.1]
  simp [reject]

theorem turn_close (s : CacheClient) : Turn s s.close := by
  have hqueue : Requeued s s.close := by
    refine Or.inr ⟨rfl, fun item hitem => ?_⟩
    have hsame : (({ s with intentionalClose := true, closed := true } : CacheClient).failInFlight
        ⟨.clientClosed, js "client is closed"⟩).queue = s.queue := by
      unfold failInFlight settle
      split <;> rfl
    refine List.mem_map.2 ⟨(item.id, .error ⟨.clientClosed, js "client is closed"⟩),
      List.mem_append_left _ ?_, rfl⟩
    rw [hsame]
    simpa using ⟨item, hitem, rfl⟩
  cases hflight : s.inFlight with
  | none =>
    refine .stays ?_ hqueue
    simp [close, failInFlight, settle, hflight, rejectQueue, destroySocket]
  | some item =>
    refine .settles hflight ?_ ?_ hqueue
    · simp [close, failInFlight, settle, hflight, rejectQueue, destroySocket]
    · simp [Done, close, failInFlight, settle, hflight, rejectQueue, destroySocket]

theorem turn_commandLine (s : CacheClient) (line : JsString) (throwOnServerErr : Bool) :
    Turn s (s.commandLine line throwOnServerErr) := by
  by_cases hidle : s.loop = .idle
  · refine .starts hidle fun item attempt => ?_
    unfold commandLine drainQueue
    simp only
    split_ifs
    · simp [reject, hidle]
    · simp [hidle]
    · rcases next_nextItem (u := { s with
          commands := s.commands ++ [⟨s.commands.length, line, throwOnServerErr⟩]
          queue := s.queue ++ [⟨s.commands.length, line, throwOnServerErr⟩] }) rfl rfl rfl with
        ⟨-, -, hloop | hloop⟩ | ⟨-, hloop, hfresh⟩
      · rw [hloop]
        simp
      · rw [hloop]
        simp
      · rw [hloop]
        intro heq
        cases heq
        cases hfresh
  · unfold commandLine
    simp only
    split_ifs
    · exact .stays rfl (.of_eq rfl)
    · have hsame (u : CacheClient) (h : u.loop = s.loop) : u.drainQueue = u :=
        drainQueue_of_running (h ▸ hidle)
      rw [hsame]
      · exact .stays rfl (Or.inl ⟨_, rfl, by simp⟩)
      · rfl

theorem turn_onData {u : CacheClient} (hflight : u.inFlight = s.inFlight) (hloop : u.loop = s.loop)
    (hqueue : u.queue = s.queue) (chunk : JsString) : Turn s (u.onData num chunk) := by
  refine (onData_induction (P := fun s' => Turn s s' ∧ (s'.inFlight = s.inFlight ∧
      s'.loop = s.loop ∧ s'.queue = s.queue ∨ s'.inFlight = none)) chunk (fun buffer => ?_)
    fun s' r h => ?_).1
  · exact ⟨.stays hloop (.of_eq hqueue), Or.inl ⟨hflight, hloop, hqueue⟩⟩
  · rcases h with ⟨hturn, ⟨hflight, hloop, hqueue⟩ | hnone⟩
    · refine ⟨turn_settle hflight hloop r rfl rfl ?_, ?_⟩
      · rw [← hqueue]
        unfold settle
        split <;> rfl
      · unfold settle
        cases hcase : s'.inFlight with
        | none => exact Or.inr hcase
        | some item => exact Or.inr rfl
    · have hsame : s'.settle r = s' := by rw [settle, hnone]
      rw [hsame]
      exact ⟨hturn, Or.inr hnone⟩

/-- **What a step does to the loop and the queue.** -/
theorem step_turn (h : ClientStep num s ev s') (hs : Control s) : Turn s s' := by
  cases h with
  | submit throwOnServerErr _ => exact turn_commandLine s _ _
  | connect =>
    unfold connect
    split_ifs
    · exact .stays rfl (.of_eq rfl)
    · have hsame := ensureConnected_same s true
      exact .stays hsame.loop (.of_eq hsame.queue)
  | close => exact turn_close s
  | connected _ =>
    refine turn_mapEnsure rfl rfl fun e => ?_
    cases e with
    | attempting attempt => exact Or.inr (.connected attempt)
    | attemptFailed _ _ | delaying _ | returned | threw _ => exact Or.inl rfl
  | connectTimeout _ | connectError _ message =>
    refine turn_mapEnsure rfl rfl fun e => ?_
    cases e with
    | attempting attempt => exact Or.inr (.failed attempt _)
    | attemptFailed _ _ | delaying _ | returned | threw _ => exact Or.inl rfl
  | loopDelay hloop =>
    rename_i item attempt
    have hsame := connectOnce_same s (attempt + 1)
    rcases s.connectOnce_fresh (attempt + 1) with he | he
    · exact .waits hloop (congrArg _ he) (.joined attempt) hsame.queue
    · exact .waits hloop (congrArg _ he) (.retry attempt) hsame.queue
  | connectDelay hcall =>
    rename_i attempt
    have hsame := connectOnce_same s (attempt + 1)
    exact .stays hsame.loop (.of_eq hsame.queue)
  | resumeFailed hloop =>
    rename_i item attempt err
    refine .waits hloop rfl ?_ rfl
    unfold afterFailure
    split_ifs with hlt
    · exact .delay err hlt
    · exact .giveUp attempt err
  | resumeReturned hloop =>
    unfold proceed
    cases s.socket with
    | none => exact turn_reject hs hloop _
    | some sid => exact .writes hloop rfl rfl
  | resumeThrew hloop => exact turn_reject hs hloop _
  | resumeSettled hloop =>
    exact .goesOn (by simp [hloop]) (hs.free (by simp [hloop])) (by simp [hloop, held])
      (next_nextItem rfl rfl rfl)
  | resumeFinished hloop =>
    refine .goesOn (by simp [hloop]) (hs.free (by simp [hloop])) (by simp [hloop, held]) ?_
    unfold drainQueue
    split_ifs with hcase
    · refine .ended (Or.inl ?_) rfl (Or.inl rfl)
      simpa [hs.free (by simp [hloop])] using hcase
    · exact next_nextItem rfl rfl rfl
  | connectFailed _ | connectSettled _ _ => exact .stays rfl (.of_eq rfl)
  | data _ _ _ => exact turn_onData (s := s) (u := s.setLink _ _) rfl rfl rfl _
  | commandTimeout _ =>
    refine turn_settle rfl rfl _ rfl rfl ?_
    unfold failInFlight settle destroySocket
    split <;> rfl
  | writeFails _ _ message =>
    refine turn_settle (u := s.markDestroyed _) rfl rfl _ rfl rfl ?_
    unfold failInFlight settle
    split <;> rfl
  | socketError _ message =>
    exact turn_onSocketFailure (s := s) (u := s.markDestroyed _) rfl rfl rfl _
  | socketClose _ => exact turn_onSocketFailure (s := s) (u := s.markDestroyed _) rfl rfl rfl _
  | nodeDestroys _ | peerEnds _ | answer _ _ => exact .stays rfl (.of_eq rfl)

/-! ### The work that is left -/

/-- The commands in the queue up to the `i`-th. -/
def ahead (s : CacheClient) (i : ℕ) : ℕ := s.queue.countP fun item => item.id ≤ i

/-- How often the loop can move before the `i`-th command is settled. -/
def work (s : CacheClient) (i : ℕ) : ℕ :=
  s.loop.left s.maxReconnectAttempts + (if i ∈ s.queue.map QueueItem.id then 1 else 0) +
    s.ahead i * (3 * s.maxReconnectAttempts + 3)

/-- The loop waits for a delay only where an attempt is left. -/
def Paced (s : CacheClient) : Prop :=
  ∀ item attempt, s.loop = .ensuring item (.delaying attempt) → attempt < s.maxReconnectAttempts

theorem Paced.turn (hs : Paced s) (h : Turn s s')
    (hattempts : s'.maxReconnectAttempts = s.maxReconnectAttempts) : Paced s' := by
  intro item attempt hloop
  rw [hattempts]
  cases h with
  | stays h _ => exact hs item attempt (h ▸ hloop)
  | starts _ hfresh => exact absurd hloop (hfresh item attempt)
  | waits _ h' hstep _ =>
    rw [h'] at hloop
    cases hloop
    cases hstep with
    | delay _ hlt => exact hlt
  | writes _ h' _ => rw [h'] at hloop; cases hloop
  | settles _ h' _ _ => rw [h'] at hloop; cases hloop
  | goesOn _ _ _ hnext =>
    cases hnext with
    | ended _ _ hended =>
      rcases hended with hended | hended
      · rw [hended] at hloop; cases hloop
      · rw [hended] at hloop; cases hloop
    | took _ htook hfresh =>
      rw [htook] at hloop
      cases hloop
      cases hfresh

theorem Done.step (hs : Control s) (h : ClientStep num s ev s') (hdone : Done s i) : Done s' i :=
  (((step_ledger h hs).ended_suffix).map Prod.fst).subset hdone

/-- Later commands are not ahead. -/
theorem Requeued.ahead_le (h : Requeued s s') (hi : i < s.commands.length) (hopen : ¬ Done s' i) :
    s'.ahead i ≤ s.ahead i ∧
      (i ∈ s'.queue.map QueueItem.id → i ∈ s.queue.map QueueItem.id) := by
  rcases h with ⟨new, hqueue, hnew⟩ | ⟨hqueue, -⟩
  · have hlater : ∀ item ∈ new, i < item.id := fun item hitem => hi.trans_le (hnew item hitem)
    unfold ahead
    rw [hqueue, List.countP_append, List.map_append, List.mem_append]
    refine ⟨?_, fun hmem => hmem.resolve_right fun hmem => ?_⟩
    · have hzero : new.countP (fun item => item.id ≤ i) = 0 :=
        List.countP_eq_zero.2 fun item hitem => by simpa using hlater item hitem
      omega
    · obtain ⟨item, hitem, rfl⟩ := List.mem_map.1 hmem
      exact lt_irrefl _ (hlater item hitem)
  · unfold ahead
    rw [hqueue]
    exact ⟨Nat.zero_le _, fun hmem => absurd hmem List.not_mem_nil⟩

/-- While the `i`-th command is not settled, the loop stays where it is and nothing is added to the
work, or there is less of it. -/
theorem Turn.work_le (h : Turn s s') (hs : Sound num s) (hpaced : Paced s)
    (hattempts : s'.maxReconnectAttempts = s.maxReconnectAttempts) (hi : i < s.commands.length)
    (hbefore : ¬ Done s i) (hopen : ¬ Done s' i) :
    s'.loop = s.loop ∧ s'.work i ≤ s.work i ∨ s'.work i < s.work i := by
  obtain ⟨hbusy, hplace⟩ := hs.busy hi hbefore
  have hless (hqueue : Requeued s s')
      (hloop : s'.loop.left s.maxReconnectAttempts < s.loop.left s.maxReconnectAttempts) :
      s'.work i < s.work i := by
    obtain ⟨hahead, hmem⟩ := hqueue.ahead_le hi hopen
    have hmul := Nat.mul_le_mul_right (3 * s.maxReconnectAttempts + 3) hahead
    have hflag : (if i ∈ s'.queue.map QueueItem.id then 1 else 0) ≤
        if i ∈ s.queue.map QueueItem.id then 1 else 0 := by
      split_ifs with h₁ h₂
      · exact le_rfl
      · exact absurd (hmem h₁) h₂
      · exact Nat.zero_le _
      · exact le_rfl
    unfold work
    rw [hattempts]
    omega
  cases h with
  | stays h hqueue =>
    obtain ⟨hahead, hmem⟩ := hqueue.ahead_le hi hopen
    refine Or.inl ⟨h, ?_⟩
    unfold work
    rw [hattempts, h]
    refine Nat.add_le_add (Nat.add_le_add_left ?_ _) (Nat.mul_le_mul_right _ hahead)
    split_ifs with h₁ h₂
    · exact le_rfl
    · exact absurd (hmem h₁) h₂
    · exact Nat.zero_le _
    · exact le_rfl
  | starts hidle _ => exact absurd hidle hbusy
  | waits h h' hstep hqueue =>
    refine Or.inr (hless (.of_eq hqueue) ?_)
    rw [h, h']
    exact hstep.left_lt fun attempt he => hpaced _ attempt (he ▸ h)
  | writes h h' hqueue =>
    refine Or.inr (hless (.of_eq hqueue) ?_)
    rw [h, h']
    exact Nat.one_lt_two
  | settles h h' _ hqueue =>
    refine Or.inr (hless hqueue ?_)
    rw [hs.control.replying.1 (by rw [h]; rfl), h']
    exact Nat.one_pos
  | goesOn _ hfree hdone hnext =>
    -- the command is neither held nor in flight, so the queue has it
    have hqueued : i ∈ s.queue.map QueueItem.id := by
      rcases hplace with hplace | hplace
      · rw [waiting, List.map_append, List.mem_append] at hplace
        refine hplace.resolve_left fun hheld => ?_
        obtain ⟨item, hitem, rfl⟩ := List.mem_map.1 hheld
        exact hopen (hdone item hitem)
      · rw [hfree] at hplace
        cases hplace
    have hne : s.queue ≠ [] := by
      intro hnil
      rw [hnil] at hqueued
      cases hqueued
    cases hnext with
    | ended hqueue _ _ =>
      rcases hqueue with hqueue | hclosed
      · exact absurd hqueue hne
      · exact absurd (hs.control.closed hclosed) hne
    | took hqueue hloop hfresh =>
      rename_i item e
      -- the command taken is not younger
      have hsorted : (s.queue.map QueueItem.id).Pairwise (· < ·) := by
        have hwaiting : (s.waiting.map QueueItem.id).Pairwise (· < ·) := hs.ordered.waiting_sorted
        rw [waiting, List.map_append] at hwaiting
        exact (List.pairwise_append.1 hwaiting).2.1
      have hle : item.id ≤ i := by
        rw [hqueue, List.map_cons, List.mem_cons] at hqueued
        rw [hqueue, List.map_cons, List.pairwise_cons] at hsorted
        rcases hqueued with rfl | hlater
        · exact le_rfl
        · exact (hsorted.1 i hlater).le
      have hahead : s.ahead i = s'.ahead i + 1 := by
        unfold ahead
        rw [hqueue, List.countP_cons_of_pos (by simpa using hle)]
      have hleft := hfresh.left_lt
      have hone : (if i ∈ s'.queue.map QueueItem.id then 1 else 0) ≤ 1 := by
        split_ifs
        · exact le_rfl
        · exact Nat.zero_le _
      refine Or.inr ?_
      unfold work
      rw [hattempts, hloop, if_pos hqueued, hahead, Nat.add_mul, Nat.one_mul]
      show e.left s.maxReconnectAttempts + _ + _ < _
      omega

/-- Going on with the queue does not come back to where the loop was. -/
theorem Next.loop_ne (h : Next s s') (hs : Sound num s) (hidle : s.loop ≠ .idle)
    (hfinished : s.loop ≠ .finished) : s'.loop ≠ s.loop := by
  cases h with
  | ended _ _ hloop =>
    rcases hloop with hloop | hloop
    · exact hloop ▸ hidle.symm
    · exact hloop ▸ hfinished.symm
  | took hqueue hloop _ =>
    intro heq
    have hsorted : (s.waiting.map QueueItem.id).Pairwise (· < ·) := hs.ordered.waiting_sorted
    rw [waiting, ← heq, hloop, hqueue] at hsorted
    simp only [held, List.singleton_append, List.map_cons, List.pairwise_cons] at hsorted
    exact lt_irrefl _ (hsorted.1 _ List.mem_cons_self)

/-- The loop can move on, by an event of the client's own: the connect timeout, the delay before
another attempt, the command timeout, or a promise that is settled. -/
theorem loop_moves (hs : Sound num s) (hloop : s.loop ≠ .idle) :
    ∃ ev ∈ [ClientEvent.connectTimeout, .loopDelay, .resumeLoop, .commandTimeout], ∃ s',
      ClientStep num s ev s' ∧ s'.loop ≠ s.loop := by
  have hnext (hfinished : s.loop ≠ .finished) {u : CacheClient} (hqueue : u.queue = s.queue)
      (hclosed : u.closed = s.closed)
      (hattempts : u.maxReconnectAttempts = s.maxReconnectAttempts) : u.nextItem.loop ≠ s.loop :=
    (next_nextItem hqueue hclosed hattempts).loop_ne hs hloop hfinished
  cases hcase : s.loop with
  | idle => exact absurd hcase hloop
  | ensuring item e =>
    cases e with
    | attempting attempt =>
      have hpending := hs.control.calls (.attempting attempt) (by simp [ensures, hcase])
      obtain ⟨sid, hsid⟩ := Option.isSome_iff_exists.1 hpending
      refine ⟨.connectTimeout, by simp, _, .connectTimeout s hsid, ?_⟩
      simp [onConnectFailed, hcase, DrainLoop.mapEnsure, Ensure.failed]
    | attemptFailed attempt err =>
      refine ⟨.resumeLoop, by simp, _, .resumeFailed s hcase, ?_⟩
      unfold afterFailure
      split_ifs <;> simp
    | delaying attempt =>
      refine ⟨.loopDelay, by simp, _, .loopDelay s hcase, ?_⟩
      rcases s.connectOnce_fresh (attempt + 1) with he | he <;> simp [he]
    | returned =>
      refine ⟨.resumeLoop, by simp, _, .resumeReturned s hcase, ?_⟩
      unfold proceed
      cases s.socket with
      | none => exact hcase ▸ hnext (by simp [hcase]) rfl rfl rfl
      | some sid => simp
    | threw err =>
      refine ⟨.resumeLoop, by simp, _, .resumeThrew s hcase, ?_⟩
      exact hcase ▸ hnext (by simp [hcase]) rfl rfl rfl
  | replying =>
    have hflight := hs.control.replying.2 hcase
    refine ⟨.commandTimeout, by simp, _, .commandTimeout s hflight, ?_⟩
    obtain ⟨item, hitem⟩ := Option.isSome_iff_exists.1 hflight
    simp [failInFlight, settle_of_inFlight hitem, destroySocket]
  | settled =>
    exact ⟨.resumeLoop, by simp, _, .resumeSettled s hcase,
      hcase ▸ hnext (by simp [hcase]) rfl rfl rfl⟩
  | finished =>
    refine ⟨.resumeLoop, by simp, _, .resumeFinished s hcase, ?_⟩
    unfold drainQueue
    split_ifs with h
    · simp
    · have hqueue : s.queue ≠ [] := fun hnil => h (Or.inr (Or.inr hnil))
      rcases next_nextItem (s := s) (u := { s with loop := .idle }) rfl rfl rfl with
        ⟨hnil | hclosed, -, -⟩ | ⟨-, htook, -⟩
      · exact absurd hnil hqueue
      · exact absurd (hs.control.closed hclosed) hqueue
      · rw [htook]
        simp

/-- `work` is a rank for the moves of the loop while the `i`-th command is not settled. -/
theorem ranked_work (num : Numerals) (autoReconnect : Bool) (maxReconnectAttempts i : ℕ) :
    (clientSystem num autoReconnect maxReconnectAttempts).Ranked (fun s s' => s'.loop ≠ s.loop)
      (fun s => Sound num s ∧ Paced s ∧ s.maxReconnectAttempts = maxReconnectAttempts ∧
        i < s.commands.length) (fun s => ¬ Done s i) fun s => s.work i where
  invariant := by
    rintro s ev s' ⟨hs, hpaced, hattempts, hi⟩ h
    have hsame := (step_persists h).maxReconnectAttempts
    refine ⟨hs.step h, hpaced.turn (step_turn h hs.control) hsame, hsame.trans hattempts, ?_⟩
    exact hi.trans_le (step_ledger h hs.control).submitted_le
  waited h hstep hopen hdone := hopen (hdone.step h.1.control hstep)
  step := by
    rintro s ev s' ⟨hs, hpaced, hattempts, hi⟩ h hopen
    rcases (step_turn h hs.control).work_le hs hpaced (step_persists h).maxReconnectAttempts hi
      (fun hdone => hopen (hdone.step hs.control h)) hopen with ⟨-, hle⟩ | hlt
    · exact hle
    · exact hlt.le
  move := by
    rintro s ev s' ⟨hs, hpaced, hattempts, hi⟩ h hopen hmove
    rcases (step_turn h hs.control).work_le hs hpaced (step_persists h).maxReconnectAttempts hi
      (fun hdone => hopen (hdone.step hs.control h)) hopen with ⟨hsame, -⟩ | hlt
    · exact absurd hsame hmove
    · exact hlt

theorem work_le (s : CacheClient) (i : ℕ) :
    s.work i ≤ (s.ahead i + 1) * (3 * s.maxReconnectAttempts + 3) + 1 := by
  have hleft := s.loop.left_le s.maxReconnectAttempts
  unfold work
  rw [Nat.add_mul, Nat.one_mul]
  split_ifs <;> omega

/-- There is work left for a command that is not settled. -/
theorem Sound.work_pos (hs : Sound num s) (hi : i < s.commands.length) (hopen : ¬ Done s i) :
    0 < s.work i := by
  unfold work
  rcases (hs.busy hi hopen).2 with hplace | hplace
  · rw [waiting, List.map_append, List.mem_append] at hplace
    rcases hplace with hheld | hqueued
    · cases hloop : s.loop with
      | ensuring item e =>
        have hpos : 0 < (DrainLoop.ensuring item e).left s.maxReconnectAttempts := e.left_pos _
        omega
      | idle | replying | settled | finished =>
        rw [hloop] at hheld
        cases hheld
    · rw [if_pos hqueued]
      omega
  · have hloop : s.loop = .replying := by
      refine hs.control.replying.1 ?_
      cases hflight : s.inFlight with
      | none => rw [hflight] at hplace; cases hplace
      | some item => rfl
    rw [hloop]
    simp only [DrainLoop.left]
    omega

theorem run_paced (hrun : (clientSystem num autoReconnect maxReconnectAttempts).Run past s) :
    Sound num s ∧ Paced s ∧ s.maxReconnectAttempts = maxReconnectAttempts :=
  hrun.invariant (P := fun _ s => Sound num s ∧ Paced s ∧
      s.maxReconnectAttempts = maxReconnectAttempts)
    ⟨sound_new, fun _ _ h => (by cases h), rfl⟩
    fun _ _ _ _ _ ⟨hs, hpaced, hattempts⟩ h =>
      ⟨hs.step h, hpaced.turn (step_turn h hs.control) (step_persists h).maxReconnectAttempts,
        (step_persists h).maxReconnectAttempts.trans hattempts⟩

/-- **No command waits forever.** From any reachable state on, in any interleaving of steps, the
loop of `#processNext` moves at most a full round of connection attempts, write and answer for each
command that is in the queue up to the `i`-th and one more for the command it is busy with, before
the `i`-th command is settled; and as long as it is not, one of the client's own timers or
continuations can move the loop on. -/
theorem no_starvation (hrun : (clientSystem num autoReconnect maxReconnectAttempts).Run past s)
    (hi : i < s.commands.length) {n : ℕ} {t : CacheClient}
    (h : (clientSystem num autoReconnect maxReconnectAttempts).Moves
      (fun s s' => s'.loop ≠ s.loop) s n t) (hopen : i ∉ t.outcomes.map Prod.fst) :
    n ≤ (s.ahead i + 1) * (3 * maxReconnectAttempts + 3) ∧
      ∃ ev ∈ [ClientEvent.connectTimeout, .loopDelay, .resumeLoop, .commandTimeout], ∃ t',
        ClientStep num t ev t' ∧ t'.loop ≠ t.loop := by
  obtain ⟨hs, hpaced, hattempts⟩ := run_paced hrun
  obtain ⟨⟨ht, -, -, hi'⟩, hbound⟩ :=
    h.bound (ranked_work num autoReconnect maxReconnectAttempts i) ⟨hs, hpaced, hattempts, hi⟩
  refine ⟨?_, loop_moves ht (ht.busy hi' hopen).1⟩
  have hpaid := hbound hopen
  have hpos := ht.work_pos hi' hopen
  have hle := s.work_le i
  rw [hattempts] at hle
  omega

/-- The second command, behind one that times out. -/
theorem no_starvation_example : ∃ s t : CacheClient, s.ahead 1 = 1 ∧
    t.outcomes = [(0, .error ⟨.commandTimeout, js "command timed out"⟩)] ∧
    4 ≤ (s.ahead 1 + 1) * (3 * 3 + 3) ∧
      ∃ ev ∈ [ClientEvent.connectTimeout, .loopDelay, .resumeLoop, .commandTimeout], ∃ t',
        ClientStep decimalNumerals t ev t' ∧ t'.loop ≠ t.loop := by
  have h₀ := System.Run.start (S := clientSystem decimalNumerals true 3)
  have h₁ := h₀.snoc (l := ClientEvent.submit (js "GET a") true) (.submit _ _ (by decide))
  have h₂ := h₁.snoc (l := ClientEvent.submit (js "GET b") true) (.submit _ _ (by decide))
  have start {past s} (_ : (clientSystem decimalNumerals true 3).Run past s) :
      (clientSystem decimalNumerals true 3).Moves (fun s s' => s'.loop ≠ s.loop) s 0 s := .refl
  have m₁ := (start h₂).move (l := ClientEvent.connected) (.connected _ rfl) (by decide)
  have m₂ := m₁.move (l := ClientEvent.resumeLoop) (.resumeReturned _ rfl) (by decide)
  have m₃ := m₂.move (l := ClientEvent.commandTimeout) (.commandTimeout _ rfl) (by decide)
  have m₄ := m₃.move (l := ClientEvent.resumeLoop) (.resumeSettled _ rfl) (by decide)
  exact ⟨_, _, by decide, by decide, no_starvation h₂ (by decide) m₄ (by decide)⟩

end CacheClient

end DistributedCache
