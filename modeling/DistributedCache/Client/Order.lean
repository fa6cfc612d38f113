import DistributedCache.Client.Control

/-!
# Commands go through the client in order

The commands of a client are the jobs of a single-server queue: those that the loop has taken and
those in the queue wait, the one in flight runs, a write starts it and an outcome ends it. Every step
of the client is a sequence of steps of this ledger (`step_ledger`), so that it stays `Ordered`.
-/

namespace DistributedCache

namespace CacheClient

open Ledger

variable {num : Numerals} {s s' : CacheClient} {ev : ClientEvent} {item : QueueItem}

/-- The command that the loop has taken and not written. -/
def held : DrainLoop → List QueueItem
  | .ensuring item _ => [item]
  | _ => []

/-- The commands that have not been written, oldest first. -/
def waiting (s : CacheClient) : List QueueItem := held s.loop ++ s.queue

/-- The client's commands as jobs. -/
def ledger (s : CacheClient) : Ledger ℕ (Except ClientError Response) where
  submitted := s.commands.length
  waiting := s.waiting.map QueueItem.id
  running := s.inFlight.map QueueItem.id
  started := s.writes
  ended := s.outcomes

@[simp] theorem held_mapEnsure (l : DrainLoop) (f : Ensure → Ensure) :
    held (l.mapEnsure f) = held l := by
  cases l <;> rfl

/-- Going on with the queue changes neither the commands nor how they went. -/
theorem nextItem_spec (s : CacheClient) : s.nextItem.waiting = s.queue ∧
    s.nextItem.inFlight = s.inFlight ∧ s.nextItem.writes = s.writes ∧
    s.nextItem.outcomes = s.outcomes ∧ s.nextItem.commands = s.commands ∧
    s.nextItem.links = s.links ∧ s.nextItem.readBuffer = s.readBuffer ∧
    s.nextItem.closed = s.closed := by
  unfold nextItem
  split
  · rename_i hqueue
    exact ⟨by simp [waiting, held], rfl, rfl, rfl, rfl, rfl, rfl, rfl⟩
  · rename_i item queue hqueue
    split_ifs
    · exact ⟨by simp [waiting, held], rfl, rfl, rfl, rfl, rfl, rfl, rfl⟩
    · have hsame := ensureConnected_same { s with queue := queue } false
      refine ⟨?_, hsame.inFlight, hsame.writes, hsame.outcomes, hsame.commands, hsame.links,
        hsame.readBuffer, hsame.closed⟩
      show [item] ++ _ = s.queue
      rw [hsame.queue, hqueue]
      rfl

theorem ledger_nextItem (s : CacheClient) :
    s.nextItem.ledger = { s.ledger with waiting := s.queue.map QueueItem.id } := by
  obtain ⟨hwaiting, hflight, hwrites, houtcomes, hcommands, -⟩ := s.nextItem_spec
  unfold ledger
  rw [hwaiting, hflight, hwrites, houtcomes, hcommands]

theorem ledger_drainQueue (s : CacheClient) : s.drainQueue.ledger = s.ledger := by
  unfold drainQueue
  split_ifs with hcase
  · rfl
  · have hloop : s.loop = .idle := by
      by_contra hne
      exact hcase (Or.inl hne)
    rw [ledger_nextItem]
    simp only [ledger, waiting, hloop, held, List.nil_append]

theorem ledger_of_same (h : SameCommands s s') : s'.ledger = s.ledger := by
  unfold ledger waiting
  rw [h.commands, h.loop, h.queue, h.inFlight, h.writes, h.outcomes]

/-- Settling the command in flight ends it. -/
theorem steps_settle (hs : Control s) (r : Except ClientError Response) :
    Steps s.ledger (s.settle r).ledger := by
  unfold settle
  cases hflight : s.inFlight with
  | none => exact .refl _
  | some item =>
    have hloop : s.loop = .replying := hs.replying.1 (by rw [hflight]; rfl)
    have hstep := Step.finish s.ledger (i := item.id)
      (by simp only [ledger, hflight, Option.map_some]) r
    simpa [ledger, waiting, hloop, held] using hstep.steps

theorem steps_onSocketFailure (hs : Control s) (err : ClientError) :
    Steps s.ledger (s.onSocketFailure err).ledger := by
  unfold onSocketFailure
  split_ifs
  · exact .refl _
  · exact (steps_settle hs _).trans (.of_eq (ledger_of_same (destroySocket_same _)).symm)

/-- Rejecting the command that the loop has taken gives it up. -/
theorem steps_reject {e : Ensure} (hloop : s.loop = .ensuring item e) (err : ClientError) :
    Steps s.ledger (s.reject item err).nextItem.ledger := by
  have hwaiting : s.ledger.waiting = [] ++ item.id :: s.queue.map QueueItem.id := by
    simp [ledger, waiting, hloop, held]
  have hstep := Step.giveUp s.ledger hwaiting (.error err)
  rw [ledger_nextItem]
  exact hstep.steps

theorem steps_proceed (hs : Control s) (hloop : s.loop = .ensuring item .returned) :
    Steps s.ledger (s.proceed item).ledger := by
  unfold proceed
  cases hsocket : s.socket with
  | none => exact steps_reject hloop _
  | some sid =>
    have hfree := hs.free (by simp [hloop])
    have hwaiting : s.ledger.waiting = item.id :: s.queue.map QueueItem.id := by
      simp [ledger, waiting, hloop, held]
    have hstep := Step.start s.ledger hwaiting (by simp [ledger, hfree]) sid
    simpa [ledger, waiting, held] using hstep.steps

theorem steps_commandLine (s : CacheClient) (line : JsString) (throwOnServerErr : Bool) :
    Steps s.ledger (s.commandLine line throwOnServerErr).ledger := by
  unfold commandLine
  simp only
  split_ifs
  · have hstep := Step.refuse s.ledger (.error ⟨.clientClosed, js "client is closed"⟩)
    simpa [ledger, waiting, reject] using hstep.steps
  · rw [ledger_drainQueue]
    simpa [ledger, waiting] using (Step.submit s.ledger).steps

theorem steps_close (hs : Control s) : Steps s.ledger s.close.ledger := by
  let err : ClientError := ⟨.clientClosed, js "client is closed"⟩
  let s₁ : CacheClient := { s with intentionalClose := true, closed := true }
  have hsettle : Steps s₁.ledger (s₁.settle (.error err)).ledger := by
    unfold settle
    cases hflight : s₁.inFlight with
    | none => exact .refl _
    | some item =>
      have hloop : s₁.loop = .replying := hs.replying.1 (by rw [show s.inFlight = _ from hflight]; rfl)
      have hstep := Step.finish s₁.ledger (i := item.id)
        (by simp only [ledger, hflight, Option.map_some]) (.error err)
      simpa [ledger, waiting, hloop, held] using hstep.steps
  have hreject (s : CacheClient) : Steps s.ledger (s.rejectQueue err).destroySocket.ledger := by
    have hwaiting : s.ledger.waiting =
        (held s.loop).map QueueItem.id ++ s.queue.map QueueItem.id := by simp [ledger, waiting]
    have hall := Steps.giveUpAll hwaiting (.error err)
    simpa [ledger, waiting, rejectQueue, destroySocket, Function.comp_def] using hall
  exact hsettle.trans (hreject _)

/-- **Every step of the client is a sequence of steps of its ledger.** -/
theorem step_ledger (h : ClientStep num s ev s') (hs : Control s) : Steps s.ledger s'.ledger := by
  have same (s' : CacheClient) (hcommands : s'.commands = s.commands)
      (hwaiting : s'.waiting = s.waiting) (hflight : s'.inFlight = s.inFlight)
      (hwrites : s'.writes = s.writes) (houtcomes : s'.outcomes = s.outcomes) :
      Steps s.ledger s'.ledger := by
    refine .of_eq ?_
    unfold ledger
    rw [hcommands, hwaiting, hflight, hwrites, houtcomes]
  cases h with
  | submit throwOnServerErr _ => exact steps_commandLine s _ _
  | connect =>
    refine .of_eq ?_
    unfold connect
    split_ifs
    · rfl
    · exact (ledger_of_same (ensureConnected_same s true)).symm
  | close => exact steps_close hs
  | connected _ => exact same _ rfl (by simp [waiting, onConnected]) rfl rfl rfl
  | connectTimeout _ => exact same _ rfl (by simp [waiting, onConnectFailed]) rfl rfl rfl
  | connectError _ message => exact same _ rfl (by simp [waiting, onConnectFailed]) rfl rfl rfl
  | loopDelay hloop =>
    rename_i item attempt
    have hsame := connectOnce_same s (attempt + 1)
    refine same _ hsame.commands ?_ hsame.inFlight hsame.writes hsame.outcomes
    simp only [waiting, hloop, held, hsame.queue]
  | connectDelay _ =>
    exact .of_eq (ledger_of_same (connectOnce_same s _)).symm
  | resumeFailed hloop => exact same _ rfl (by simp [waiting, hloop, held]) rfl rfl rfl
  | resumeReturned hloop => exact steps_proceed hs hloop
  | resumeThrew hloop => exact steps_reject hloop _
  | resumeSettled hloop =>
    rw [ledger_nextItem]
    exact .of_eq (by simp [ledger, waiting, hloop, held])
  | resumeFinished hloop =>
    rw [ledger_drainQueue]
    exact same _ rfl (by simp [waiting, hloop, held]) rfl rfl rfl
  | connectFailed _ => exact same _ rfl rfl rfl rfl rfl
  | connectSettled _ _ => exact same _ rfl rfl rfl rfl rfl
  | data _ _ _ =>
    refine And.left (onData_induction (P := fun s' => Steps s.ledger s'.ledger ∧ Control s') _
      (fun buffer => ⟨.refl _, ?_⟩) fun s' r h => ⟨h.1.trans (steps_settle h.2 r), h.2.settle r⟩)
    exact ⟨hs.replying, hs.running, hs.closed, hs.calls⟩
  | commandTimeout _ =>
    exact (steps_settle hs _).trans (.of_eq (ledger_of_same (destroySocket_same _)).symm)
  | writeFails _ _ message => exact steps_settle (hs.setSocket _ _) _
  | socketError _ message => exact steps_onSocketFailure (hs.setSocket _ _) _
  | socketClose _ => exact steps_onSocketFailure (hs.setSocket _ _) _
  | nodeDestroys _ => exact same _ rfl rfl rfl rfl rfl
  | peerEnds _ => exact same _ rfl rfl rfl rfl rfl
  | answer _ _ => exact same _ rfl rfl rfl rfl rfl

end CacheClient

end DistributedCache
