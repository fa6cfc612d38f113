import DistributedCache.Client.Integrity

/-!
# After `close`

`close` settles the command in flight and the queue and destroys the current socket. It sees neither
the attempt of `#connectOnce` nor a call of `#ensureConnectedForOperation`, which go on: neither looks
at `#closed`.

* `NothingPending`: no attempt is under way, and no call will make one;
* `Shutdown`: what is true from then on, if that was so when the client was closed;
* `close_final_iff`: a closed client stays silent, whatever happens, if and only if it was so.
-/

namespace DistributedCache

namespace CacheClient

variable {num : Numerals} {s s' t : CacheClient} {ev : ClientEvent} {item : QueueItem}
  {past later : List ClientEvent} {autoReconnect : Bool} {maxReconnectAttempts : ℕ}

/-- The call makes no further attempt to connect. -/
def MakesNoAttempt (maxReconnectAttempts : ℕ) : Ensure → Prop
  | .attempting _ => False
  | .attemptFailed attempt _ => maxReconnectAttempts ≤ attempt
  | .delaying _ => False
  | .returned => True
  | .threw _ => True

/-- No attempt to connect is under way or to come from a call that has been made. -/
structure NothingPending (s : CacheClient) : Prop where
  connectingPromise : s.connectingPromise = none
  calls : ∀ e ∈ s.ensures, MakesNoAttempt s.maxReconnectAttempts e

/-- Since `s` nothing has been written, no command has been settled with an answer of the server, and
the current socket, if there is one, has been destroyed. -/
structure Silent (s t : CacheClient) : Prop where
  writes : t.writes = s.writes
  outcomes : ∀ x ∈ t.outcomes, x ∈ s.outcomes ∨ OwnError x
  socket : ∀ sid, t.socket = some sid → (t.sockets sid).destroyed = true

/-- Closed, with nothing left to do but to reject what the loop has taken. -/
structure Shutdown (s : CacheClient) : Prop where
  closed : s.closed = true
  intentionalClose : s.intentionalClose = true
  queue : s.queue = []
  inFlight : s.inFlight = none
  socket : s.socket = none
  pending : NothingPending s

/-! ### Nothing happens after an orderly end -/

/-- The same client but for what no longer matters. -/
theorem Shutdown.congr (h : Shutdown s) (hclosed : s'.closed = s.closed)
    (hintentional : s'.intentionalClose = s.intentionalClose) (hqueue : s'.queue = s.queue)
    (hflight : s'.inFlight = s.inFlight) (hsocket : s'.socket = s.socket)
    (hconnecting : s'.connectingPromise = s.connectingPromise)
    (hmax : s'.maxReconnectAttempts = s.maxReconnectAttempts)
    (hcalls : ∀ e ∈ s'.ensures, e ∈ s.ensures ∨ MakesNoAttempt s.maxReconnectAttempts e) :
    Shutdown s' where
  closed := hclosed.trans h.closed
  intentionalClose := hintentional.trans h.intentionalClose
  queue := hqueue.trans h.queue
  inFlight := hflight.trans h.inFlight
  socket := hsocket.trans h.socket
  pending := by
    refine ⟨hconnecting.trans h.pending.connectingPromise, fun e he => ?_⟩
    rw [hmax]
    exact (hcalls e he).elim (h.pending.calls e) id

/-- The loop ends. -/
theorem Shutdown.nextItem (h : Shutdown s) : s.nextItem = { s with loop := .finished } := by
  rw [CacheClient.nextItem, h.queue]

theorem Shutdown.settle (h : Shutdown s) (r : Except ClientError Response) : s.settle r = s := by
  rw [CacheClient.settle, h.inFlight]

theorem Shutdown.onSocketFailure (h : Shutdown s) (err : ClientError) : s.onSocketFailure err = s :=
  if_pos h.intentionalClose

/-- The loop ends; the calls of `connect` are left. -/
theorem Shutdown.finished (h : Shutdown s) : Shutdown { s with loop := .finished } :=
  h.congr rfl rfl rfl rfl rfl rfl rfl fun e he =>
    Or.inl (List.mem_append_right _ (by simpa [ensures] using he))

/-- A call whose last attempt has failed ends. -/
theorem afterFailure_makesNoAttempt {attempt : ℕ} {err : ClientError}
    (h : s.maxReconnectAttempts ≤ attempt) :
    MakesNoAttempt s.maxReconnectAttempts (s.afterFailure attempt err) := by
  rw [afterFailure, if_neg (not_lt.2 h)]
  trivial

/-- What a step does to a client that was shut down: nothing is written, and nothing but errors of
the client's own is reported. -/
def Idles (s s' : CacheClient) : Prop :=
  Shutdown s' ∧ s'.writes = s.writes ∧ ∀ x ∈ s'.outcomes, x ∈ s.outcomes ∨ OwnError x

theorem Shutdown.idles (h : Shutdown s) : Idles s s := ⟨h, rfl, fun _ hx => Or.inl hx⟩

/-- The command that the loop has taken is rejected. -/
theorem Shutdown.reject (h : Shutdown s) (item : QueueItem) {err : ClientError}
    (herr : err.code ≠ .serverError) : Idles s (s.reject item err).nextItem := by
  have hreject : Shutdown (s.reject item err) :=
    h.congr rfl rfl rfl rfl rfl rfl rfl fun _ he => Or.inl he
  rw [hreject.nextItem]
  refine ⟨hreject.finished, rfl, fun x hx => ?_⟩
  rcases List.mem_cons.1 hx with rfl | hx
  · exact Or.inr ⟨err, rfl, herr⟩
  · exact Or.inl hx

/-- A socket changes, and is not the current one. -/
theorem Shutdown.setSocket (h : Shutdown s) (sid : ℕ) (socket : Socket) :
    Idles s (s.setSocket sid socket) :=
  ⟨h.congr rfl rfl rfl rfl rfl rfl rfl fun _ he => Or.inl he, rfl, fun _ hx => Or.inl hx⟩

/-- The events of an old socket are ignored. -/
theorem Shutdown.socketFails (h : Shutdown s) (sid : ℕ) (socket : Socket) (err : ClientError) :
    Idles s ((s.setSocket sid socket).onSocketFailure err) := by
  have hmarked := h.setSocket sid socket
  rwa [hmarked.1.onSocketFailure]

/-- What arrives finds no command in flight. -/
theorem Shutdown.onData (h : Shutdown s) (chunk : JsString) : Idles s (s.onData num chunk) := by
  refine onData_induction (P := Idles s) chunk (fun buffer => ?_) fun s' r hs' => ?_
  · exact ⟨h.congr rfl rfl rfl rfl rfl rfl rfl fun _ he => Or.inl he, rfl, fun _ hx => Or.inl hx⟩
  · rwa [hs'.1.settle r]

/-! ### Closing -/

/-- `close` leaves every call that waits for a connection as it was. -/
theorem ensures_close (h : Control s) : s.close.ensures = s.ensures := by
  unfold close failInFlight CacheClient.settle rejectQueue ensures
  simp only
  cases hflight : s.inFlight with
  | none => rfl
  | some item =>
    have hloop : s.loop = .replying := h.replying.1 (by rw [hflight]; rfl)
    rw [hloop]
    rfl

theorem close_inFlight (s : CacheClient) : s.close.inFlight = none := by
  unfold close failInFlight CacheClient.settle
  simp only
  cases hflight : s.inFlight with
  | none => rfl
  | some item => rfl

/-- What `close` sets, and what it leaves. -/
theorem close_spec (s : CacheClient) : s.close.closed = true ∧ s.close.intentionalClose = true ∧
    s.close.connectingPromise = s.connectingPromise ∧
    s.close.maxReconnectAttempts = s.maxReconnectAttempts ∧ s.close.writes = s.writes := by
  unfold close failInFlight CacheClient.settle
  simp only
  cases s.inFlight with
  | none => exact ⟨rfl, rfl, rfl, rfl, rfl⟩
  | some item => exact ⟨rfl, rfl, rfl, rfl, rfl⟩

/-- With nothing pending, `close` shuts the client down. -/
theorem close_idles (h : Control s) (hpending : NothingPending s) : Idles s s.close := by
  obtain ⟨hclosed, hintentional, hconnecting, hmax, hwrites⟩ := s.close_spec
  refine ⟨⟨hclosed, hintentional, rfl, close_inFlight s, rfl,
    hconnecting.trans hpending.connectingPromise, fun e he => ?_⟩, hwrites, close_outcomes s⟩
  rw [ensures_close h] at he
  rw [hmax]
  exact hpending.calls e he

/-- **A client that was shut down idles.** -/
theorem step_shutdown (h : ClientStep num s ev s') (hcontrol : Control s) (hs : Shutdown s) :
    Idles s s' := by
  have hpending := hs.pending
  -- no attempt is under way, so that none ends
  have nopending {sid : ℕ} (hsid : s.connectingPromise = some sid) : False := by
    rw [hpending.connectingPromise] at hsid
    cases hsid
  have noflight (hflight : s.inFlight.isSome = true) : False := by
    rw [hs.inFlight] at hflight
    cases hflight
  cases h with
  | submit throwOnServerErr _ =>
    unfold commandLine
    rw [if_pos hs.closed]
    refine ⟨hs.congr rfl rfl rfl rfl rfl rfl rfl fun _ he => Or.inl he, rfl, fun x hx => ?_⟩
    rcases List.mem_cons.1 hx with rfl | hx
    · exact Or.inr ⟨_, rfl, by simp⟩
    · exact Or.inl hx
  | connect =>
    rw [connect, if_pos (by simp [hs.closed])]
    exact hs.idles
  | close => exact close_idles hcontrol hpending
  | connected hsid => exact (nopending hsid).elim
  | connectTimeout hsid => exact (nopending hsid).elim
  | connectError hsid message => exact (nopending hsid).elim
  | loopDelay hloop =>
    rename_i item attempt
    exact (hpending.calls (.delaying attempt) (by simp [ensures, hloop])).elim
  | connectDelay hcall =>
    rename_i attempt
    exact (hpending.calls (.delaying attempt) (by simp [ensures, hcall])).elim
  | resumeFailed hloop =>
    rename_i item attempt err
    have hlast := hpending.calls (.attemptFailed attempt err) (by simp [ensures, hloop])
    refine ⟨hs.congr rfl rfl rfl rfl rfl rfl rfl fun e he => ?_, rfl, fun _ hx => Or.inl hx⟩
    rcases List.mem_append.1 he with he | he
    · obtain rfl := List.mem_singleton.1 he
      exact Or.inr (afterFailure_makesNoAttempt hlast)
    · exact Or.inl (List.mem_append_right _ he)
  | resumeReturned hloop =>
    rename_i item
    have hproceed : s.proceed item =
        (s.reject item ⟨.connectionClosed, js "not connected"⟩).nextItem := by
      rw [proceed, hs.socket]
    rw [hproceed]
    exact hs.reject item (by simp)
  | resumeThrew hloop =>
    rename_i item err
    exact hs.reject item (hcontrol.calls (.threw err) (by simp [ensures, hloop]))
  | resumeSettled hloop =>
    rw [hs.nextItem]
    exact ⟨hs.finished, rfl, fun _ hx => Or.inl hx⟩
  | resumeFinished hloop =>
    have hidle : Shutdown { s with loop := .idle } :=
      hs.congr rfl rfl rfl rfl rfl rfl rfl fun e he =>
        Or.inl (List.mem_append_right _ (by simpa [ensures] using he))
    rw [drainQueue, if_pos (Or.inr (Or.inr hidle.queue))]
    exact ⟨hidle, rfl, fun _ hx => Or.inl hx⟩
  | connectFailed hcall =>
    rename_i attempt err
    have hlast := hpending.calls (.attemptFailed attempt err) (by simp [ensures, hcall])
    refine ⟨hs.congr rfl rfl rfl rfl rfl rfl rfl fun e he => ?_, rfl, fun _ hx => Or.inl hx⟩
    rcases List.mem_append.1 he with he | he
    · exact Or.inl (List.mem_append_left _ he)
    · obtain rfl := List.mem_singleton.1 he
      exact Or.inr (afterFailure_makesNoAttempt hlast)
  | connectSettled hcall he =>
    refine ⟨hs.congr rfl rfl rfl rfl rfl rfl rfl fun e he => ?_, rfl, fun _ hx => Or.inl hx⟩
    exact Or.inl (List.mem_append_left _ (by simpa [ensures] using he))
  | data hattached hopen h =>
    have hlink (sid : ℕ) (link : Link) : Shutdown (s.setLink sid link) :=
      hs.congr rfl rfl rfl rfl rfl rfl rfl fun _ he => Or.inl he
    exact (hlink _ _).onData _
  | commandTimeout hflight => exact (noflight hflight).elim
  | writeFails hflight _ message => exact (noflight hflight).elim
  | socketError _ message => exact hs.socketFails _ _ _
  | socketClose _ => exact hs.socketFails _ _ _
  | nodeDestroys _ => exact hs.setSocket _ _
  | peerEnds _ => exact hs.setSocket _ _
  | answer _ _ =>
    exact ⟨hs.congr rfl rfl rfl rfl rfl rfl rfl fun _ he => Or.inl he, rfl, fun _ hx => Or.inl hx⟩

/-- **A client shut down stays so.** -/
theorem trace_idles
    (htrace : (clientSystem num autoReconnect maxReconnectAttempts).Trace s later t)
    (hcontrol : Control s) (hs : Shutdown s) : Idles s t := by
  refine And.right (htrace.invariant (P := fun t => Control t ∧ Idles s t) ⟨hcontrol, hs.idles⟩ ?_)
  rintro t ev t' ⟨hcontrol, hidles⟩ hstep
  obtain ⟨hshutdown, hwrites, houtcomes⟩ := step_shutdown hstep hcontrol hidles.1
  exact ⟨step_control hstep hcontrol, hshutdown, hwrites.trans hidles.2.1,
    fun x hx => (houtcomes x hx).elim (hidles.2.2 x) Or.inr⟩

/-! ### What was pending goes on -/

/-- After some steps the client holds a socket that has not been destroyed. -/
def Reopens (S : System CacheClient ClientEvent) (s : CacheClient) : Prop :=
  ∃ (later : List ClientEvent) (t : CacheClient) (sid : ℕ), S.Trace s later t ∧
    t.socket = some sid ∧ (t.sockets sid).destroyed = false

theorem Reopens.of_step {S : System CacheClient ClientEvent} (hstep : S.step s ev s')
    (h : Reopens S s') : Reopens S s := by
  obtain ⟨later, t, sid, htrace, hsocket⟩ := h
  exact ⟨later ++ [ev], t, sid, (System.Trace.refl.snoc hstep).append htrace, hsocket⟩

/-- An attempt under way can succeed. -/
theorem reopens_of_connecting (hplugged : Plugged s) {sid : ℕ}
    (hsid : s.connectingPromise = some sid) :
    Reopens (clientSystem num autoReconnect maxReconnectAttempts) s := by
  refine ⟨[.connected], s.onConnected sid, sid, .snoc .refl (.connected s hsid), rfl, ?_⟩
  simp [onConnected, (hplugged.connecting sid hsid).2.1, Socket.new]

/-- `#connectOnce` makes an attempt when there is no socket. -/
theorem connectOnce_attempts (h : s.socket = none) (attempt : ℕ) :
    ∃ sid, (s.connectOnce attempt).1.connectingPromise = some sid := by
  have hclosed : s.isConnected = false := by rw [isConnected, h]
  unfold connectOnce
  rw [if_neg (by rw [hclosed]; exact Bool.false_ne_true)]
  split_ifs with hpending
  · exact Option.isSome_iff_exists.1 hpending
  · exact ⟨s.nextSocket, rfl⟩

/-- A call in its delay makes another attempt. -/
theorem reopens_of_delaying (hplugged : Plugged s) (hsocket : s.socket = none) (attempt : ℕ)
    (h : .delaying attempt ∈ s.ensures) :
    Reopens (clientSystem num autoReconnect maxReconnectAttempts) s := by
  obtain ⟨sid, hsid⟩ := connectOnce_attempts hsocket (attempt + 1)
  rcases List.mem_append.1 h with hloop | hcall
  · cases hcase : s.loop with
    | ensuring item e =>
      rw [hcase] at hloop
      obtain rfl := List.mem_singleton.1 hloop
      have hstep : ClientStep num s _ _ := .loopDelay s hcase
      exact .of_step hstep (reopens_of_connecting (step_plugged hstep hplugged) hsid)
    | idle | replying | settled | finished =>
      rw [hcase] at hloop
      cases hloop
  · have hstep : ClientStep num s _ _ := .connectDelay s (Option.mem_toList.1 hcall)
    exact .of_step hstep (reopens_of_connecting (step_plugged hstep hplugged) hsid)

/-- A failed attempt that was not the last one is followed by the delay. -/
theorem reopens_of_attemptFailed (hplugged : Plugged s) (hsocket : s.socket = none) {attempt : ℕ}
    {err : ClientError} (h : .attemptFailed attempt err ∈ s.ensures)
    (hlt : attempt < s.maxReconnectAttempts) :
    Reopens (clientSystem num autoReconnect maxReconnectAttempts) s := by
  have hdelay : s.afterFailure attempt err = .delaying attempt := if_pos hlt
  rcases List.mem_append.1 h with hloop | hcall
  · cases hcase : s.loop with
    | ensuring item e =>
      rw [hcase] at hloop
      obtain rfl := List.mem_singleton.1 hloop
      have hstep : ClientStep num s _ _ := .resumeFailed s hcase
      rw [hdelay] at hstep
      refine .of_step hstep (reopens_of_delaying (step_plugged hstep hplugged) hsocket attempt ?_)
      exact List.mem_append_left _ List.mem_cons_self
    | idle | replying | settled | finished =>
      rw [hcase] at hloop
      cases hloop
  · have hstep : ClientStep num s _ _ := .connectFailed s (Option.mem_toList.1 hcall)
    rw [hdelay] at hstep
    refine .of_step hstep (reopens_of_delaying (step_plugged hstep hplugged) hsocket attempt ?_)
    exact List.mem_append_right _ List.mem_cons_self

/-- What `close` leaves pending reopens the client. -/
theorem close_reopens (hs : Sound num s) (h : ¬ NothingPending s) :
    Reopens (clientSystem num autoReconnect maxReconnectAttempts) s.close := by
  have hplugged : Plugged s.close := step_plugged (.close s : ClientStep num s _ _) hs.plugged
  obtain ⟨-, -, hconnecting, hmax, -⟩ := s.close_spec
  cases hcase : s.connectingPromise with
  | some sid => exact reopens_of_connecting hplugged (hconnecting.trans hcase)
  | none =>
    have hcall : ∃ e ∈ s.ensures, ¬ MakesNoAttempt s.maxReconnectAttempts e := by
      by_contra hall
      refine h ⟨hcase, fun e he => ?_⟩
      by_contra hattempt
      exact hall ⟨e, he, hattempt⟩
    obtain ⟨e, he, hattempt⟩ := hcall
    have he' : e ∈ s.close.ensures := (ensures_close hs.control).symm ▸ he
    cases e with
    | attempting attempt =>
      -- whoever waits for an attempt waits for one that is under way
      have hpending : s.connectingPromise.isSome = true := hs.control.calls _ he
      rw [hcase] at hpending
      cases hpending
    | attemptFailed attempt err =>
      refine reopens_of_attemptFailed hplugged rfl he' ?_
      rw [hmax]
      exact not_le.1 hattempt
    | delaying attempt => exact reopens_of_delaying hplugged rfl attempt he'
    | returned => exact absurd trivial hattempt
    | threw err => exact absurd trivial hattempt

/-- **`close` is final exactly when nothing was pending.** Of a reachable client: after `close` it
stays silent in every continuation, if and only if no attempt to connect was under way and no call
was about to make one. -/
theorem close_final_iff
    (hrun : (clientSystem num autoReconnect maxReconnectAttempts).Run past s) :
    (∀ later t, (clientSystem num autoReconnect maxReconnectAttempts).Trace s.close later t →
      Silent s t) ↔ NothingPending s := by
  have hs := run_sound hrun
  constructor
  · intro hsilent
    by_contra hpending
    obtain ⟨later, t, sid, htrace, hsocket, hopen⟩ := close_reopens hs hpending
    have hdestroyed := (hsilent later t htrace).socket sid hsocket
    rw [hopen] at hdestroyed
    cases hdestroyed
  · intro hpending later t htrace
    have hclosed := close_idles hs.control hpending
    have hcontrol := step_control (.close s : ClientStep num s _ _) hs.control
    have hidles := trace_idles htrace hcontrol hclosed.1
    refine ⟨hidles.2.1.trans hclosed.2.1, fun x hx => ?_, fun sid hsid => ?_⟩
    · exact (hidles.2.2 x hx).elim (hclosed.2.2 x) Or.inr
    · rw [hidles.1.socket] at hsid
      cases hsid

/-- The witness: a client that has connected, sent a command and got the answer. -/
theorem close_final_iff_example : ∃ past s,
    (clientSystem decimalNumerals true 3).Run past s ∧ s.writes = [(0, 0)] ∧
      ∀ later t, (clientSystem decimalNumerals true 3).Trace s.close later t → Silent s t := by
  have h₀ := System.Run.start (S := clientSystem decimalNumerals true 3)
  have h₁ := h₀.snoc (l := ClientEvent.submit (js "GET a") true) (.submit _ _ (by decide))
  have h₂ := h₁.snoc (.connected _ rfl)
  have h₃ := h₂.snoc (.resumeReturned _ rfl)
  exact ⟨_, _, h₃, rfl, (close_final_iff h₃).2 ⟨rfl, fun _ he => (nomatch he)⟩⟩

/-- A command submitted before `close` that waits for the first attempt is written when the attempt
succeeds, and is settled with the answer of the server. -/
theorem close_not_final : ∃ past s later t,
    (clientSystem decimalNumerals true 3).Run past s ∧
      past = [.submit (js "SET a b") true] ∧
      (clientSystem decimalNumerals true 3).Trace s.close later t ∧ ¬ Silent s t ∧
      s.writes = [] ∧ t.writes = [(0, 0)] ∧ s.outcomes = [] ∧ t.outcomes = [(0, .ok .ok)] ∧
      t.closed = true ∧ t.isConnected = true := by
  have h₀ := System.Run.start (S := clientSystem decimalNumerals true 3)
  have h₁ := h₀.snoc (l := ClientEvent.submit (js "SET a b") true) (.submit _ _ (by decide))
  let s := commandLine (.new true 3) (js "SET a b" ++ newline) true
  have t₀ := System.Trace.refl (S := clientSystem decimalNumerals true 3) (s := s.close)
  have t₁ := t₀.snoc (.connected _ rfl)
  have t₂ := t₁.snoc (.resumeReturned _ rfl)
  have t₃ := t₂.snoc (l := ClientEvent.answer 0 (js "OK")) (.answer _ (by decide) (by decide))
  have t₄ := t₃.snoc (l := ClientEvent.data 0 (js "OK" ++ newline)) (.data _ rfl rfl rfl)
  refine ⟨_, s, _, _, h₁, rfl, t₄, fun h => ?_, rfl, rfl, rfl, by decide, rfl, rfl⟩
  cases h.writes

end CacheClient

end DistributedCache
