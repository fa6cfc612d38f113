import DistributedCache.Client.Wire

/-!
# Every answer belongs to its command

`Effect` lists what a step of the client's own can do to its logs: a command is written or settled,
and a settled command has the peer's answer to its own line or an error of the client's. With the
ledger of `Order` and the conversation of `Wire` this gives `client_integrity`, over every run.
-/

namespace DistributedCache

namespace CacheClient

variable {num : Numerals} {s s' : CacheClient} {ev : ClientEvent} {item : QueueItem} {sid : ℕ}
  {past : List ClientEvent} {autoReconnect : Bool} {maxReconnectAttempts : ℕ}

/-- The outcome is what the client makes of the peer's answer to the command's own line. -/
def Answered (num : Numerals) (s : CacheClient) (x : ℕ × Except ClientError Response) : Prop :=
  ∃ (sid i : ℕ) (item : QueueItem) (reply : JsString), (s.links sid).requests[i]? = some item ∧
    (s.links sid).answers[i]? = some reply ∧ item.id = x.1 ∧
    x.2 = dispatchResponse num item.throwOnServerErr (dropCr reply)

/-- The outcome is an error that no server reply is turned into. -/
def OwnError (x : ℕ × Except ClientError Response) : Prop :=
  ∃ e, x.2 = .error e ∧ e.code ≠ .serverError

/-- At most one line is written, that of the loop's command, to the peer of the current socket or to
nobody. -/
def Written (s s' : CacheClient) : Prop :=
  (s'.writes = s.writes ∧ ∀ i, (s'.links i).requests = (s.links i).requests) ∨
    ∃ item sid, s.loop = .ensuring item .returned ∧ s.socket = some sid ∧
      s'.writes = (item.id, sid) :: s.writes ∧
      ((∀ i, (s'.links i).requests = (s.links i).requests) ∨
        ∀ i, (s'.links i).requests =
          if i = sid then (s.links i).requests ++ [item] else (s.links i).requests)

/-- What a step of the client's own can do to the logs. -/
structure Effect (num : Numerals) (s s' : CacheClient) : Prop where
  commands : s'.commands = s.commands
  written : Written s s'
  answers : ∀ sid, (s'.links sid).answers = (s.links sid).answers
  waiting : s'.waiting ⊆ s.waiting
  flight : ∀ item, s'.inFlight = some item → s.inFlight = some item ∨ item ∈ s.waiting
  outcomes : ∀ x ∈ s'.outcomes, x ∈ s.outcomes ∨ Answered num s x ∨ OwnError x

/-- Nothing is written. -/
theorem Effect.of_same (hcommands : s'.commands = s.commands)
    (hrequests : ∀ sid, (s'.links sid).requests = (s.links sid).requests)
    (hanswers : ∀ sid, (s'.links sid).answers = (s.links sid).answers)
    (hwrites : s'.writes = s.writes) (hwaiting : s'.waiting ⊆ s.waiting)
    (hflight : ∀ item, s'.inFlight = some item → s.inFlight = some item)
    (houtcomes : ∀ x ∈ s'.outcomes, x ∈ s.outcomes ∨ Answered num s x ∨ OwnError x) :
    Effect num s s' where
  commands := hcommands
  written := Or.inl ⟨hwrites, hrequests⟩
  answers := hanswers
  waiting := hwaiting
  flight _ hitem := Or.inl (hflight _ hitem)
  outcomes := houtcomes

theorem Effect.refl (s : CacheClient) : Effect num s s :=
  .of_same rfl (fun _ => rfl) (fun _ => rfl) rfl (List.Subset.refl _) (fun _ h => h)
    fun _ h => Or.inl h

/-- Only sockets change. -/
theorem Effect.of_sameCommands (h : SameCommands s s') : Effect num s s' := by
  refine .of_same h.commands (fun sid => by rw [h.links]) (fun sid => by rw [h.links]) h.writes ?_
    (fun item hitem => h.inFlight ▸ hitem) fun x hx => Or.inl (h.outcomes ▸ hx)
  unfold CacheClient.waiting
  rw [h.loop, h.queue]
  exact List.Subset.refl _

/-- The loop goes on with the queue, after an outcome of the client's own or without. -/
theorem Effect.nextItem (h : ∀ x ∈ s'.outcomes, x ∈ s.outcomes ∨ OwnError x)
    (hcommands : s'.commands = s.commands) (hlinks : s'.links = s.links)
    (hwrites : s'.writes = s.writes) (hflight : s'.inFlight = s.inFlight)
    (hqueue : s'.queue ⊆ s.waiting) : Effect num s s'.nextItem := by
  obtain ⟨hw, hf, hwr, ho, hc, hl, -⟩ := s'.nextItem_spec
  refine .of_same (hc.trans hcommands) (fun sid => by rw [hl, hlinks]) (fun sid => by rw [hl, hlinks])
    (hwr.trans hwrites) (hw ▸ hqueue) (fun item hitem => ?_) fun x hx => ?_
  · rw [← hflight, ← hf, hitem]
  · rw [ho] at hx
    exact (h x hx).imp_right Or.inr

theorem settle_outcomes {err : ClientError} (herr : err.code ≠ .serverError) :
    ∀ x ∈ (s.settle (.error err)).outcomes, x ∈ s.outcomes ∨ OwnError x := by
  intro x hx
  unfold CacheClient.settle at hx
  cases hflight : s.inFlight with
  | none =>
    rw [hflight] at hx
    exact Or.inl hx
  | some item =>
    rw [hflight] at hx
    rcases List.mem_cons.1 hx with rfl | hx
    · exact Or.inr ⟨err, rfl, herr⟩
    · exact Or.inl hx

/-- `close` rejects what it settles. -/
theorem close_outcomes (s : CacheClient) :
    ∀ x ∈ s.close.outcomes, x ∈ s.outcomes ∨ OwnError x := by
  intro x hx
  rcases List.mem_append.1 hx with hx | hx
  · obtain ⟨item, -, rfl⟩ := List.mem_map.1 (List.mem_reverse.1 hx)
    exact Or.inr ⟨_, rfl, by simp⟩
  · exact settle_outcomes (s := { s with intentionalClose := true, closed := true }) (by simp) x hx

/-- The command in flight is settled with an error of the client's own. -/
theorem Effect.settle {err : ClientError} (herr : err.code ≠ .serverError) :
    Effect num s (s.settle (.error err)) := by
  have houtcomes (x : ℕ × Except ClientError Response) (hx : x ∈ (s.settle (.error err)).outcomes) :
      x ∈ s.outcomes ∨ Answered num s x ∨ OwnError x :=
    (settle_outcomes herr x hx).imp_right Or.inr
  cases hflight : s.inFlight with
  | none =>
    rw [show s.settle (.error err) = s by rw [CacheClient.settle, hflight]]
    exact .refl s
  | some item =>
    rw [settle_of_inFlight hflight] at houtcomes ⊢
    exact .of_same rfl (fun _ => rfl) (fun _ => rfl) rfl (List.subset_append_right _ _)
      (fun _ h => (by cases h)) houtcomes

/-- A change of the sockets before or after does not matter. -/
theorem Effect.same_right {s'' : CacheClient} (h : Effect num s s') (hsame : SameCommands s' s'') :
    Effect num s s'' := by
  have hwaiting : s''.waiting = s'.waiting := by
    unfold CacheClient.waiting
    rw [hsame.loop, hsame.queue]
  obtain ⟨hc, hw, ha, hwait, hf, ho⟩ := h
  unfold Written at hw
  constructor
  · rwa [hsame.commands]
  · unfold Written
    rwa [hsame.links, hsame.writes]
  · rwa [hsame.links]
  · rwa [hwaiting]
  · rwa [hsame.inFlight]
  · rwa [hsame.outcomes]

theorem Effect.same_left {s'' : CacheClient} (hsame : SameCommands s s')
    (hsocket : s'.socket = s.socket) (h : Effect num s' s'') : Effect num s s'' := by
  have hwaiting : s'.waiting = s.waiting := by
    unfold CacheClient.waiting
    rw [hsame.loop, hsame.queue]
  obtain ⟨hc, hw, ha, hwait, hf, ho⟩ := h
  unfold Written at hw
  unfold Answered at ho
  rw [hsame.links] at hw ha ho
  constructor
  · rwa [← hsame.commands]
  · unfold Written
    rwa [← hsame.loop, ← hsocket, ← hsame.writes]
  · exact ha
  · rwa [← hwaiting]
  · rwa [← hwaiting, ← hsame.inFlight]
  · rwa [← hsame.outcomes]

theorem Effect.onSocketFailure {err : ClientError} (herr : err.code ≠ .serverError) :
    Effect num s (s.onSocketFailure err) := by
  unfold CacheClient.onSocketFailure
  split_ifs
  · exact .refl s
  · exact (Effect.settle herr).same_right (destroySocket_same _)

theorem Effect.close (s : CacheClient) : Effect num s s.close := by
  let s₁ : CacheClient := { s with intentionalClose := true, closed := true }
  have hsettle : Effect num s (s₁.settle (.error ⟨.clientClosed, js "client is closed"⟩)) := by
    have hclosed : Effect num s₁ (s₁.settle (.error ⟨.clientClosed, js "client is closed"⟩)) :=
      .settle (by simp)
    obtain ⟨hc, hw, ha, hwait, hf, ho⟩ := hclosed
    exact ⟨hc, hw, ha, hwait, hf, ho⟩
  refine ⟨hsettle.commands, hsettle.written, hsettle.answers, fun item hitem => hsettle.waiting ?_,
    hsettle.flight, fun x hx => (close_outcomes s x hx).imp_right Or.inr⟩
  have hitem : item ∈ held (s₁.settle _).loop ++ [] := hitem
  rw [List.append_nil] at hitem
  exact List.mem_append_left _ hitem

/-- A line is written, or its command is rejected. -/
theorem Effect.proceed (hloop : s.loop = .ensuring item .returned) :
    Effect num s (s.proceed item) := by
  have hqueue : s.queue ⊆ s.waiting := List.subset_append_right _ _
  unfold CacheClient.proceed
  cases hsocket : s.socket with
  | none =>
    refine .nextItem (fun x hx => ?_) rfl rfl rfl rfl hqueue
    rcases List.mem_cons.1 hx with rfl | hx
    · exact Or.inr ⟨_, rfl, by simp⟩
    · exact Or.inl hx
  | some sid =>
    have hitem : item ∈ s.waiting := by simp [CacheClient.waiting, hloop, held]
    refine ⟨rfl, Or.inr ⟨item, sid, hloop, hsocket, rfl, ?_⟩, fun i => ?_,
      fun _ h => hqueue (by simpa [CacheClient.waiting, held] using h), fun _ h => ?_,
      fun x hx => Or.inl hx⟩
    · simp only
      split_ifs
      · exact Or.inl fun _ => rfl
      · refine Or.inr fun i => ?_
        by_cases hi : i = sid
        · subst hi
          rw [Function.update_self, if_pos rfl]
        · rw [Function.update_of_ne hi, if_neg hi]
    · simp only
      split_ifs
      · rfl
      · by_cases hi : i = sid
        · subst hi
          rw [Function.update_self]
        · rw [Function.update_of_ne hi]
    · cases h
      exact Or.inr hitem

/-- What arrives settles a command with the peer's answer, or nothing. -/
theorem effect_data (hplugged : Plugged s) (htalk : Talk s)
    (hattached : (s.sockets sid).attached = true) (hopen : (s.sockets sid).destroyed = false)
    {chunk rest : JsString} (h : (s.links sid).incoming = chunk ++ rest) :
    Effect num s ((s.setLink sid { s.links sid with incoming := rest }).onData num chunk) := by
  have hlinks (i : ℕ) :
      ((s.setLink sid { s.links sid with incoming := rest }).links i).requests =
          (s.links i).requests ∧
        ((s.setLink sid { s.links sid with incoming := rest }).links i).answers =
          (s.links i).answers := by
    by_cases hi : i = sid
    · subst hi
      simp only [setLink, Function.update_self, and_self]
    · simp only [setLink, Function.update_of_ne hi, and_self]
  obtain ⟨-, heq | ⟨i, item, reply, hflight, hrequest, hanswer, heq⟩⟩ :=
    onData_spec hplugged htalk hattached hopen h
  · rw [heq]
    exact .of_same rfl (fun i => (hlinks i).1) (fun i => (hlinks i).2) rfl
      (List.Subset.refl _) (fun _ h => h) fun x hx => Or.inl hx
  · rw [heq, settle_of_inFlight (s :=
      { s.setLink sid { s.links sid with incoming := rest } with readBuffer := [] }) hflight]
    refine .of_same rfl (fun i => (hlinks i).1) (fun i => (hlinks i).2) rfl
      (List.subset_append_right _ _) (fun _ h => (by cases h)) fun x hx => ?_
    rcases List.mem_cons.1 hx with rfl | hx
    · exact Or.inr (Or.inl ⟨sid, i, item, reply, hrequest, hanswer, rfl, rfl⟩)
    · exact Or.inl hx

/-- **What every step of the client's own does to the logs.** -/
theorem step_effect (h : ClientStep num s ev s') (hev : ev.Internal) (hcontrol : Control s)
    (hplugged : Plugged s) (htalk : Talk s) : Effect num s s' := by
  -- a step that only moves the loop on within the same command
  have moved (s' : CacheClient) (hcommands : s'.commands = s.commands) (hlinks : s'.links = s.links)
      (hwrites : s'.writes = s.writes) (hwaiting : s'.waiting = s.waiting)
      (hflight : s'.inFlight = s.inFlight) (houtcomes : s'.outcomes = s.outcomes) :
      Effect num s s' := by
    refine .of_same hcommands (fun i => by rw [hlinks]) (fun i => by rw [hlinks]) hwrites ?_
      (fun _ h => by rwa [hflight] at h) fun x hx => Or.inl (by rwa [houtcomes] at hx)
    rw [hwaiting]
    exact List.Subset.refl _
  have hqueue : s.queue ⊆ s.waiting := List.subset_append_right _ _
  cases h with
  | submit throwOnServerErr _ => exact hev.elim
  | connect =>
    unfold connect
    split_ifs
    · exact .refl s
    · have hsame := ensureConnected_same s true
      refine moved _ hsame.commands hsame.links hsame.writes ?_ hsame.inFlight hsame.outcomes
      simp only [CacheClient.waiting, hsame.loop, hsame.queue]
  | close => exact .close s
  | connected _ => exact moved _ rfl rfl rfl (by simp [CacheClient.waiting, onConnected]) rfl rfl
  | connectTimeout _ | connectError _ message =>
    exact moved _ rfl rfl rfl (by simp [CacheClient.waiting, onConnectFailed]) rfl rfl
  | loopDelay hloop =>
    rename_i item attempt
    have hsame := connectOnce_same s (attempt + 1)
    refine moved _ hsame.commands hsame.links hsame.writes ?_ hsame.inFlight hsame.outcomes
    simp only [CacheClient.waiting, hloop, held, hsame.queue]
  | connectDelay _ =>
    rename_i attempt _
    have hsame := connectOnce_same s (attempt + 1)
    refine moved _ hsame.commands hsame.links hsame.writes ?_ hsame.inFlight hsame.outcomes
    simp only [CacheClient.waiting, hsame.loop, hsame.queue]
  | resumeFailed hloop =>
    exact moved _ rfl rfl rfl (by simp [CacheClient.waiting, hloop, held]) rfl rfl
  | resumeReturned hloop => exact .proceed hloop
  | resumeThrew hloop =>
    rename_i item err
    have herr := hcontrol.calls (.threw err) (by simp [ensures, hloop])
    refine .nextItem (fun x hx => ?_) rfl rfl rfl rfl hqueue
    rcases List.mem_cons.1 hx with rfl | hx
    · exact Or.inr ⟨err, rfl, herr⟩
    · exact Or.inl hx
  | resumeSettled hloop => exact .nextItem (fun x hx => Or.inl hx) rfl rfl rfl rfl hqueue
  | resumeFinished hloop =>
    unfold drainQueue
    split_ifs
    · exact moved _ rfl rfl rfl (by simp [CacheClient.waiting, hloop, held]) rfl rfl
    · exact .nextItem (fun x hx => Or.inl hx) rfl rfl rfl rfl hqueue
  | connectFailed _ => exact moved _ rfl rfl rfl rfl rfl rfl
  | connectSettled _ _ => exact moved _ rfl rfl rfl rfl rfl rfl
  | data hattached hopen h => exact effect_data hplugged htalk hattached hopen h
  | commandTimeout _ => exact (Effect.settle (by simp)).same_right (destroySocket_same _)
  | writeFails _ _ message => exact (Effect.settle (by simp)).same_left (setSocket_same _ _ _) rfl
  | socketError _ message =>
    exact (Effect.onSocketFailure (by simp)).same_left (setSocket_same _ _ _) rfl
  | socketClose _ => exact (Effect.onSocketFailure (by simp)).same_left (setSocket_same _ _ _) rfl
  | nodeDestroys _ => exact .of_sameCommands (setSocket_same _ _ _)
  | peerEnds _ => exact .of_sameCommands (setSocket_same _ _ _)
  | answer _ _ => exact hev.elim

/-- What `#commandLine` does to the logs. -/
theorem commandLine_spec (s : CacheClient) (line : JsString) (throwOnServerErr : Bool) :
    let item : QueueItem := ⟨s.commands.length, line, throwOnServerErr⟩
    let s' := s.commandLine line throwOnServerErr
    s'.commands = s.commands ++ [item] ∧ s'.waiting ⊆ s.waiting ++ [item] ∧ s'.links = s.links ∧
      s'.writes = s.writes ∧ s'.inFlight = s.inFlight ∧
      ∀ x ∈ s'.outcomes, x ∈ s.outcomes ∨ OwnError x := by
  intro item s'
  have drained (u : CacheClient) : u.drainQueue.waiting = u.waiting ∧
      u.drainQueue.commands = u.commands ∧ u.drainQueue.links = u.links ∧
      u.drainQueue.writes = u.writes ∧ u.drainQueue.inFlight = u.inFlight ∧
      u.drainQueue.outcomes = u.outcomes := by
    unfold drainQueue
    split_ifs with hcase
    · exact ⟨rfl, rfl, rfl, rfl, rfl, rfl⟩
    · have hloop : u.loop = .idle := by
        by_contra hne
        exact hcase (Or.inl hne)
      obtain ⟨hw, hf, hwr, ho, hc, hl, -⟩ := u.nextItem_spec
      refine ⟨hw.trans ?_, hc, hl, hwr, hf, ho⟩
      simp only [CacheClient.waiting, hloop, held, List.nil_append]
  simp only [s', CacheClient.commandLine]
  split_ifs with hclosed
  · refine ⟨rfl, List.subset_append_left _ _, rfl, rfl, rfl, fun x hx => ?_⟩
    rcases List.mem_cons.1 hx with rfl | hx
    · exact Or.inr ⟨_, rfl, by simp⟩
    · exact Or.inl hx
  · obtain ⟨hw, hc, hl, hwr, hf, ho⟩ :=
      drained { s with commands := s.commands ++ [item], queue := s.queue ++ [item] }
    refine ⟨hc, ?_, hl, hwr, hf, fun x hx => Or.inl (by rwa [ho] at hx)⟩
    rw [hw, CacheClient.waiting, CacheClient.waiting, List.append_assoc]
    exact List.Subset.refl _

theorem settle_writes (s : CacheClient) (r : Except ClientError Response) :
    (s.settle r).writes = s.writes := by
  unfold settle
  cases s.inFlight <;> rfl

theorem onSocketFailure_writes (s : CacheClient) (err : ClientError) :
    (s.onSocketFailure err).writes = s.writes := by
  unfold onSocketFailure
  split_ifs
  · rfl
  · exact settle_writes s _

/-- Only the loop writes. -/
theorem step_writes (h : ClientStep num s ev s') (hev : ev ≠ .resumeLoop) :
    s'.writes = s.writes := by
  cases h with
  | submit throwOnServerErr _ =>
    obtain ⟨-, -, -, hwrites, -⟩ := s.commandLine_spec (_ ++ newline) throwOnServerErr
    exact hwrites
  | connect =>
    unfold connect
    split_ifs
    · rfl
    · exact (ensureConnected_same s true).writes
  | close => exact settle_writes { s with intentionalClose := true, closed := true } _
  | connected _ | connectTimeout _ | connectError _ message => rfl
  | loopDelay _ => exact (connectOnce_same s _).writes
  | connectDelay _ => exact (connectOnce_same s _).writes
  | resumeFailed _ | resumeReturned _ | resumeThrew _ | resumeSettled _ | resumeFinished _ =>
    exact absurd rfl hev
  | connectFailed _ | connectSettled _ _ => rfl
  | data _ _ _ =>
    exact onData_induction (P := fun s' => s'.writes = s.writes) _ (fun _ => rfl)
      fun s' r h => (settle_writes s' r).trans h
  | commandTimeout _ => exact settle_writes s _
  | writeFails _ _ message => exact settle_writes (s.markDestroyed _) _
  | socketError _ message => exact onSocketFailure_writes (s.markDestroyed _) _
  | socketClose _ => exact onSocketFailure_writes (s.markDestroyed _) _
  | nodeDestroys _ | peerEnds _ | answer _ _ => rfl

/-! ### Runs -/

/-- What the logs say at any time. -/
structure Logged (num : Numerals) (s : CacheClient) : Prop where
  waiting : ∀ item ∈ s.waiting, s.commands[item.id]? = some item
  flight : ∀ item, s.inFlight = some item → s.commands[item.id]? = some item
  requests : ∀ sid, ∀ item ∈ (s.links sid).requests, s.commands[item.id]? = some item
  sent : ∀ sid, ((s.links sid).requests.map fun item => (item.id, sid)).Sublist s.writes.reverse
  outcomes : ∀ x ∈ s.outcomes, Answered num s x ∨ OwnError x

theorem logged_new : Logged num (.new autoReconnect maxReconnectAttempts) where
  waiting _ h := (nomatch h)
  flight _ h := (nomatch h)
  requests _ _ h := (nomatch h)
  sent _ := List.nil_sublist _
  outcomes _ h := (nomatch h)

theorem getElem?_of_prefix {α : Type} {l l' : List α} {i : ℕ} {a : α} (h : l <+: l')
    (hget : l[i]? = some a) : l'[i]? = some a := by
  obtain ⟨rest, rfl⟩ := h
  have hlt : i < l.length := (List.getElem?_eq_some_iff.1 hget).1
  rwa [List.getElem?_append_left hlt]

/-- An answer that was given stays the answer. -/
theorem Answered.mono {x : ℕ × Except ClientError Response} (h : Answered num s x)
    (hrequests : ∀ sid, (s.links sid).requests <+: (s'.links sid).requests)
    (hanswers : ∀ sid, (s.links sid).answers <+: (s'.links sid).answers) : Answered num s' x := by
  obtain ⟨sid, i, item, reply, hrequest, hanswer, hid, hresult⟩ := h
  exact ⟨sid, i, item, reply, getElem?_of_prefix (hrequests sid) hrequest,
    getElem?_of_prefix (hanswers sid) hanswer, hid, hresult⟩

/-- What the peer was sent before stays. -/
theorem Effect.requests (h : Effect num s s') (sid : ℕ) :
    (s.links sid).requests <+: (s'.links sid).requests := by
  rcases h.written with ⟨-, hsame⟩ | ⟨item, i, -, -, -, hsame | hmore⟩
  · rw [hsame]
  · rw [hsame]
  · rw [hmore]
    split_ifs
    · exact List.prefix_append _ _
    · exact List.prefix_refl _

/-- An effect keeps it. -/
theorem Effect.logged (h : Effect num s s') (hs : Logged num s) : Logged num s' := by
  have old {item : QueueItem} (hitem : s.commands[item.id]? = some item) :
      s'.commands[item.id]? = some item := h.commands.symm ▸ hitem
  refine ⟨fun item hitem => old (hs.waiting item (h.waiting hitem)), fun item hitem => ?_,
    fun sid item hitem => ?_, fun sid => ?_, fun x hx => ?_⟩
  · rcases h.flight item hitem with hin | hin
    · exact old (hs.flight item hin)
    · exact old (hs.waiting item hin)
  · rcases h.written with ⟨-, hsame⟩ | ⟨new, i, hloop, -, -, hsame | hmore⟩
    · exact old (hs.requests sid item (hsame sid ▸ hitem))
    · exact old (hs.requests sid item (hsame sid ▸ hitem))
    · rw [hmore] at hitem
      split_ifs at hitem
      · rcases List.mem_append.1 hitem with hitem | hitem
        · exact old (hs.requests sid item hitem)
        · rw [List.mem_singleton.1 hitem]
          exact old (hs.waiting new (by simp [CacheClient.waiting, hloop, held]))
      · exact old (hs.requests sid item hitem)
  · rcases h.written with ⟨hwrites, hsame⟩ | ⟨new, i, -, -, hwrites, hsame | hmore⟩
    · rw [hsame, hwrites]
      exact hs.sent sid
    · rw [hsame, hwrites, List.reverse_cons]
      exact (hs.sent sid).trans (List.sublist_append_left _ _)
    · rw [hmore, hwrites, List.reverse_cons]
      split_ifs with hi
      · rw [List.map_append, hi]
        exact (hi ▸ hs.sent sid).append (List.Sublist.refl _)
      · exact (hs.sent sid).trans (List.sublist_append_left _ _)
  · rcases h.outcomes x hx with hin | hanswered | hown
    · exact (hs.outcomes x hin).imp_left fun h' =>
        h'.mono h.requests fun sid => (h.answers sid).symm ▸ List.prefix_refl _
    · exact Or.inl (hanswered.mono h.requests fun sid => (h.answers sid).symm ▸ List.prefix_refl _)
    · exact Or.inr hown

/-- A new command has the next number. -/
theorem Logged.commandLine (hs : Logged num s) (line : JsString) (throwOnServerErr : Bool) :
    Logged num (s.commandLine line throwOnServerErr) := by
  obtain ⟨hcommands, hwaiting, hlinks, hwrites, hflight, houtcomes⟩ :=
    s.commandLine_spec line throwOnServerErr
  have old {item : QueueItem} (hitem : s.commands[item.id]? = some item) :
      (s.commandLine line throwOnServerErr).commands[item.id]? = some item := by
    rw [hcommands]
    exact getElem?_of_prefix (List.prefix_append _ _) hitem
  refine ⟨fun item hitem => ?_, fun item hitem => old (hs.flight item (hflight ▸ hitem)),
    fun sid item hitem => old (hs.requests sid item (hlinks ▸ hitem)), fun sid => ?_, fun x hx => ?_⟩
  · rcases List.mem_append.1 (hwaiting hitem) with hin | hin
    · exact old (hs.waiting item hin)
    · rw [List.mem_singleton.1 hin, hcommands]
      exact List.getElem?_concat_length
  · rw [hlinks, hwrites]
    exact hs.sent sid
  · rcases houtcomes x hx with hold | hown
    · refine (hs.outcomes x hold).imp_left fun h => ?_
      unfold Answered at h ⊢
      rwa [hlinks]
    · exact Or.inr hown

/-- The peer's next answer. -/
theorem Logged.answer (hs : Logged num s) (sid : ℕ) (reply incoming : JsString) :
    Logged num (s.setLink sid { s.links sid with
      answers := (s.links sid).answers ++ [reply]
      incoming := incoming }) := by
  have hlink (i : ℕ) : ((s.setLink sid { s.links sid with
        answers := (s.links sid).answers ++ [reply]
        incoming := incoming }).links i).requests = (s.links i).requests ∧
      (s.links i).answers <+: ((s.setLink sid { s.links sid with
        answers := (s.links sid).answers ++ [reply]
        incoming := incoming }).links i).answers := by
    by_cases hi : i = sid
    · subst hi
      simp only [setLink, Function.update_self]
      exact ⟨trivial, List.prefix_append _ _⟩
    · simp only [setLink, Function.update_of_ne hi]
      exact ⟨trivial, List.prefix_refl _⟩
  refine ⟨hs.waiting, hs.flight, fun i item hitem => ?_, fun i => ?_, fun x hx => ?_⟩
  · rw [(hlink i).1] at hitem
    exact hs.requests i item hitem
  · rw [(hlink i).1]
    exact hs.sent i
  · refine (hs.outcomes x hx).imp_left fun h => h.mono (fun i => ?_) fun i => (hlink i).2
    rw [(hlink i).1]

/-- Every step keeps it. -/
theorem step_logged (h : ClientStep num s ev s') (hcontrol : Control s) (hplugged : Plugged s)
    (htalk : Talk s) (hs : Logged num s) : Logged num s' := by
  by_cases hev : ev.Internal
  · exact (step_effect h hev hcontrol hplugged htalk).logged hs
  · cases h with
    | submit throwOnServerErr _ => exact hs.commandLine _ _
    | answer _ _ => exact hs.answer _ _ _
    | _ => exact absurd trivial hev

/-- What is true of every reachable client. -/
structure Sound (num : Numerals) (s : CacheClient) : Prop where
  control : Control s
  plugged : Plugged s
  talk : Talk s
  ordered : s.ledger.Ordered
  logged : Logged num s

theorem control_new : Control (.new autoReconnect maxReconnectAttempts) where
  replying := ⟨fun h => (nomatch h), fun h => (nomatch h)⟩
  running h := absurd rfl h
  closed _ := rfl
  calls _ h := (nomatch h)

theorem sound_new : Sound num (.new autoReconnect maxReconnectAttempts) :=
  ⟨control_new, plugged_new _ _, talk_of_none rfl, Ledger.ordered_empty, logged_new⟩

theorem Sound.step (hs : Sound num s) (h : ClientStep num s ev s') : Sound num s' :=
  ⟨step_control h hs.control, step_plugged h hs.plugged, step_talk h hs.control hs.plugged hs.talk,
    (step_ledger h hs.control).ordered hs.ordered,
    step_logged h hs.control hs.plugged hs.talk hs.logged⟩

/-- **The invariant of a run.** -/
theorem run_sound (hrun : (clientSystem num autoReconnect maxReconnectAttempts).Run past s) :
    Sound num s :=
  hrun.invariant (P := fun _ s => Sound num s) sound_new fun _ _ _ _ _ hs hstep => hs.step hstep

/-! ### Nothing gets stuck -/

/-- A loop that has been started can go on: its promise is settled, a timer of its own is due, or the
attempt it waits for can end. -/
theorem loop_enabled (h : Control s) (hloop : s.loop ≠ .idle) :
    ∃ ev ∈ [ClientEvent.connected, .loopDelay, .resumeLoop, .commandTimeout], ∃ s',
      ClientStep num s ev s' := by
  cases hcase : s.loop with
  | idle => exact absurd hcase hloop
  | ensuring item e =>
    cases e with
    | attempting attempt =>
      have hpending := h.calls (.attempting attempt) (by simp [ensures, hcase])
      obtain ⟨sid, hsid⟩ := Option.isSome_iff_exists.1 hpending
      exact ⟨.connected, by simp, _, .connected s hsid⟩
    | attemptFailed attempt err => exact ⟨.resumeLoop, by simp, _, .resumeFailed s hcase⟩
    | delaying attempt => exact ⟨.loopDelay, by simp, _, .loopDelay s hcase⟩
    | returned => exact ⟨.resumeLoop, by simp, _, .resumeReturned s hcase⟩
    | threw err => exact ⟨.resumeLoop, by simp, _, .resumeThrew s hcase⟩
  | replying => exact ⟨.commandTimeout, by simp, _, .commandTimeout s (h.replying.2 hcase)⟩
  | settled => exact ⟨.resumeLoop, by simp, _, .resumeSettled s hcase⟩
  | finished => exact ⟨.resumeLoop, by simp, _, .resumeFinished s hcase⟩

/-- A command that is not settled keeps the loop busy. -/
theorem Sound.busy (h : Sound num s) {i : ℕ} (hi : i < s.commands.length)
    (hopen : i ∉ s.outcomes.map Prod.fst) :
    s.loop ≠ .idle ∧ (i ∈ s.waiting.map QueueItem.id ∨ s.inFlight.map QueueItem.id = some i) := by
  rcases h.ordered.covered i hi with hended | hwaiting | hrunning
  · exact absurd hended hopen
  · refine ⟨fun hidle => ?_, Or.inl hwaiting⟩
    have hqueue : i ∈ s.queue.map QueueItem.id := by
      simpa [ledger, CacheClient.waiting, hidle, held] using hwaiting
    refine h.control.running (fun hnil => ?_) hidle
    rw [hnil] at hqueue
    cases hqueue
  · refine ⟨fun hidle => ?_, Or.inr hrunning⟩
    have hfree := h.control.free (by simp [hidle])
    have hrunning : s.inFlight.map QueueItem.id = some i := hrunning
    rw [hfree] at hrunning
    cases hrunning

/-- **Request and response integrity**, in every run: a command that has been written and not settled
is the one in flight; commands are written in the order of submission, each once, and the peer of a
socket gets a part of these lines in that order; a command is settled once, with what the client makes
of the peer's answer to that command's line or with an error that is not the server's; and as long as
a command is not settled, it is queued or in flight and the loop can go on. -/
theorem client_integrity
    (hrun : (clientSystem num autoReconnect maxReconnectAttempts).Run past s) :
    (∀ w ∈ s.writes, w.1 ∉ s.outcomes.map Prod.fst → s.inFlight.map QueueItem.id = some w.1) ∧
    s.writes.Pairwise (fun w w' => w'.1 < w.1) ∧
    (∀ sid, ((s.links sid).requests.map fun item => (item.id, sid)).Sublist s.writes.reverse ∧
      ∀ item ∈ (s.links sid).requests, s.commands[item.id]? = some item) ∧
    (s.outcomes.map Prod.fst).Nodup ∧
    (∀ x ∈ s.outcomes, OwnError x ∨ ∃ (sid i : ℕ) (item : QueueItem) (reply : JsString),
      s.commands[x.1]? = some item ∧ (s.links sid).requests[i]? = some item ∧
      (s.links sid).answers[i]? = some reply ∧
      x.2 = dispatchResponse num item.throwOnServerErr (dropCr reply)) ∧
    ∀ i < s.commands.length, i ∉ s.outcomes.map Prod.fst →
      (i ∈ s.waiting.map QueueItem.id ∨ s.inFlight.map QueueItem.id = some i) ∧
      ∃ ev ∈ [ClientEvent.connected, .loopDelay, .resumeLoop, .commandTimeout], ∃ s',
        ClientStep num s ev s' := by
  have h := run_sound hrun
  refine ⟨fun w hw hopen => h.ordered.running_of_started hw hopen, h.ordered.started_sorted,
    fun sid => ⟨h.logged.sent sid, h.logged.requests sid⟩, h.ordered.ended_nodup, fun x hx => ?_,
    fun i hi hopen => ?_⟩
  · rcases h.logged.outcomes x hx with hanswered | hown
    · obtain ⟨sid, i, item, reply, hrequest, hanswer, hid, hresult⟩ := hanswered
      have hitem := h.logged.requests sid item (List.mem_of_getElem? hrequest)
      exact Or.inr ⟨sid, i, item, reply, hid ▸ hitem, hrequest, hanswer, hresult⟩
    · exact Or.inl hown
  · obtain ⟨hloop, hplace⟩ := h.busy hi hopen
    exact ⟨hplace, loop_enabled h.control hloop⟩

/-- The first command times out when half of its answer is in the buffer; the second one gets its own
answer, on a new socket. -/
theorem client_integrity_example : ∃ past s,
    (clientSystem decimalNumerals true 3).Run past s ∧ past.length = 12 ∧
      s.outcomes =
        [(1, .ok (.str (js "b"))), (0, .error ⟨.commandTimeout, js "command timed out"⟩)] ∧
      s.writes.Pairwise (fun w w' => w'.1 < w.1) := by
  have h₀ := System.Run.start (S := clientSystem decimalNumerals true 3)
  have h₁ := h₀.snoc (l := ClientEvent.submit (js "GET a") true) (.submit _ _ (by decide))
  have h₂ := h₁.snoc (.connected _ rfl)
  have h₃ := h₂.snoc (.resumeReturned _ rfl)
  have h₄ := h₃.snoc (l := ClientEvent.answer 0 (js "STR a")) (.answer _ (by decide) (by decide))
  have h₅ := h₄.snoc (l := ClientEvent.data 0 (js "STR")) (.data _ rfl rfl rfl)
  have h₆ := h₅.snoc (.commandTimeout _ rfl)
  have h₇ := h₆.snoc (l := ClientEvent.submit (js "GET b") true) (.submit _ _ (by decide))
  have h₈ := h₇.snoc (.resumeSettled _ rfl)
  have h₉ := h₈.snoc (.connected _ rfl)
  have h₁₀ := h₉.snoc (.resumeReturned _ rfl)
  have h₁₁ := h₁₀.snoc (l := ClientEvent.answer 1 (js "STR b")) (.answer _ (by decide) (by decide))
  have h₁₂ := h₁₁.snoc (l := ClientEvent.data 1 (js "STR b" ++ newline)) (.data _ rfl rfl rfl)
  exact ⟨_, _, h₁₂, rfl, by decide, (client_integrity h₁₂).2.1⟩

end CacheClient

end DistributedCache
