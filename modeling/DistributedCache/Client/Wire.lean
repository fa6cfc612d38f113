import DistributedCache.Client.Order

/-!
# Sockets, requests and answers

What goes over the wire, from the client's side and from the peer's.

* `Plugged`: the only socket that still has handlers and has not been destroyed is the current one,
  and there is none while an attempt is under way;
* `Conversation`: on the current socket nothing is owed, or one request is owed an answer, or one
  answer is on its way, and the text that has not been read is exactly that answer;
* `onData_spec`: what a chunk does to a client in this state;
* `step_plugged`, `step_talk`.
-/

namespace DistributedCache

namespace CacheClient

variable {num : Numerals} {s s' : CacheClient} {ev : ClientEvent} {item : QueueItem} {sid : ℕ}

/-! ### Sockets -/

/-- The socket has been connected. -/
def InUse (s : CacheClient) (sid : ℕ) : Prop :=
  sid < s.nextSocket ∧ s.connectingPromise ≠ some sid

/-- Which sockets are in use. -/
structure Plugged (s : CacheClient) : Prop where
  current : ∀ sid, s.socket = some sid → sid < s.nextSocket ∧ s.connectingPromise = none
  connecting : ∀ sid, s.connectingPromise = some sid →
    sid < s.nextSocket ∧ s.sockets sid = .new ∧ s.links sid = .new
  fresh : ∀ sid, s.nextSocket ≤ sid → s.sockets sid = .new ∧ s.links sid = .new
  attached : ∀ sid, (s.sockets sid).attached = true → (s.sockets sid).destroyed = false →
    s.socket = some sid
  written : ∀ w ∈ s.writes, InUse s w.2

theorem plugged_new (autoReconnect : Bool) (maxReconnectAttempts : ℕ) :
    Plugged (.new autoReconnect maxReconnectAttempts) where
  current _ h := (nomatch h)
  connecting _ h := (nomatch h)
  fresh _ _ := ⟨rfl, rfl⟩
  attached _ h := (nomatch h)
  written _ h := (nomatch h)

/-- Where the sockets are the same, so is their state. -/
theorem Plugged.congr (h : Plugged s) (hsocket : s'.socket = s.socket)
    (hsockets : s'.sockets = s.sockets) (hconnecting : s'.connectingPromise = s.connectingPromise)
    (hnext : s'.nextSocket = s.nextSocket) (hlinks : s'.links = s.links)
    (hwrites : s'.writes = s.writes) : Plugged s' := by
  obtain ⟨hcurrent, hconn, hfresh, hattached, hwritten⟩ := h
  unfold InUse at hwritten
  constructor
  · rwa [hsocket, hconnecting, hnext]
  · rwa [hsockets, hconnecting, hnext, hlinks]
  · rwa [hsockets, hnext, hlinks]
  · rwa [hsocket, hsockets]
  · unfold InUse
    rwa [hwrites, hnext, hconnecting]

/-- A socket that has had handlers is neither new nor connecting. -/
theorem Plugged.inUse (h : Plugged s) (hused : s.sockets sid ≠ .new ∨ s.links sid ≠ .new) :
    InUse s sid := by
  constructor
  · by_contra hlt
    obtain ⟨hsocket, hlink⟩ := h.fresh sid (not_lt.1 hlt)
    exact hused.elim (fun h => h hsocket) fun h => h hlink
  · intro hconnecting
    obtain ⟨-, hsocket, hlink⟩ := h.connecting sid hconnecting
    exact hused.elim (fun h => h hsocket) fun h => h hlink

theorem Plugged.inUse_of_attached (h : Plugged s) (ha : (s.sockets sid).attached = true) :
    InUse s sid := by
  refine h.inUse (Or.inl fun hnew => ?_)
  rw [hnew] at ha
  cases ha

/-- A socket in use changes; it is not brought to life. -/
theorem Plugged.setSocket (h : Plugged s) (hused : InUse s sid) {socket : Socket}
    (hattached : socket.attached = true → (s.sockets sid).attached = true)
    (hdestroyed : socket.destroyed = false → (s.sockets sid).destroyed = false) :
    Plugged (s.setSocket sid socket) := by
  obtain ⟨hlt, hconnecting⟩ := hused
  refine ⟨h.current, fun i hi => ?_, fun i hi => ?_, fun i => ?_, h.written⟩
  · have hne : i ≠ sid := fun heq => hconnecting (heq ▸ hi)
    simpa only [CacheClient.setSocket, Function.update_of_ne hne] using h.connecting i hi
  · have hne : i ≠ sid := by
      rintro rfl
      exact absurd hlt (not_lt.2 hi)
    simpa only [CacheClient.setSocket, Function.update_of_ne hne] using h.fresh i hi
  · by_cases hne : i = sid
    · subst hne
      simp only [CacheClient.setSocket, Function.update_self]
      exact fun ha hd => h.attached i (hattached ha) (hdestroyed hd)
    · simpa only [CacheClient.setSocket, Function.update_of_ne hne] using h.attached i

/-- A link in use changes. -/
theorem Plugged.setLink (h : Plugged s) (hused : InUse s sid) (link : Link) :
    Plugged (s.setLink sid link) := by
  obtain ⟨hlt, hconnecting⟩ := hused
  refine ⟨h.current, fun i hi => ?_, fun i hi => ?_, h.attached, h.written⟩
  · have hne : i ≠ sid := fun heq => hconnecting (heq ▸ hi)
    simpa only [CacheClient.setLink, Function.update_of_ne hne] using h.connecting i hi
  · have hne : i ≠ sid := by
      rintro rfl
      exact absurd hlt (not_lt.2 hi)
    simpa only [CacheClient.setLink, Function.update_of_ne hne] using h.fresh i hi

theorem Plugged.destroySocket (h : Plugged s) : Plugged s.destroySocket := by
  cases hsocket : s.socket with
  | none =>
    exact h.congr (by simp [CacheClient.destroySocket, hsocket])
      (by simp [CacheClient.destroySocket, hsocket]) rfl rfl rfl rfl
  | some sid =>
    obtain ⟨hlt, hnone⟩ := h.current sid hsocket
    refine ⟨fun i hi => (by cases hi), fun i hi => ?_, fun i hi => ?_, fun i ha hd => ?_, h.written⟩
    · have hi : s.connectingPromise = some i := hi
      rw [hnone] at hi
      cases hi
    · have hne : i ≠ sid := by
        rintro rfl
        exact absurd hlt (not_lt.2 hi)
      obtain ⟨hs, hl⟩ := h.fresh i hi
      refine ⟨?_, hl⟩
      simp only [CacheClient.destroySocket, hsocket]
      split_ifs
      · exact hs
      · rw [Function.update_of_ne hne, hs]
    · -- the only socket that was alive is the one that is destroyed
      simp only [CacheClient.destroySocket, hsocket] at ha hd
      split_ifs at ha hd with hdestroyed
      · have hsame := h.attached i ha hd
        rw [hsocket] at hsame
        cases hsame
        rw [hdestroyed] at hd
        cases hd
      · by_cases hne : i = sid
        · subst hne
          simp at ha
        · rw [Function.update_of_ne hne] at ha hd
          have hsame := h.attached i ha hd
          rw [hsocket] at hsame
          cases hsame
          exact absurd rfl hne

theorem Plugged.connectOnce (h : Plugged s) (attempt : ℕ) : Plugged (s.connectOnce attempt).1 := by
  unfold CacheClient.connectOnce
  split_ifs with hconnected hpending
  · exact h
  · exact h
  · have hd := h.destroySocket
    refine ⟨fun i hi => (nomatch hi), fun i hi => ?_, fun i hi => ?_, hd.attached, fun w hw => ?_⟩
    · cases hi
      exact ⟨Nat.lt_succ_self _, hd.fresh _ (le_refl _)⟩
    · exact hd.fresh i ((Nat.le_succ _).trans hi)
    · have hlt := (h.written w hw).1
      refine ⟨Nat.lt_succ_of_lt hlt, fun heq => ?_⟩
      exact absurd (Option.some.inj heq) (Nat.ne_of_gt hlt)

theorem Plugged.ensureConnected (h : Plugged s) (b : Bool) :
    Plugged (s.ensureConnected b).1 := by
  unfold CacheClient.ensureConnected
  split_ifs
  · exact h
  · exact h
  · exact h.connectOnce 1
  · exact h

theorem Plugged.nextItem (h : Plugged s) : Plugged s.nextItem := by
  unfold CacheClient.nextItem
  split
  · exact h.congr rfl rfl rfl rfl rfl rfl
  · rename_i item queue hqueue
    split_ifs
    · exact h.congr rfl rfl rfl rfl rfl rfl
    · have hq : Plugged { s with queue := queue } := h.congr rfl rfl rfl rfl rfl rfl
      exact (hq.ensureConnected false).congr rfl rfl rfl rfl rfl rfl

theorem Plugged.drainQueue (h : Plugged s) : Plugged s.drainQueue := by
  unfold CacheClient.drainQueue
  split_ifs
  · exact h
  · exact h.nextItem

theorem Plugged.settle (h : Plugged s) (r : Except ClientError Response) : Plugged (s.settle r) := by
  unfold CacheClient.settle
  cases s.inFlight with
  | none => exact h
  | some item => exact h.congr rfl rfl rfl rfl rfl rfl

theorem Plugged.onSocketFailure (h : Plugged s) (err : ClientError) :
    Plugged (s.onSocketFailure err) := by
  unfold CacheClient.onSocketFailure
  split_ifs
  · exact h
  · exact (h.settle _).destroySocket

theorem Plugged.onConnected (h : Plugged s) (hsid : s.connectingPromise = some sid) :
    Plugged (s.onConnected sid) := by
  obtain ⟨hlt, hnew, hlink⟩ := h.connecting sid hsid
  have hnone : s.socket = none := by
    cases hsocket : s.socket with
    | none => rfl
    | some i =>
      have hconnecting := (h.current i hsocket).2
      rw [hsid] at hconnecting
      cases hconnecting
  refine ⟨fun i hi => ?_, fun i hi => (nomatch hi), fun i hi => ?_, fun i ha hd => ?_,
    fun w hw => ⟨(h.written w hw).1, fun heq => (nomatch heq)⟩⟩
  · cases hi
    exact ⟨hlt, rfl⟩
  · have hne : i ≠ sid := by
      rintro rfl
      exact absurd hlt (not_lt.2 hi)
    simpa only [CacheClient.onConnected, Function.update_of_ne hne] using h.fresh i hi
  · by_cases hne : i = sid
    · rw [hne]
      rfl
    · simp only [CacheClient.onConnected, Function.update_of_ne hne] at ha hd
      have hsame := h.attached i ha hd
      rw [hnone] at hsame
      cases hsame

theorem Plugged.onConnectFailed (h : Plugged s) (hsid : s.connectingPromise = some sid)
    (err : ClientError) : Plugged (s.onConnectFailed sid err) := by
  obtain ⟨hlt, hnew, hlink⟩ := h.connecting sid hsid
  refine ⟨fun i hi => ⟨(h.current i hi).1, rfl⟩, fun i hi => (nomatch hi), fun i hi => ?_,
    fun i ha hd => ?_, fun w hw => ⟨(h.written w hw).1, fun heq => (nomatch heq)⟩⟩
  · have hne : i ≠ sid := by
      rintro rfl
      exact absurd hlt (not_lt.2 hi)
    simpa only [CacheClient.onConnectFailed, Function.update_of_ne hne] using h.fresh i hi
  · by_cases hne : i = sid
    · subst hne
      simp [CacheClient.onConnectFailed] at hd
    · simp only [CacheClient.onConnectFailed, Function.update_of_ne hne] at ha hd
      exact h.attached i ha hd

theorem Plugged.proceed (h : Plugged s) (item : QueueItem) : Plugged (s.proceed item) := by
  unfold CacheClient.proceed
  cases hsocket : s.socket with
  | none => exact Plugged.nextItem (s := s.reject item _) (h.congr rfl rfl rfl rfl rfl rfl)
  | some sid =>
    obtain ⟨hlt, hnone⟩ := h.current sid hsocket
    simp only
    have hused : InUse s sid := ⟨hlt, fun heq => by rw [hnone] at heq; cases heq⟩
    have hwritten : ∀ w ∈ (item.id, sid) :: s.writes, InUse s w.2 := by
      intro w hw
      rcases List.mem_cons.1 hw with rfl | hw
      · exact hused
      · exact h.written w hw
    split_ifs
    · exact ⟨fun i hi => h.current i (hsocket.trans hi), h.connecting, h.fresh,
        fun i ha hd => hsocket ▸ h.attached i ha hd, hwritten⟩
    · have hlink := h.setLink hused { s.links sid with requests := (s.links sid).requests ++ [item] }
      exact ⟨fun i hi => h.current i (hsocket.trans hi), hlink.connecting, hlink.fresh,
        fun i ha hd => hsocket ▸ h.attached i ha hd, hwritten⟩

theorem Plugged.markDestroyed (h : Plugged s) (hused : InUse s sid) :
    Plugged (s.markDestroyed sid) :=
  h.setSocket hused id fun h => Bool.noConfusion h

/-- Every step keeps the sockets in order. -/
theorem step_plugged (h : ClientStep num s ev s') (hs : Plugged s) : Plugged s' := by
  cases h with
  | submit throwOnServerErr _ =>
    unfold commandLine
    simp only
    split_ifs
    · exact hs.congr rfl rfl rfl rfl rfl rfl
    · refine Plugged.drainQueue ?_
      exact hs.congr rfl rfl rfl rfl rfl rfl
  | connect =>
    unfold connect
    split_ifs
    · exact hs
    · exact (hs.ensureConnected true).congr rfl rfl rfl rfl rfl rfl
  | close =>
    have hclosed : Plugged { s with intentionalClose := true, closed := true } :=
      hs.congr rfl rfl rfl rfl rfl rfl
    refine Plugged.destroySocket ?_
    exact (hclosed.settle _).congr rfl rfl rfl rfl rfl rfl
  | connected hsid => exact hs.onConnected hsid
  | connectTimeout hsid => exact hs.onConnectFailed hsid _
  | connectError hsid message => exact hs.onConnectFailed hsid _
  | loopDelay _ => exact (hs.connectOnce _).congr rfl rfl rfl rfl rfl rfl
  | connectDelay _ => exact (hs.connectOnce _).congr rfl rfl rfl rfl rfl rfl
  | resumeFailed _ => exact hs.congr rfl rfl rfl rfl rfl rfl
  | resumeReturned _ => exact hs.proceed _
  | resumeThrew _ => exact Plugged.nextItem (s := s.reject _ _) (hs.congr rfl rfl rfl rfl rfl rfl)
  | resumeSettled _ => exact hs.nextItem
  | resumeFinished _ => exact Plugged.drainQueue (hs.congr rfl rfl rfl rfl rfl rfl)
  | connectFailed _ => exact hs.congr rfl rfl rfl rfl rfl rfl
  | connectSettled _ _ => exact hs.congr rfl rfl rfl rfl rfl rfl
  | data hattached _ _ =>
    refine onData_induction (P := Plugged) _ (fun buffer => ?_) fun s r h => h.settle r
    exact (hs.setLink (hs.inUse_of_attached hattached) _).congr rfl rfl rfl rfl rfl rfl
  | commandTimeout _ => exact (hs.settle _).destroySocket
  | writeFails _ hwrite message =>
    have hused := hs.written _ (hwrite ▸ List.mem_cons_self)
    exact (hs.markDestroyed hused).settle _
  | socketError hattached message =>
    exact (hs.markDestroyed (hs.inUse_of_attached hattached)).onSocketFailure _
  | socketClose hattached =>
    exact (hs.markDestroyed (hs.inUse_of_attached hattached)).onSocketFailure _
  | nodeDestroys hattached => exact hs.markDestroyed (hs.inUse_of_attached hattached)
  | peerEnds hattached => exact hs.setSocket (hs.inUse_of_attached hattached) id id
  | answer _ hlt =>
    refine hs.setLink (hs.inUse (Or.inr fun hnew => ?_)) _
    rw [hnew] at hlt
    exact absurd hlt (lt_irrefl 0)

/-! ### What is said on the current socket -/

/-- Nothing is owed; or the last request, which is in flight, is owed its answer; or the answer has
been given, and what has not been read is the answer. -/
inductive Conversation (sid : ℕ) (link : Link) (buffer : JsString) (inFlight : Option QueueItem)
    (writes : List (ℕ × ℕ)) : Prop
  | quiet (hanswered : link.answers.length = link.requests.length)
      (hunread : buffer ++ link.incoming = [])
  | asked {old : List QueueItem} {item : QueueItem} (hflight : inFlight = some item)
      (hwrite : writes.head? = some (item.id, sid)) (hrequests : link.requests = old ++ [item])
      (hanswers : link.answers.length = old.length) (hunread : buffer ++ link.incoming = [])
  | answered {old : List QueueItem} {item : QueueItem} {before : List JsString} {reply : JsString}
      (hflight : inFlight = some item) (hwrite : writes.head? = some (item.id, sid))
      (hrequests : link.requests = old ++ [item]) (hanswers : link.answers = before ++ [reply])
      (hlength : before.length = old.length) (hline : .char '\n' ∉ reply)
      (hunread : buffer ++ link.incoming = reply ++ newline)

/-- The state of the conversation on the current socket, unless it has been destroyed. -/
def Talk (s : CacheClient) : Prop :=
  ∀ sid, s.socket = some sid → (s.sockets sid).destroyed = false →
    Conversation sid (s.links sid) s.readBuffer s.inFlight s.writes

/-- The conversation goes on where the current socket is the same, if there still is one. -/
theorem Talk.congr (h : Talk s)
    (hsocket : ∀ sid, s'.socket = some sid → (s'.sockets sid).destroyed = false →
      s.socket = some sid ∧ (s.sockets sid).destroyed = false)
    (hlinks : s'.links = s.links) (hbuffer : s'.readBuffer = s.readBuffer)
    (hflight : s'.inFlight = s.inFlight) (hwrites : s'.writes = s.writes) : Talk s' := by
  intro sid hcurrent hopen
  obtain ⟨hcurrent, hopen⟩ := hsocket sid hcurrent hopen
  rw [hlinks, hbuffer, hflight, hwrites]
  exact h sid hcurrent hopen

theorem talk_of_none (h : s.socket = none) : Talk s := by
  intro sid hcurrent
  rw [h] at hcurrent
  cases hcurrent

theorem connectOnce_socket (s : CacheClient) (attempt : ℕ) :
    (s.connectOnce attempt).1.socket = none ∨ (s.connectOnce attempt).1 = s := by
  unfold connectOnce
  split_ifs
  · exact Or.inr rfl
  · exact Or.inr rfl
  · exact Or.inl rfl

theorem ensureConnected_socket (s : CacheClient) (b : Bool) :
    (s.ensureConnected b).1.socket = none ∨ (s.ensureConnected b).1 = s := by
  unfold ensureConnected
  split_ifs
  · exact Or.inr rfl
  · exact Or.inr rfl
  · exact connectOnce_socket s 1
  · exact Or.inr rfl

theorem Talk.nextItem (h : Talk s) : Talk s.nextItem := by
  unfold CacheClient.nextItem
  split
  · exact h
  · rename_i item queue hqueue
    split_ifs
    · exact h
    · rcases ensureConnected_socket { s with queue := queue } false with hnone | hsame
      · exact talk_of_none hnone
      · simp only [hsame]
        exact h

theorem Talk.drainQueue (h : Talk s) : Talk s.drainQueue := by
  unfold CacheClient.drainQueue
  split_ifs
  · exact h
  · exact h.nextItem

theorem Talk.markDestroyed (h : Talk s) (sid : ℕ) : Talk (s.markDestroyed sid) := by
  refine h.congr (fun i hcurrent hopen => ⟨hcurrent, ?_⟩) rfl rfl rfl rfl
  by_cases hi : i = sid
  · subst hi
    simp [CacheClient.markDestroyed, CacheClient.setSocket] at hopen
  · simpa only [CacheClient.markDestroyed, CacheClient.setSocket, Function.update_of_ne hi]
      using hopen

theorem Talk.onSocketFailure (h : Talk s) (err : ClientError) : Talk (s.onSocketFailure err) := by
  unfold CacheClient.onSocketFailure
  split_ifs
  · exact h
  · exact talk_of_none rfl

/-- A failed write settles the command, and its socket is not used any more. -/
theorem talk_writeFails (h : Talk s) {id sid : ℕ} {writes : List (ℕ × ℕ)}
    (hwrite : s.writes = (id, sid) :: writes) (err : ClientError) :
    Talk ((s.markDestroyed sid).failInFlight err) := by
  have hdestroyed := h.markDestroyed sid
  unfold failInFlight CacheClient.settle
  cases hflight : (s.markDestroyed sid).inFlight with
  | none => exact hdestroyed
  | some item =>
    intro i hcurrent hopen
    cases hdestroyed i hcurrent hopen with
    | quiet hanswered hunread => exact .quiet hanswered hunread
    | asked _ hhead _ _ _ | answered _ hhead _ _ _ _ _ =>
      -- a command that was written to this socket would have been written to the failed one
      have hhead : s.writes.head? = some (_, i) := hhead
      rw [hwrite] at hhead
      cases hhead
      simp [CacheClient.markDestroyed, CacheClient.setSocket] at hopen

/-- A line is written to the current socket. -/
theorem Talk.proceed (h : Talk s) (hfree : s.inFlight = none) (item : QueueItem) :
    Talk (s.proceed item) := by
  unfold CacheClient.proceed
  cases hsocket : s.socket with
  | none => exact Talk.nextItem (s := s.reject item _) (talk_of_none hsocket)
  | some sid =>
    intro i hcurrent hopen
    cases hcurrent
    have hopen : (s.sockets sid).destroyed = false := hopen
    cases h sid hsocket hopen with
    | asked hflight _ _ _ _ | answered hflight _ _ _ _ _ _ =>
      rw [hfree] at hflight
      cases hflight
    | quiet hanswered hunread =>
      simp only
      split_ifs
      · exact .quiet hanswered hunread
      · rw [Function.update_self]
        exact .asked rfl rfl rfl hanswered hunread

/-- The peer answers the request it owes an answer. -/
theorem talk_answer (h : Talk s) {reply : JsString} (hline : .char '\n' ∉ reply)
    (hlt : (s.links sid).answers.length < (s.links sid).requests.length) :
    Talk (s.setLink sid { s.links sid with
      answers := (s.links sid).answers ++ [reply]
      incoming := (s.links sid).incoming ++ (reply ++ newline) }) := by
  intro i hcurrent hopen
  by_cases hi : i = sid
  · subst hi
    simp only [CacheClient.setLink, Function.update_self]
    cases h i hcurrent hopen with
    | quiet hanswered _ => exact absurd hlt (by omega)
    | asked hflight hwrite hrequests hanswers hunread =>
      refine .answered hflight hwrite hrequests rfl hanswers hline ?_
      rw [← List.append_assoc, hunread, List.nil_append]
    | answered _ _ hrequests hanswers hlength _ _ =>
      rw [hrequests, hanswers, List.length_append, List.length_append] at hlt
      exact absurd hlt (by simp [hlength])
  · simp only [CacheClient.setLink, Function.update_of_ne hi]
    exact h i hcurrent hopen

/-! ### What arrives -/

theorem onData_of_notMem {chunk : JsString} (h : .char '\n' ∉ s.readBuffer ++ chunk) :
    s.onData num chunk = { s with readBuffer := s.readBuffer ++ chunk } := by
  simp only [onData, takeLines_of_notMem h, List.map_nil, List.foldl_nil]

theorem onData_line {chunk reply : JsString} (h : s.readBuffer ++ chunk = reply ++ newline)
    (hline : .char '\n' ∉ reply) (hflight : s.inFlight = some item) :
    s.onData num chunk = { s with readBuffer := [] }.settle
      (dispatchResponse num item.throwOnServerErr (dropCr reply)) := by
  have hlines : takeLines (s.readBuffer ++ chunk) = ([reply], []) := by
    rw [h]
    exact takeLines_line hline
  simp only [onData, hlines, List.map_cons, List.map_nil, List.foldl_cons, List.foldl_nil]
  have hflight' : ({ s with readBuffer := [] } : CacheClient).inFlight = some item := hflight
  rcases dispatchResponseLine_eq { s with readBuffer := [] } (dropCr reply) with
    ⟨hnone, -⟩ | ⟨item', hsome, heq⟩
  · rw [hflight'] at hnone
    cases hnone
  · rw [hflight'] at hsome
    cases hsome
    exact heq

/-- **A chunk** either leaves an unfinished line in the buffer, or completes the answer to the
command in flight. -/
theorem onData_spec (hplugged : Plugged s) (htalk : Talk s)
    (hattached : (s.sockets sid).attached = true) (hopen : (s.sockets sid).destroyed = false)
    {chunk rest : JsString} (h : (s.links sid).incoming = chunk ++ rest) :
    let s₁ := s.setLink sid { s.links sid with incoming := rest }
    Talk (s₁.onData num chunk) ∧
      (s₁.onData num chunk = { s₁ with readBuffer := s.readBuffer ++ chunk } ∨
        ∃ (i : ℕ) (item : QueueItem) (reply : JsString), s.inFlight = some item ∧
          (s.links sid).requests[i]? = some item ∧ (s.links sid).answers[i]? = some reply ∧
          s₁.onData num chunk = { s₁ with readBuffer := [] }.settle
              (dispatchResponse num item.throwOnServerErr (dropCr reply))) := by
  intro s₁
  have hcurrent := hplugged.attached sid hattached hopen
  have htalk₁ : Talk { s₁ with readBuffer := s.readBuffer ++ chunk } := by
    intro i hi hiopen
    obtain rfl : sid = i := Option.some.inj (hcurrent.symm.trans hi)
    simp only [s₁, setLink, Function.update_self]
    have hunread : (s.readBuffer ++ chunk) ++ rest = s.readBuffer ++ (s.links sid).incoming := by
      rw [h, List.append_assoc]
    cases htalk sid hcurrent hopen with
    | quiet hanswered hempty => exact .quiet hanswered (hunread.trans hempty)
    | asked hflight hwrite hrequests hanswers hempty =>
      exact .asked hflight hwrite hrequests hanswers (hunread.trans hempty)
    | answered hflight hwrite hrequests hanswers hlength hline htext =>
      exact .answered hflight hwrite hrequests hanswers hlength hline (hunread.trans htext)
  by_cases hnew : .char '\n' ∈ s.readBuffer ++ chunk
  · -- only an answer has a newline, and it ends with it
    cases htalk sid hcurrent hopen with
    | quiet _ hempty | asked _ _ _ _ hempty =>
      rw [h, ← List.append_assoc] at hempty
      rw [(List.append_eq_nil_iff.1 hempty).1] at hnew
      cases hnew
    | answered hflight hwrite hrequests hanswers hlength hline htext =>
      rename_i old item before reply
      rw [h, ← List.append_assoc] at htext
      -- the newline is in what has been read, so nothing follows it
      have hrest : rest = [] := by
        rcases List.eq_nil_or_concat rest with hnil | ⟨init, c, hconcat⟩
        · exact hnil
        · rw [hconcat, newline, List.concat_eq_append, ← List.append_assoc] at htext
          have hpre := (List.append_inj' htext rfl).1
          refine absurd ?_ hline
          rw [← hpre]
          exact List.mem_append_left _ hnew
      rw [hrest, List.append_nil] at htext
      have hdata := @onData_line num s₁ _ _ _ htext hline hflight
      refine ⟨?_, Or.inr ⟨old.length, item, reply, hflight, ?_, ?_, hdata⟩⟩
      · rw [hdata, settle_of_inFlight (s := { s₁ with readBuffer := [] }) hflight]
        intro i hi hiopen
        obtain rfl : sid = i := Option.some.inj (hcurrent.symm.trans hi)
        refine .quiet ?_ ?_
        · simp [s₁, setLink, hrequests, hanswers, hlength]
        · simp [s₁, setLink, hrest]
      · rw [hrequests, List.getElem?_concat_length]
      · rw [hanswers, ← hlength, List.getElem?_concat_length]
  · have hdata := @onData_of_notMem num s₁ _ hnew
    exact ⟨hdata ▸ htalk₁, Or.inl hdata⟩

/-- **Every step keeps the conversation.** -/
theorem step_talk (h : ClientStep num s ev s') (hcontrol : Control s) (hplugged : Plugged s)
    (hs : Talk s) : Talk s' := by
  cases h with
  | submit throwOnServerErr _ =>
    unfold commandLine
    simp only
    split_ifs
    · exact hs
    · refine Talk.drainQueue ?_
      exact hs
  | connect =>
    unfold connect
    split_ifs
    · exact hs
    · rcases ensureConnected_socket s true with hnone | hsame
      · exact talk_of_none hnone
      · simp only [hsame]
        exact hs
  | close => exact talk_of_none rfl
  | connected hsid =>
    intro i hcurrent _
    cases hcurrent
    have hlink := (hplugged.connecting _ hsid).2.2
    exact .quiet (by simp [onConnected, hlink, Link.new]) (by simp [onConnected, hlink, Link.new])
  | connectTimeout hsid | connectError hsid message =>
    refine hs.congr (fun i hcurrent _ => ?_) rfl rfl rfl rfl
    -- a pending attempt excludes a current socket
    have hnone := (hplugged.current i hcurrent).2
    rw [hsid] at hnone
    cases hnone
  | loopDelay _ | connectDelay _ =>
    rcases connectOnce_socket s _ with hnone | hsame
    · exact talk_of_none hnone
    · simp only [hsame]
      exact hs
  | resumeFailed _ => exact hs
  | resumeReturned hloop => exact hs.proceed (hcontrol.free (by simp [hloop])) _
  | resumeThrew _ => exact Talk.nextItem (s := s.reject _ _) hs
  | resumeSettled _ => exact hs.nextItem
  | resumeFinished _ => exact Talk.drainQueue (s := { s with loop := .idle }) hs
  | connectFailed _ => exact hs
  | connectSettled _ _ => exact hs
  | data hattached hopen h => exact (onData_spec hplugged hs hattached hopen h).1
  | commandTimeout _ => exact talk_of_none rfl
  | writeFails _ hwrite message => exact talk_writeFails hs hwrite _
  | socketError _ message => exact (hs.markDestroyed _).onSocketFailure _
  | socketClose _ => exact (hs.markDestroyed _).onSocketFailure _
  | nodeDestroys _ => exact hs.markDestroyed _
  | peerEnds _ =>
    rename_i sid hattached
    refine hs.congr (fun i hcurrent hopen => ⟨hcurrent, ?_⟩) rfl rfl rfl rfl
    by_cases hi : i = sid
    · subst hi
      simpa [setSocket] using hopen
    · simpa only [setSocket, Function.update_of_ne hi] using hopen
  | answer hline hlt => exact talk_answer hs hline hlt

end CacheClient

end DistributedCache
