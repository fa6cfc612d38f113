import DistributedCache.Node.Listener

/-!
# A server that has been closed

`close` ends every connection and gives up the engine, but it cannot stop what is already on its
way: lines that arrive on an ended connection are still executed. Nobody is answered, though, and no
line is handed to an engine, not even after the server has been started again, until it is given
another engine (`close_silences`). What the engine's clients have already is not seen here.

* `Registered`: `#sockets` has every socket that is still alive;
* `Muted`, `Silenced`, `Refusing`: what stays true of a connection, and of the server.
-/

namespace DistributedCache

variable {κ : Type} {num : Numerals} {node : CacheNode} {clocks : Stream' Clock}
  {lines : List JsString} {batch : Batch}

/-- A node without an engine sends nothing. -/
theorem serveLine_quiet {c : Clock} {text : JsString} {served : Served}
    (hnode : node.replication = none) (h : serveLine num node c text = some served) :
    served.sends = [] ∧ served.node.replication = none := by
  unfold serveLine at h
  simp only at h
  split_ifs at h
  · cases h
    exact ⟨rfl, hnode⟩
  · cases h
    exact ⟨rfl, hnode⟩
  · split at h
    · cases h
      exact ⟨rfl, hnode⟩
    · unfold dispatchCommand at h
      split at h
      · obtain ⟨r, -, rfl⟩ := Option.map_eq_some_iff.1 h
        exact ⟨rfl, hnode⟩
      · obtain ⟨r, -, rfl⟩ := Option.map_eq_some_iff.1 h
        simp only [CacheNode.fanOut, hnode]
        exact ⟨trivial, trivial⟩

theorem serveLines_quiet (hnode : node.replication = none)
    (h : serveLines num node clocks lines = some batch) :
    batch.sends = [] ∧ batch.node.replication = none := by
  induction lines generalizing node clocks batch with
  | nil =>
    cases h
    exact ⟨rfl, hnode⟩
  | cons text lines ih =>
    rw [serveLines] at h
    split at h
    · cases h
    · rename_i served hserve
      obtain ⟨rest, hrest, rfl⟩ := Option.map_eq_some_iff.1 h
      obtain ⟨hsends, hserved⟩ := serveLine_quiet hnode hserve
      obtain ⟨hrests, hlast⟩ := ih hserved hrest
      refine ⟨?_, hlast⟩
      simp only [Batch.cons, hsends, hrests, List.append_nil]

/-- A connection is answered no more. Once a line has been executed on it, it is destroyed. -/
structure Muted (written : List JsString) (peer : κ) (more : List (LogEntry κ))
    (socket : ServerSocket) : Prop where
  written : socket.written = written
  ended : socket.destroyed = false → socket.connection.ended = true
  blank : socket.destroyed = false → ∀ e ∈ more, e.peer = peer → e.reply = none

section Muted

variable {written : List JsString} {more : List (LogEntry κ)} {socket : ServerSocket}

theorem Muted.destroy (h : Muted written peer more socket) :
    Muted written peer more socket.destroy :=
  ⟨h.written, fun h => (nomatch h), fun h => nomatch h⟩

theorem Muted.finish (h : Muted written peer more socket) :
    Muted written peer more socket.finish :=
  ⟨h.written, fun _ => rfl, h.blank⟩

/-- A write fails. -/
theorem Muted.write (h : Muted written peer more socket) (hopen : socket.destroyed = false)
    (line : JsString) : Muted written peer more (socket.write line).finish := by
  rw [ServerSocket.write, if_pos (h.ended hopen)]
  exact h.destroy.finish

/-- What arrives is not answered. -/
theorem Muted.absorb (h : Muted written peer more socket) (hopen : socket.destroyed = false)
    {entries : List (LogEntry κ)} {writes : Bool} {handled : Handled} {received : JsString}
    (hended : handled.connection.ended = true) (hwrites : handled.writes = [])
    (hblank : writes = false → ∀ e ∈ entries, e.reply = none) :
    Muted written peer (more ++ entries)
      { connection := handled.connection
        destroyed := socket.connection.ended && writes
        received := received
        written := socket.written ++ handled.writes } := by
  refine ⟨by simp only [hwrites, List.append_nil, h.written], fun _ => hended, fun hd e he hp => ?_⟩
  simp only [h.ended hopen, Bool.true_and] at hd
  rcases List.mem_append.1 he with he | he
  · exact h.blank hopen e he hp
  · exact hblank hd e he

end Muted

variable [DecidableEq κ] {hashKey : JsString → ℕ} {s s' s₀ : CacheServer κ} {peer : κ}
  {ev : ServerEvent κ} {past later : List (ServerEvent κ)} {more : List (LogEntry κ)}

/-- Every socket that has not been destroyed is in `#sockets`. -/
def Registered (s : CacheServer κ) : Prop :=
  ∀ peer socket, s.socket peer = some socket → socket.destroyed = false → peer ∈ s.sockets

theorem Registered.setSocket (h : Registered s) {socket : ServerSocket}
    (hpeer : socket.destroyed = false → peer ∈ s.sockets) :
    Registered (s.setSocket peer socket) := by
  intro i socket' hi hopen
  simp only [CacheServer.setSocket, Function.update_apply] at hi
  split_ifs at hi with heq
  · cases hi
    exact heq ▸ hpeer hopen
  · exact h i socket' hi hopen

theorem Registered.forSockets (h : Registered s) (f : ServerSocket → ServerSocket) :
    Registered (s.forSockets f) := by
  intro i socket' hi hopen
  simp only [CacheServer.forSockets] at hi
  split_ifs at hi with hmem
  · exact hmem
  · exact h i socket' hi hopen

theorem Registered.step (h : Registered s) (hstep : ServerStep num hashKey s ev s') :
    Registered s' := by
  cases hstep with
  | listen =>
    unfold CacheServer.listen
    split_ifs <;> exact h
  | close =>
    have hended := h.forSockets ServerSocket.finish
    unfold CacheServer.close
    split_ifs <;> exact hended
  | enableReplication hconfig =>
    obtain ⟨config, -, rfl⟩ := map_eq_ok_iff.1 hconfig
    exact h
  | connection hnone =>
    rename_i peer
    unfold CacheServer.onConnection
    split_ifs
    · exact h.setSocket fun hopen => nomatch hopen
    · intro i socket' hi hopen
      simp only [CacheServer.setSocket, Function.update_apply] at hi
      split_ifs at hi with heq
      · exact List.mem_cons.2 (Or.inl heq)
      · exact List.mem_cons_of_mem _ (h i socket' hi hopen)
  | data hsocket hopen clocks chunk hdata =>
    obtain ⟨entries, writes, handled, rfl⟩ := onData_absorb hdata
    exact h.setSocket fun _ => h _ _ hsocket hopen
  | timeout hsocket hopen => exact h.setSocket fun _ => h _ _ hsocket hopen
  | peerEnds hsocket hopen => exact h.setSocket fun _ => h _ _ hsocket hopen
  | gone hsocket =>
    rename_i peer socket
    intro i socket' hi hopen
    simp only [CacheServer.cleanup, CacheServer.setSocket, Function.update_apply] at hi
    split_ifs at hi with heq
    · cases hi
      cases hopen
    · exact List.mem_filter.2 ⟨h i socket' hi hopen, decide_eq_true heq⟩
  | closeTimeout htimers => exact h.forSockets ServerSocket.destroy
  | serverClosed htimers | settle index result | release => exact h

/-- What is true after `close` has been called on the server `s₀`, until it gets another engine. -/
structure Silenced (s₀ : CacheServer κ) (more : List (LogEntry κ)) (s : CacheServer κ) : Prop where
  engine : s.node.replication = none
  sent : s.sent = s₀.sent
  log : s.log = s₀.log ++ more
  muted : ∀ peer socket, s₀.socket peer = some socket →
    ∃ socket', s.socket peer = some socket' ∧ Muted socket.written peer more socket'

/-- No connection is accepted. -/
structure Refusing (s₀ s : CacheServer κ) : Prop where
  closing : s.closing = true
  refused : ∀ peer socket, s₀.socket peer = none → s.socket peer = some socket →
    socket.destroyed = true ∧ socket.received = [] ∧ socket.written = []

omit [DecidableEq κ] in
/-- A step that serves nothing. -/
theorem Silenced.of_sockets (h : Silenced s₀ more s) (hengine : s'.node.replication = none)
    (hsent : s'.sent = s.sent) (hlog : s'.log = s.log)
    (hsockets : ∀ peer socket, s.socket peer = some socket →
      ∃ socket', s'.socket peer = some socket' ∧
        ∀ written, Muted written peer more socket → Muted written peer more socket') :
    ∃ more', Silenced s₀ (more ++ more') s' := by
  refine ⟨[], hengine, hsent.trans h.sent, ?_, fun peer socket hsocket => ?_⟩
  · rw [hlog, h.log, List.append_nil]
  · obtain ⟨socket₁, hsocket₁, hmuted⟩ := h.muted peer socket hsocket
    obtain ⟨socket', hsocket', hkeep⟩ := hsockets peer socket₁ hsocket₁
    rw [List.append_nil]
    exact ⟨socket', hsocket', hkeep _ hmuted⟩

theorem Silenced.setSocket (h : Silenced s₀ more s) {socket socket' : ServerSocket}
    (hsocket : s.socket peer = some socket)
    (hkeep : ∀ written, Muted written peer more socket → Muted written peer more socket')
    (hengine : s'.node.replication = none) (hsent : s'.sent = s.sent) (hlog : s'.log = s.log)
    (hupdate : s'.socket = (s.setSocket peer socket').socket) :
    ∃ more', Silenced s₀ (more ++ more') s' := by
  refine h.of_sockets hengine hsent hlog fun i socket₁ hi => ?_
  rw [hupdate]
  simp only [CacheServer.setSocket, Function.update_apply]
  split_ifs with heq
  · subst heq
    cases hsocket.symm.trans hi
    exact ⟨socket', rfl, hkeep⟩
  · exact ⟨socket₁, hi, fun _ h => h⟩

theorem Silenced.forSockets (h : Silenced s₀ more s) {f : ServerSocket → ServerSocket}
    (hkeep : ∀ peer socket written, Muted written peer more socket →
      Muted written peer more (f socket))
    (hengine : s'.node.replication = none) (hsent : s'.sent = s.sent) (hlog : s'.log = s.log)
    (hupdate : s'.socket = (s.forSockets f).socket) :
    ∃ more', Silenced s₀ (more ++ more') s' := by
  refine h.of_sockets hengine hsent hlog fun i socket₁ hi => ?_
  rw [hupdate]
  simp only [CacheServer.forSockets, hi, Option.map_some]
  split_ifs
  · exact ⟨_, rfl, hkeep i socket₁⟩
  · exact ⟨socket₁, rfl, fun _ h => h⟩

/-- A chunk may still be served. -/
theorem Silenced.onData (h : Silenced s₀ more s) {socket : ServerSocket} {chunk : JsString}
    (hsocket : s.socket peer = some socket) (hopen : socket.destroyed = false)
    (hdata : s.onData num peer socket clocks chunk = some s') :
    ∃ more', Silenced s₀ (more ++ more') s' := by
  -- the socket of the chunk is muted, or it was not known when the server was closed
  have absorb {entries : List (LogEntry κ)} {writes : Bool} {handled : Handled}
      (hengine : handled.node.replication = none) (hsends : handled.sends = [])
      (hpeer : ∀ e ∈ entries, e.peer = peer)
      (hquiet : socket.connection.ended = true →
        handled.connection.ended = true ∧ handled.writes = [])
      (hblank : writes = false → ∀ e ∈ entries, e.reply = none) :
      Silenced s₀ (more ++ entries) (s.absorb peer socket chunk entries writes handled) := by
    refine ⟨hengine, ?_, ?_, fun i socket₀ hi => ?_⟩
    · simp only [CacheServer.absorb, hsends, List.append_nil, CacheServer.setSocket]
      exact h.sent
    · simp only [CacheServer.absorb, CacheServer.setSocket, h.log, List.append_assoc]
    · obtain ⟨socket₁, hsocket₁, hmuted⟩ := h.muted i socket₀ hi
      simp only [CacheServer.absorb, CacheServer.setSocket, Function.update_apply]
      split_ifs with heq
      · subst heq
        cases hsocket.symm.trans hsocket₁
        obtain ⟨hended, hwrites⟩ := hquiet (hmuted.ended hopen)
        exact ⟨_, rfl, hmuted.absorb hopen hended hwrites hblank⟩
      · refine ⟨socket₁, hsocket₁, hmuted.written, hmuted.ended, fun hd e he hp => ?_⟩
        rcases List.mem_append.1 he with he | he
        · exact hmuted.blank hd e he hp
        · exact absurd (hp.symm.trans (hpeer e he)) heq
  rcases onData_cases hdata with ⟨-, rfl⟩ | ⟨-, batch, hbatch, rfl⟩
  · exact ⟨[], absorb h.engine rfl (fun e he => absurd he List.not_mem_nil)
      (fun hended => ⟨rfl, if_pos hended⟩) fun hfalse => Bool.noConfusion hfalse⟩
  · obtain ⟨-, -, -, hpeer, -⟩ := serveLog_spec hbatch peer s.node
    obtain ⟨hsends, hengine⟩ := serveLines_quiet h.engine hbatch
    refine ⟨_, absorb hengine hsends hpeer (fun hended => ⟨hended, if_pos hended⟩) ?_⟩
    intro hany e he
    have hnone := List.any_eq_false.1 hany e he
    exact Option.not_isSome_iff_eq_none.1 hnone

theorem Silenced.step (h : Silenced s₀ more s) (hstep : ServerStep num hashKey s ev s')
    (hev : ∀ options, ev ≠ .enableReplication options) :
    ∃ more', Silenced s₀ (more ++ more') s' := by
  have same (hengine : s'.node.replication = none) (hsent : s'.sent = s.sent)
      (hlog : s'.log = s.log) (hsocket : s'.socket = s.socket) :
      ∃ more', Silenced s₀ (more ++ more') s' := by
    refine h.of_sockets hengine hsent hlog fun i socket hi => ?_
    rw [hsocket]
    exact ⟨socket, hi, fun _ h => h⟩
  cases hstep with
  | listen =>
    unfold CacheServer.listen at same ⊢
    split_ifs at same ⊢
    · exact same h.engine rfl rfl rfl
    · exact same h.engine rfl rfl rfl
  | close =>
    unfold CacheServer.close
    split_ifs
    · exact h.forSockets (fun _ _ _ => Muted.finish) rfl rfl rfl rfl
    · exact h.forSockets (fun _ _ _ => Muted.finish) h.engine rfl rfl rfl
  | enableReplication _ => exact absurd rfl (hev _)
  | connection hnone =>
    rename_i peer
    have other {i : κ} {socket : ServerSocket} (hi : s.socket i = some socket) : i ≠ peer := by
      rintro rfl
      cases hnone.symm.trans hi
    unfold CacheServer.onConnection
    split_ifs
    · refine h.of_sockets h.engine rfl rfl fun i socket hi => ⟨socket, ?_, fun _ h => h⟩
      exact (Function.update_of_ne (other hi) _ _).trans hi
    · refine h.of_sockets h.engine rfl rfl fun i socket hi => ⟨socket, ?_, fun _ h => h⟩
      exact (Function.update_of_ne (other hi) _ _).trans hi
  | data hsocket hopen clocks chunk hdata => exact h.onData hsocket hopen hdata
  | timeout hsocket hopen =>
    exact h.setSocket hsocket (fun _ h => h.write hopen _) h.engine rfl rfl rfl
  | peerEnds hsocket hopen => exact h.setSocket hsocket (fun _ => Muted.finish) h.engine rfl rfl rfl
  | gone hsocket => exact h.setSocket hsocket (fun _ => Muted.destroy) h.engine rfl rfl rfl
  | closeTimeout htimers => exact h.forSockets (fun _ _ _ => Muted.destroy) h.engine rfl rfl rfl
  | serverClosed htimers => exact same h.engine rfl rfl rfl
  | settle index result | release =>
    refine same ?_ rfl rfl rfl
    simp only [CacheServer.mapEngine, h.engine, Option.map_none]

/-- One socket changes, but none that was refused comes to life. -/
theorem Refusing.setSocket (h : Refusing s₀ s) {socket : ServerSocket}
    (hnew : s₀.socket peer = none →
      socket.destroyed = true ∧ socket.received = [] ∧ socket.written = [])
    (hclosing : s'.closing = true) (hupdate : s'.socket = (s.setSocket peer socket).socket) :
    Refusing s₀ s' := by
  refine ⟨hclosing, fun i socket' hi hsocket' => ?_⟩
  rw [hupdate] at hsocket'
  simp only [CacheServer.setSocket, Function.update_apply] at hsocket'
  split_ifs at hsocket' with heq
  · cases hsocket'
    exact hnew (heq ▸ hi)
  · exact h.refused i socket' hi hsocket'

theorem Refusing.forSockets (h : Refusing s₀ s) {f : ServerSocket → ServerSocket}
    (hkeep : ∀ socket, socket.destroyed = true ∧ socket.received = [] ∧ socket.written = [] →
      (f socket).destroyed = true ∧ (f socket).received = [] ∧ (f socket).written = [])
    (hclosing : s'.closing = true) (hupdate : s'.socket = (s.forSockets f).socket) :
    Refusing s₀ s' := by
  refine ⟨hclosing, fun i socket' hi hsocket' => ?_⟩
  rw [hupdate] at hsocket'
  simp only [CacheServer.forSockets] at hsocket'
  split_ifs at hsocket'
  · obtain ⟨socket, hsocket, rfl⟩ := Option.map_eq_some_iff.1 hsocket'
    exact hkeep _ (h.refused i socket hi hsocket)
  · exact h.refused i socket' hi hsocket'

/-- Only `listen` lets connections in again. -/
theorem Refusing.step (h : Refusing s₀ s) (hstep : ServerStep num hashKey s ev s')
    (hev : ev ≠ .listen) : Refusing s₀ s' := by
  -- what happens on a socket that is alive does not happen on one that was refused
  have known {peer : κ} {socket : ServerSocket} (hsocket : s.socket peer = some socket)
      (hopen : socket.destroyed = false) : s₀.socket peer ≠ none := by
    intro hnone
    have hdestroyed := (h.refused peer socket hnone hsocket).1
    rw [hopen] at hdestroyed
    cases hdestroyed
  cases hstep with
  | listen => exact absurd rfl hev
  | close =>
    unfold CacheServer.close
    split_ifs
    · exact h.forSockets (f := ServerSocket.finish) (fun _ h => h) rfl rfl
    · exact h.forSockets (f := ServerSocket.finish) (fun _ h => h) rfl rfl
  | enableReplication hconfig =>
    obtain ⟨config, -, rfl⟩ := map_eq_ok_iff.1 hconfig
    exact ⟨h.closing, h.refused⟩
  | connection hnone =>
    unfold CacheServer.onConnection
    rw [if_pos h.closing]
    exact h.setSocket (fun _ => ⟨rfl, rfl, rfl⟩) h.closing rfl
  | data hsocket hopen clocks chunk hdata =>
    obtain ⟨entries, writes, handled, rfl⟩ := onData_absorb hdata
    exact h.setSocket (fun hnone => absurd hnone (known hsocket hopen)) h.closing rfl
  | timeout hsocket hopen | peerEnds hsocket hopen =>
    exact h.setSocket (fun hnone => absurd hnone (known hsocket hopen)) h.closing rfl
  | gone hsocket =>
    rename_i peer socket
    have hupdate : (s.cleanup peer socket).socket = (s.setSocket peer socket.destroy).socket := rfl
    refine h.setSocket (fun hnone => ?_) h.closing hupdate
    exact ⟨rfl, (h.refused peer socket hnone hsocket).2⟩
  | closeTimeout htimers =>
    exact h.forSockets (f := ServerSocket.destroy) (fun _ h => ⟨rfl, h.2⟩) h.closing rfl
  | serverClosed htimers | settle index result | release => exact ⟨h.closing, h.refused⟩

/-- `close` ends every connection that is alive. -/
theorem silenced_close (h : Registered s) (hserver : s.server = true) :
    Silenced s [] s.close ∧ Refusing s s.close := by
  have hclose : s.close =
      { s.forSockets ServerSocket.finish with
        closing := true
        server := false
        node := { s.node with replication := none }
        timers := s.timers + 1 } := by
    unfold CacheServer.close
    rw [if_pos hserver]
  rw [hclose]
  refine ⟨⟨rfl, rfl, (List.append_nil _).symm, fun peer socket hsocket => ?_⟩, rfl,
    fun peer socket hnone hsocket => ?_⟩
  · simp only [CacheServer.forSockets, hsocket, Option.map_some]
    split_ifs with hmem
    · exact ⟨_, rfl, rfl, fun _ => rfl, fun _ e he => absurd he List.not_mem_nil⟩
    · have hdestroyed : socket.destroyed = true := by
        by_contra hopen
        exact hmem (h peer socket hsocket (Bool.eq_false_iff.2 hopen))
      refine ⟨_, rfl, rfl, fun hopen => ?_, fun _ e he => absurd he List.not_mem_nil⟩
      rw [hdestroyed] at hopen
      cases hopen
  · simp only [CacheServer.forSockets, hnone, Option.map_none, ite_self] at hsocket
    cases hsocket

/-- Every reachable server knows its connections. -/
theorem run_registered (hrun : (serverSystem num hashKey κ node).Run past s) : Registered s :=
  hrun.invariant (P := fun _ s => Registered s) (fun _ _ h => nomatch h)
    fun _ _ _ _ _ h hstep => h.step hstep

theorem trace_silenced {s₁ : CacheServer κ}
    (htrace : (serverSystem num hashKey κ node).Trace s₁ later s')
    (hengine : ∀ options, .enableReplication options ∉ later) (h : Silenced s₀ [] s₁) :
    ∃ more, Silenced s₀ more s' := by
  induction htrace with
  | refl => exact ⟨[], h⟩
  | snoc _ hstep ih =>
    obtain ⟨more, hsilenced⟩ := ih fun options hmem =>
      hengine options (List.mem_cons_of_mem _ hmem)
    obtain ⟨more', h'⟩ := hsilenced.step hstep fun options heq =>
      hengine options (heq ▸ List.mem_cons_self)
    exact ⟨_, h'⟩

theorem trace_refusing {s₁ : CacheServer κ}
    (htrace : (serverSystem num hashKey κ node).Trace s₁ later s')
    (hlisten : .listen ∉ later) (h : Refusing s₀ s₁) : Refusing s₀ s' := by
  induction htrace with
  | refl => exact h
  | snoc _ hstep ih =>
    exact (ih fun hmem => hlisten (List.mem_cons_of_mem _ hmem)).step hstep
      fun heq => hlisten (heq ▸ List.mem_cons_self)

/-- **A closed server is silent.** Whatever happens after `close` has been called on a server that
was listening, and as long as it is not given another engine: no line is handed to an engine, not
even when it listens again; nothing more is written on the connections it had, and a connection on
which lines are executed in a later chunk is destroyed by that chunk; and until the server listens
again, no connection that is handed over is served. -/
theorem close_silences (hrun : (serverSystem num hashKey κ node).Run past s)
    (hserver : s.server = true)
    (htrace : (serverSystem num hashKey κ node).Trace s.close later s')
    (hengine : ∀ options, .enableReplication options ∉ later) :
    s'.node.replication = none ∧ s'.sent = s.sent ∧
    (∃ more, s'.log = s.log ++ more ∧ ∀ peer socket, s.socket peer = some socket →
      ∃ socket', s'.socket peer = some socket' ∧ socket'.written = socket.written ∧
        (socket'.destroyed = false → ∀ e ∈ more, e.peer = peer → e.reply = none)) ∧
    (.listen ∉ later → ∀ peer socket', s.socket peer = none → s'.socket peer = some socket' →
      socket'.destroyed = true ∧ socket'.received = [] ∧ socket'.written = []) := by
  obtain ⟨hsilenced, hrefusing⟩ := silenced_close (run_registered hrun) hserver
  obtain ⟨more, h⟩ := trace_silenced htrace hengine hsilenced
  refine ⟨h.engine, h.sent, ⟨more, h.log, fun peer socket hsocket => ?_⟩, fun hlisten => ?_⟩
  · obtain ⟨socket', hsocket', hmuted⟩ := h.muted peer socket hsocket
    exact ⟨socket', hsocket', hmuted.written, hmuted.blank⟩
  · exact (trace_refusing htrace hlisten hrefusing).refused

/-- A `SET` that arrives after `close` is executed, but not answered. -/
theorem close_silences_example : ∃ past s later s' socket,
    (serverSystem decimalNumerals (fun _ => 0) ℕ ⟨CacheStore.new none none, none, 20⟩).Run past s ∧
      (serverSystem decimalNumerals (fun _ => 0) ℕ
        ⟨CacheStore.new none none, none, 20⟩).Trace s.close later s' ∧
      s'.log.map LogEntry.text = [js "SET a 1", js "SET a 2"] ∧
      s'.socket 0 = some socket ∧ socket.written = [js "OK\n"] ∧ s'.sent = s.sent := by
  let S := serverSystem decimalNumerals (fun _ => 0) ℕ ⟨CacheStore.new none none, none, 20⟩
  have clocks : Stream' Clock := Stream'.const (Stream'.const 0)
  have h₀ := System.Run.start (S := S)
  have h₁ := h₀.snoc (.listen _)
  have h₂ := h₁.snoc (l := ServerEvent.connection 0) (.connection _ rfl)
  have h₃ := h₂.snoc (l := ServerEvent.data 0 _ (js "SET a 1\n")) (.data _ rfl rfl clocks _ rfl)
  have htrace {past : List (ServerEvent ℕ)} {s s' : CacheServer ℕ} {l : ServerEvent ℕ}
      (_ : S.Run past s) (hstep : S.step s.close l s') : S.Trace s.close [l] s' := .snoc .refl hstep
  have h₄ := htrace (l := ServerEvent.data 0 _ (js "SET a 2\n")) h₃ (.data _ rfl rfl clocks _ rfl)
  have h := close_silences h₃ rfl h₄ (by simp)
  exact ⟨_, _, _, _, _, h₃, h₄, rfl, rfl, rfl, h.2.1⟩

end DistributedCache
