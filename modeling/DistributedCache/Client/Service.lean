import DistributedCache.Client.Integrity
import DistributedCache.Node.Exchange
import DistributedCache.Node.Listener

/-!
# Clients and their server

Any number of clients, each the state machine of `Client.Machine`, connected to one server, the
state machine of `Node.Listener`. A connection of the server is known by the client and its socket.
The text that a client has written on a socket reaches the server in chunks, in order and at any
time, and what the server writes on the connection joins the text on its way to the client. Either
text arrives as `toWellFormed` of what was written.

* `Service`, `ServiceStep`, `serviceSystem`;
* `Linked`: what the two sides of every connection know of each other, kept by every step.

A client submits no blank lines, since `formatCommand` writes none and `executeRaw` refuses them.
The notice of an idle timeout answers the first request without an answer. Where there is none the
client drops it, unless it has written another request on the socket by the time the notice arrives
(`ServiceEvent.late`); a part of it that arrives earlier waits in the client's buffer.
-/

namespace DistributedCache

open CacheStore

/-! ### The system -/

/-- The clients and the server. -/
structure Service (ι : Type) where
  client : ι → CacheClient
  server : CacheServer (ι × ℕ)

/-- What can happen. -/
inductive ServiceEvent (ι : Type)
  | client (i : ι) (ev : ClientEvent)
  | server (ev : ServerEvent (ι × ℕ))
  | late (i : ι) (sid : ℕ)

/-- The text of the requests that have been written on a socket, as it arrives. -/
def requestText (requests : List QueueItem) : JsString :=
  (requests.map fun item => toWellFormed item.line).flatten

/-- What the server has written on a connection. -/
def CacheServer.written {κ : Type} (s : CacheServer κ) (peer : κ) : List JsString :=
  ((s.socket peer).map ServerSocket.written).getD []

/-- Whether the server has ended a connection. -/
def CacheServer.ended {κ : Type} (s : CacheServer κ) (peer : κ) : Bool :=
  ((s.socket peer).map fun socket => socket.connection.ended).getD false

/-- Lines are on their way to a socket of the client. -/
def CacheClient.receive (c : CacheClient) (sid : ℕ) (lines : List JsString) : CacheClient :=
  c.setLink sid { c.links sid with
    answers := (c.links sid).answers ++ lines.map List.dropLast
    incoming := (c.links sid).incoming ++ lines.flatten }

/-- The client's events that are not its peer's; a line that is submitted is not blank. -/
def ClientEvent.Own : ClientEvent → Prop
  | .submit body _ => trim body ≠ []
  | .answer _ _ => False
  | _ => True

/-- The connection that an event may write on. -/
def ServerEvent.writesOn {κ : Type} : ServerEvent κ → Option κ
  | .data peer _ _ => some peer
  | .timeout peer => some peer
  | _ => none

variable {ι : Type} [DecidableEq ι]

/-- The server takes a step, and what it writes on a connection goes to the client. -/
def Service.respond (s : Service ι) (i : ι) (sid : ℕ) (server : CacheServer (ι × ℕ)) :
    Service ι where
  client := Function.update s.client i
    ((s.client i).receive sid
      (((server.written (i, sid)).drop (s.server.written (i, sid)).length).map toWellFormed))
  server := server

/-- What the server has written on a connection and the client has not got yet goes to it. -/
def Service.catchUp (s : Service ι) (i : ι) (sid : ℕ) : Service ι where
  client := Function.update s.client i
    ((s.client i).receive sid
      (((s.server.written (i, sid)).drop ((s.client i).links sid).answers.length).map toWellFormed))
  server := s.server

/-- The steps. -/
inductive ServiceStep (num : Numerals) (hashKey : JsString → ℕ) :
    Service ι → ServiceEvent ι → Service ι → Prop
  | client (s : Service ι) {i : ι} {ev : ClientEvent} {c : CacheClient} (hown : ev.Own)
      (h : ClientStep num (s.client i) ev c) :
      ServiceStep num hashKey s (.client i ev) { s with client := Function.update s.client i c }
  | data (s : Service ι) {i : ι} {sid : ℕ} {clocks : Stream' Clock} {chunk : JsString}
      {server : CacheServer (ι × ℕ)}
      (hnext : s.server.heard (i, sid) ++ chunk <+:
        requestText ((s.client i).links sid).requests)
      (h : ServerStep num hashKey s.server (.data (i, sid) clocks chunk) server) :
      ServiceStep num hashKey s (.server (.data (i, sid) clocks chunk)) (s.respond i sid server)
  | timeout (s : Service ι) {i : ι} {sid : ℕ} {server : CacheServer (ι × ℕ)}
      (howed : ((s.client i).links sid).answers.length < ((s.client i).links sid).requests.length)
      (h : ServerStep num hashKey s.server (.timeout (i, sid)) server) :
      ServiceStep num hashKey s (.server (.timeout (i, sid))) (s.respond i sid server)
  | idle (s : Service ι) {i : ι} {sid : ℕ} {server : CacheServer (ι × ℕ)}
      (hidle : ((s.client i).links sid).answers.length = ((s.client i).links sid).requests.length)
      (h : ServerStep num hashKey s.server (.timeout (i, sid)) server) :
      ServiceStep num hashKey s (.server (.timeout (i, sid))) { s with server := server }
  | late (s : Service ι) {i : ι} {sid : ℕ}
      (howed : ((s.client i).links sid).answers.length < ((s.client i).links sid).requests.length) :
      ServiceStep num hashKey s (.late i sid) (s.catchUp i sid)
  | server (s : Service ι) {ev : ServerEvent (ι × ℕ)} {server : CacheServer (ι × ℕ)}
      (hev : ev.writesOn = none) (h : ServerStep num hashKey s.server ev server) :
      ServiceStep num hashKey s (.server ev) { s with server := server }

/-- Clients with options of their own and a server, nothing having happened yet. -/
def serviceSystem (num : Numerals) (hashKey : JsString → ℕ) (ι : Type) [DecidableEq ι]
    (node : CacheNode) (autoReconnect : ι → Bool) (maxReconnectAttempts : ι → ℕ) :
    System (Service ι) (ServiceEvent ι) where
  init := ⟨fun i => .new (autoReconnect i) (maxReconnectAttempts i), .new _ node⟩
  step := ServiceStep num hashKey

/-! ### Text and lines -/

/-- A line as it arrives, without its newline. -/
def lineBody (line : JsString) : JsString := (toWellFormed line).dropLast

/-- The line of a request as it arrives, without its newline. -/
def QueueItem.body (item : QueueItem) : JsString := lineBody item.line

theorem QueueItem.body_isWellFormed (item : QueueItem) : IsWellFormed item.body :=
  (isWellFormed_toWellFormed item.line).subset (List.dropLast_subset _)

/-- A line that is not blank. -/
structure QueueItem.Proper (item : QueueItem) : Prop where
  line : toWellFormed item.line = item.body ++ newline
  newline : .char '\n' ∉ item.body
  visible : trim item.body ≠ []

theorem QueueItem.proper_mk (id : ℕ) {body : JsString} (throwOnServerErr : Bool)
    (hline : .char '\n' ∉ body) (hvisible : trim body ≠ []) :
    QueueItem.Proper ⟨id, body ++ DistributedCache.newline, throwOnServerErr⟩ := by
  have hline' : toWellFormed (body ++ DistributedCache.newline) =
      toWellFormed body ++ DistributedCache.newline := toWellFormed_append _ _
  have hbody : QueueItem.body ⟨id, body ++ DistributedCache.newline, throwOnServerErr⟩ =
      toWellFormed body := by
    rw [QueueItem.body, lineBody, hline']
    exact List.dropLast_concat
  refine ⟨by rw [hbody, hline'], by rw [hbody]; exact newline_notMem_toWellFormed hline, ?_⟩
  rw [hbody, trim_toWellFormed]
  exact fun hnil => hvisible (List.map_eq_nil_iff.1 hnil)

/-- A line that is framed has its newline at the end only. -/
theorem Framed.dropLast {reply : JsString} (h : Framed reply) :
    reply = reply.dropLast ++ newline ∧ .char '\n' ∉ reply.dropLast := by
  obtain ⟨body, rfl, hline⟩ := h
  have hbody : (body ++ newline).dropLast = body := List.dropLast_concat
  rw [hbody]
  exact ⟨rfl, hline⟩

/-- A text whose last line is complete consists of the lines that are cut off. -/
theorem takeLines_requestText {requests : List QueueItem}
    (h : ∀ item ∈ requests, item.Proper) :
    takeLines (requestText requests) = (requests.map QueueItem.body, []) := by
  induction requests with
  | nil => rfl
  | cons item requests ih =>
    have hitem := h item List.mem_cons_self
    have htext : requestText (item :: requests) =
        (item.body ++ [.char '\n']) ++ requestText requests := by
      rw [requestText, List.map_cons, List.flatten_cons, hitem.line]
      rfl
    rw [htext, takeLines_append, takeLines_line hitem.newline, List.nil_append,
      ih fun item' hmem => h item' (List.mem_cons_of_mem _ hmem)]
    rfl

/-- What has arrived is cut into the first requests; more of them are still to come where the text
is not all there, or ends in the middle of a line. -/
theorem lines_of_arrived {requests : List QueueItem} (h : ∀ item ∈ requests, item.Proper)
    {text rest : JsString} (htext : requestText requests = text ++ rest) :
    (takeLines text).1 <+: requests.map QueueItem.body ∧
      ((takeLines text).2 ++ rest ≠ [] → (takeLines text).1.length < requests.length) := by
  have hall := takeLines_requestText h
  rw [htext, takeLines_append] at hall
  have hlines := congrArg Prod.fst hall
  have hend := congrArg Prod.snd hall
  simp only at hlines hend
  refine ⟨hlines ▸ List.prefix_append _ _, fun hne => ?_⟩
  have hmore : (takeLines ((takeLines text).2 ++ rest)).1 ≠ [] := by
    intro hnil
    exact hne (eq_nil_of_takeLines (Prod.ext hnil hend))
  have hlength := congrArg List.length hlines
  rw [List.length_append, List.length_map] at hlength
  have hpos := List.length_pos_of_ne_nil hmore
  omega

/-! ### The server's side -/

section Server

variable {κ : Type} [DecidableEq κ] {num : Numerals} {hashKey : JsString → ℕ}
  {node node' : CacheNode} {s s' : CacheServer κ} {ev : ServerEvent κ} {peer : κ}
  {past : List (LogEntry κ)}

omit [DecidableEq κ] in
theorem written_of_socket {socket : ServerSocket} (h : s.socket peer = some socket) :
    s.written peer = socket.written := by
  rw [CacheServer.written, h]
  rfl

/-- A socket goes on: `own` says whether it may be written on, which it is no more once it has been
ended. -/
def ServerSocket.Next (own : Prop) (socket socket' : ServerSocket) : Prop :=
  ∃ lines, socket'.written = socket.written ++ lines ∧ (¬ own → lines = []) ∧
    (socket.connection.ended = true → socket'.connection.ended = true ∧ lines = [])

theorem ServerSocket.Next.of_written {own : Prop} {socket socket' : ServerSocket}
    (hwritten : socket'.written = socket.written)
    (hended : socket.connection.ended = true → socket'.connection.ended = true) :
    ServerSocket.Next own socket socket' :=
  ⟨[], by rw [hwritten, List.append_nil], fun _ => rfl, fun h => ⟨hended h, rfl⟩⟩

/-- A socket is made, with nothing written on it, or it goes on. -/
def SocketStep (s : CacheServer κ) (ev : ServerEvent κ) (s' : CacheServer κ) (i : κ) : Prop :=
  (s.socket i = none → s'.written i = []) ∧ ∀ socket, s.socket i = some socket →
    ∃ socket', s'.socket i = some socket' ∧
      ServerSocket.Next (ev.writesOn = some i) socket socket'

/-- **What a step does to the sockets.** -/
theorem step_socket (hstep : ServerStep num hashKey s ev s') (i : κ) : SocketStep s ev s' i := by
  have same (hsocket : s'.socket i = s.socket i) : SocketStep s ev s' i := by
    refine ⟨fun hnone => ?_, fun socket h => ⟨socket, hsocket.trans h, .of_written rfl id⟩⟩
    rw [CacheServer.written, hsocket, hnone]
    rfl
  -- one socket is replaced by another
  have replaced {peer : κ} {socket socket' : ServerSocket} (hsocket : s.socket peer = some socket)
      (hupdate : s'.socket = Function.update s.socket peer (some socket'))
      (hnext : ServerSocket.Next (ev.writesOn = some peer) socket socket') :
      SocketStep s ev s' i := by
    by_cases hi : i = peer
    · subst hi
      refine ⟨fun hnone => ?_, fun old h => ?_⟩
      · rw [hsocket] at hnone
        cases hnone
      · obtain rfl : socket = old := Option.some.inj (hsocket.symm.trans h)
        exact ⟨socket', by rw [hupdate, Function.update_self], hnext⟩
    · exact same (by rw [hupdate, Function.update_of_ne hi])
  have all {f : ServerSocket → ServerSocket}
      (hwritten : ∀ socket, (f socket).written = socket.written)
      (hended : ∀ socket, socket.connection.ended = true → (f socket).connection.ended = true)
      (hupdate : s'.socket = (s.forSockets f).socket) :
      SocketStep s ev s' i := by
    by_cases hi : i ∈ s.sockets
    · have hmap : s'.socket i = (s.socket i).map f := by
        rw [hupdate]
        exact if_pos hi
      refine ⟨fun hnone => ?_, fun socket h => ⟨f socket, by rw [hmap, h]; rfl,
        .of_written (hwritten socket) (hended socket)⟩⟩
      rw [CacheServer.written, hmap, hnone]
      rfl
    · exact same (by rw [hupdate]; exact if_neg hi)
  cases hstep with
  | listen =>
    refine same ?_
    unfold CacheServer.listen
    split_ifs <;> rfl
  | close =>
    refine all (f := ServerSocket.finish) (fun _ => rfl) (fun _ _ => rfl) ?_
    unfold CacheServer.close
    split_ifs <;> rfl
  | enableReplication hconfig =>
    obtain ⟨config, -, rfl⟩ := map_eq_ok_iff.1 hconfig
    exact same rfl
  | connection hnone =>
    rename_i peer
    by_cases hi : i = peer
    · subst hi
      have hnew (socket : ServerSocket) (hwritten : socket.written = []) :
          (s.setSocket i socket).written i = [] := by
        rw [written_of_socket (Function.update_self i (some socket) s.socket), hwritten]
      refine ⟨fun _ => ?_, fun socket h => ?_⟩
      · unfold CacheServer.onConnection
        split_ifs
        · exact hnew { ServerSocket.new with destroyed := true } rfl
        · exact hnew .new rfl
      · rw [hnone] at h
        cases h
    · refine same ?_
      unfold CacheServer.onConnection
      split_ifs <;> exact Function.update_of_ne hi _ _
  | data hsocket hopen clocks chunk hdata =>
    rcases onData_cases hdata with ⟨-, rfl⟩ | ⟨-, batch, -, rfl⟩
    · exact replaced hsocket rfl ⟨_, rfl, fun hne => absurd rfl hne,
        fun hended => ⟨rfl, if_pos hended⟩⟩
    · exact replaced hsocket rfl ⟨_, rfl, fun hne => absurd rfl hne,
        fun hended => ⟨hended, if_pos hended⟩⟩
  | timeout hsocket hopen =>
    rename_i peer socket
    refine replaced hsocket rfl ?_
    unfold ServerSocket.write
    split_ifs with hended
    · exact .of_written rfl fun _ => rfl
    · exact ⟨_, rfl, fun hne => absurd rfl hne, fun h => absurd h hended⟩
  | peerEnds hsocket hopen => exact replaced hsocket rfl (.of_written rfl fun _ => rfl)
  | gone hsocket => exact replaced hsocket rfl (.of_written rfl id)
  | closeTimeout htimers =>
    exact all (f := ServerSocket.destroy) (fun _ => rfl) (fun _ hended => hended) rfl
  | serverClosed htimers | settle index result | release => exact same rfl

/-- A step writes on one connection at most, after what was written there before. -/
theorem step_written (hstep : ServerStep num hashKey s ev s') (i : κ) :
    ∃ lines, s'.written i = s.written i ++ lines ∧ (ev.writesOn ≠ some i → lines = []) := by
  obtain ⟨hnew, hold⟩ := step_socket hstep i
  cases hsocket : s.socket i with
  | none =>
    refine ⟨[], ?_, fun _ => rfl⟩
    rw [hnew hsocket, CacheServer.written, hsocket]
    rfl
  | some socket =>
    obtain ⟨socket', hsocket', lines, hwritten, hother, -⟩ := hold socket hsocket
    refine ⟨lines, ?_, hother⟩
    rw [written_of_socket hsocket', written_of_socket hsocket, hwritten]

theorem written_other (hstep : ServerStep num hashKey s ev s') {i : κ}
    (hother : ev.writesOn ≠ some i) : s'.written i = s.written i := by
  obtain ⟨lines, hlines, hnil⟩ := step_written hstep i
  rw [hlines, hnil hother, List.append_nil]

/-- On a connection that the server has ended it writes no more. -/
theorem step_ended (hstep : ServerStep num hashKey s ev s') {i : κ} (h : s.ended i = true) :
    s'.ended i = true ∧ s'.written i = s.written i := by
  cases hsocket : s.socket i with
  | none =>
    rw [CacheServer.ended, hsocket] at h
    cases h
  | some socket =>
    rw [CacheServer.ended, hsocket] at h
    obtain ⟨socket', hsocket', lines, hwritten, -, hended⟩ := (step_socket hstep i).2 socket hsocket
    obtain ⟨hended', rfl⟩ := hended h
    refine ⟨?_, ?_⟩
    · rw [CacheServer.ended, hsocket']
      exact hended'
    · rw [written_of_socket hsocket', written_of_socket hsocket, hwritten, List.append_nil]

/-- A connection that times out is ended, with a notice if it was not ended before. -/
theorem timeout_written (hstep : ServerStep num hashKey s (.timeout peer) s') :
    s'.ended peer = true ∧ (s.ended peer = false →
      s'.written peer = s.written peer ++ [encodeErr (js "idle timeout")]) := by
  cases hstep with
  | timeout hsocket hopen =>
    rename_i socket
    have hnew : (s.onTimeout peer socket).socket peer =
        some (socket.write (encodeErr (js "idle timeout"))).finish := Function.update_self _ _ _
    refine ⟨by rw [CacheServer.ended, hnew]; rfl, fun hended => ?_⟩
    rw [CacheServer.ended, hsocket] at hended
    replace hended : socket.connection.ended = false := hended
    rw [written_of_socket hnew, written_of_socket hsocket, ServerSocket.write, hended]
    rfl

/-- Lines that have been served stay in the log. -/
theorem step_log (hstep : ServerStep num hashKey s ev s') : ∃ more, s'.log = s.log ++ more := by
  cases hstep with
  | listen =>
    unfold CacheServer.listen
    split_ifs <;> exact ⟨[], (List.append_nil _).symm⟩
  | close =>
    unfold CacheServer.close
    split_ifs <;> exact ⟨[], (List.append_nil _).symm⟩
  | enableReplication hconfig =>
    obtain ⟨config, -, rfl⟩ := map_eq_ok_iff.1 hconfig
    exact ⟨[], (List.append_nil _).symm⟩
  | connection hnone =>
    unfold CacheServer.onConnection
    split_ifs <;> exact ⟨[], (List.append_nil _).symm⟩
  | data hsocket hopen clocks chunk hdata =>
    obtain ⟨entries, writes, handled, rfl⟩ := onData_absorb hdata
    exact ⟨entries, rfl⟩
  | timeout _ _ | peerEnds _ _ | gone _ | closeTimeout _ | serverClosed _ | settle _ _ | release =>
    exact ⟨[], (List.append_nil _).symm⟩

omit [DecidableEq κ] in
/-- A node answers every line that is not blank, with one line. -/
theorem run_replies (h : Inv node.store) (hrun : (lineSystem num κ node).Run past node') :
    Inv node'.store ∧ ∀ e ∈ past, (∀ reply, e.reply = some reply → Framed reply) ∧
      (trim (dropCr e.text) ≠ [] → e.reply ≠ none) := by
  induction hrun with
  | start => exact ⟨h, fun e he => absurd he List.not_mem_nil⟩
  | snoc _ hstep ih =>
    obtain ⟨hinv, hpast⟩ := ih
    obtain ⟨served, hserve, hreply, rfl⟩ := hstep
    obtain ⟨served', hserve', hinv', -, hnone, hframed, -⟩ :=
      serveLine_reply hinv (replies_framed num _) _ _
    cases hserve.symm.trans hserve'
    refine ⟨hinv', fun e he => ?_⟩
    rcases List.mem_cons.1 he with rfl | he
    · rw [← hreply]
      exact ⟨hframed, fun hvisible hblank => hvisible (hnone.1 hblank).2⟩
    · exact hpast e he

end Server

end DistributedCache
