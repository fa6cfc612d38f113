import DistributedCache.Lib.System
import DistributedCache.Node.Connection
import DistributedCache.Node.ParseNodes

/-!
# The server and its connections

`CacheServer` of `apps/cache-node/src/server.js` with all its connections. What arrives on them is
served by one store, chunk by chunk, in whatever order the chunks arrive. Nevertheless there is, in
every run, one order of all lines served in which each got the reply of a node that serves one line
after the other, and every connection gets the replies to its own lines, in their order
(`server_serial`).

* `ServerSocket`, `CacheServer` and the methods of the source on it;
* `ServerEvent`, `ServerStep`, `serverSystem`;
* `LogEntry`, `lineSystem`: the sequential node, and `serveLine_alone`: what a node replies does not
  depend on its engine;
* `Accounts`: what went over one connection; `Serial`, which every step keeps.

The operating system may hand over a connection at any time. A write after `socket.end()` fails and
destroys the socket; a destroyed socket gives no more data.
-/

namespace DistributedCache

/-! ### The sequential node -/

/-- A line that was served: who sent it, the clock readings offered for it, and its reply. -/
structure LogEntry (κ : Type) where
  peer : κ
  clock : Clock
  text : JsString
  reply : Option JsString

/-- The node without its engine. -/
def CacheNode.alone (node : CacheNode) : CacheNode := { node with replication := none }

/-- A node that serves one line after the other, whoever sends it. -/
def lineSystem (num : Numerals) (κ : Type) (node : CacheNode) :
    System CacheNode (LogEntry κ) where
  init := node
  step node entry node' := ∃ served, serveLine num node entry.clock entry.text = some served ∧
    served.reply = entry.reply ∧ served.node = node'

/-- The lines of one chunk as they are served. -/
def serveLog {κ : Type} (num : Numerals) (peer : κ) (node : CacheNode) (clocks : Stream' Clock) :
    List JsString → List (LogEntry κ)
  | [] => []
  | text :: lines =>
      match serveLine num node clocks.head text with
      | none => []
      | some served =>
          ⟨peer, clocks.head, text, served.reply⟩ ::
            serveLog num peer served.node clocks.tail lines

variable {κ : Type} {num : Numerals} {node : CacheNode} {clocks : Stream' Clock}
  {lines : List JsString} {batch : Batch}

theorem fanOut_alone (node : CacheNode) (command : Command) :
    (node.fanOut num command).1.alone = node.alone := by
  unfold CacheNode.fanOut
  split
  · split_ifs <;> rfl
  · rfl

theorem dispatchCommand_alone (node : CacheNode) (c : Clock) (command : Command) :
    dispatchCommand num node.alone c command = (dispatchCommand num node c command).map
      fun served => ⟨served.reply, served.node.alone, [], served.clock⟩ := by
  cases command with
  | repl inner =>
    simp only [dispatchCommand, Option.map_map]
    rfl
  | ping | set cmd | keyed name key =>
    simp only [dispatchCommand, Option.map_map]
    refine congrArg (fun f => Option.map f _) (funext fun r => ?_)
    simp only [Function.comp_apply, fanOut_alone]
    rfl

/-- **What a node replies, and what becomes of its store, does not depend on its engine.** -/
theorem serveLine_alone (node : CacheNode) (c : Clock) (text : JsString) :
    serveLine num node.alone c text = (serveLine num node c text).map fun served =>
      ⟨served.reply, served.node.alone, [], served.clock⟩ := by
  unfold serveLine
  have hlimit : node.alone.maxLineBytes = node.maxLineBytes := rfl
  simp only [hlimit]
  by_cases hlong : byteLength (dropCr text) > node.maxLineBytes
  · simp only [if_pos hlong]
    rfl
  · by_cases hblank : trim (dropCr text) = []
    · simp only [if_neg hlong, if_pos hblank]
      rfl
    · simp only [if_neg hlong, if_neg hblank]
      cases parseCommand num (dropCr text) with
      | error message => rfl
      | ok command => exact dispatchCommand_alone node c command

theorem serveLine_limit {c : Clock} {text : JsString} {served : Served}
    (h : serveLine num node c text = some served) :
    served.node.maxLineBytes = node.maxLineBytes := by
  unfold serveLine at h
  simp only at h
  split_ifs at h
  · cases h
    rfl
  · cases h
    rfl
  · split at h
    · cases h
      rfl
    · rename_i command _
      unfold dispatchCommand at h
      split at h
      · obtain ⟨r, -, rfl⟩ := Option.map_eq_some_iff.1 h
        rfl
      · obtain ⟨r, -, rfl⟩ := Option.map_eq_some_iff.1 h
        unfold CacheNode.fanOut
        split
        · split_ifs <;> rfl
        · rfl

/-- What is logged of a chunk: its lines with their replies, as the sequential node serves them. -/
theorem serveLog_spec (h : serveLines num node clocks lines = some batch) (peer : κ)
    (init : CacheNode) :
    (lineSystem num κ init).Trace node.alone (serveLog num peer node clocks lines).reverse
      batch.node.alone ∧
    (serveLog num peer node clocks lines).map LogEntry.text = lines ∧
    (serveLog num peer node clocks lines).map LogEntry.reply = batch.replies ∧
    (∀ e ∈ serveLog num peer node clocks lines, e.peer = peer) ∧
    batch.node.maxLineBytes = node.maxLineBytes := by
  induction lines generalizing node clocks batch with
  | nil =>
    cases h
    exact ⟨.refl, rfl, rfl, fun _ h => (nomatch h), rfl⟩
  | cons text lines ih =>
    rw [serveLines] at h
    split at h
    · cases h
    · rename_i served hserve
      obtain ⟨rest, hrest, rfl⟩ := Option.map_eq_some_iff.1 h
      obtain ⟨htrace, htexts, hreplies, hpeer, hlimit⟩ := ih hrest
      have hstep : (lineSystem num κ init).step node.alone
          ⟨peer, clocks.head, text, served.reply⟩ served.node.alone :=
        ⟨_, (serveLine_alone _ _ _).trans (congrArg _ hserve), rfl, rfl⟩
      simp only [serveLog, hserve, List.reverse_cons]
      refine ⟨(System.Trace.refl.snoc hstep).append htrace, ?_, ?_, ?_,
        hlimit.trans (serveLine_limit hserve)⟩
      · rw [List.map_cons, htexts]
      · rw [List.map_cons, hreplies]
        rfl
      · intro e he
        rcases List.mem_cons.1 he with rfl | he
        · rfl
        · exact hpeer e he

/-! ### One connection -/

/-- The server's end of a connection; `received` and `written` are all that went over it. -/
structure ServerSocket where
  connection : Connection
  destroyed : Bool
  received : JsString
  written : List JsString

/-- A socket that was handed over. -/
def ServerSocket.new : ServerSocket := ⟨.new, false, [], []⟩

namespace ServerSocket

/-- `socket.end()`. -/
def finish (socket : ServerSocket) : ServerSocket :=
  { socket with connection := { socket.connection with ended := true } }

/-- `socket.destroy()`. -/
def destroy (socket : ServerSocket) : ServerSocket := { socket with destroyed := true }

/-- `socket.write(line)`. -/
def write (socket : ServerSocket) (line : JsString) : ServerSocket :=
  if socket.connection.ended then socket.destroy
  else { socket with written := socket.written ++ [line] }

end ServerSocket

section Accounts

/-- What a connection may end with. -/
def notices : List (List JsString) :=
  [[], [encodeErr (js "input too large")], [encodeErr (js "idle timeout")]]

/-- What went over a connection, and which of its lines were served. Lines that are left in the
buffer are never served, since the buffer is too large. -/
structure Accounts (limit : ℕ) (entries : List (LogEntry κ)) (socket : ServerSocket) : Prop where
  lines : (takeLines socket.received).1 =
    entries.map LogEntry.text ++ (takeLines socket.connection.buffer).1
  rest : (takeLines socket.received).2 = (takeLines socket.connection.buffer).2
  kept : (takeLines socket.connection.buffer).1 ≠ [] →
    limit * 2 < byteLength socket.connection.buffer
  answered : socket.connection.ended = false → (takeLines socket.connection.buffer).1 = [] ∧
    socket.written = entries.filterMap LogEntry.reply
  written : ∃ n, ∃ notice ∈ notices,
    socket.written = (entries.filterMap LogEntry.reply).take n ++ notice

variable {limit : ℕ} {entries : List (LogEntry κ)} {socket : ServerSocket}

theorem accounts_new : Accounts limit ([] : List (LogEntry κ)) .new :=
  ⟨rfl, rfl, fun h => absurd rfl h, fun _ => ⟨rfl, rfl⟩, 0, [], by simp [notices], rfl⟩

theorem Accounts.destroy (h : Accounts limit entries socket) :
    Accounts limit entries socket.destroy :=
  ⟨h.lines, h.rest, h.kept, h.answered, h.written⟩

theorem Accounts.finish (h : Accounts limit entries socket) :
    Accounts limit entries socket.finish :=
  ⟨h.lines, h.rest, h.kept, fun hended => (nomatch hended), h.written⟩

/-- A last line is written, if one can still be written. -/
theorem Accounts.giveUp (h : Accounts limit entries socket) {line : JsString}
    (hline : [line] ∈ notices) : Accounts limit entries (socket.write line).finish := by
  unfold ServerSocket.write
  split_ifs with hended
  · exact h.destroy.finish
  · refine ⟨h.lines, h.rest, h.kept, fun hended => (nomatch hended),
      (entries.filterMap LogEntry.reply).length, [line], hline, ?_⟩
    rw [List.take_length]
    exact congrArg (· ++ [line]) (h.answered (Bool.eq_false_iff.2 hended)).2

/-- Too much arrives. -/
theorem Accounts.large (h : Accounts limit entries socket) {chunk : JsString}
    (hlarge : byteLength (socket.connection.buffer ++ chunk) > limit * 2) (destroyed : Bool) :
    Accounts limit entries
      { connection := ⟨socket.connection.buffer ++ chunk, true⟩
        destroyed := destroyed
        received := socket.received ++ chunk
        written := socket.written ++
          if socket.connection.ended then [] else [encodeErr (js "input too large")] } := by
  refine ⟨?_, ?_, fun _ => hlarge, fun hended => (nomatch hended), ?_⟩
  · rw [takeLines_append, takeLines_append socket.connection.buffer, h.lines, h.rest,
      List.append_assoc]
  · rw [takeLines_append, takeLines_append socket.connection.buffer, h.rest]
  · cases hended : socket.connection.ended with
    | true =>
      simp only [if_true, List.append_nil]
      exact h.written
    | false =>
      refine ⟨(entries.filterMap LogEntry.reply).length, [encodeErr (js "input too large")],
        by simp [notices], ?_⟩
      rw [List.take_length, (h.answered hended).2]
      rfl

/-- The complete lines of the buffer are served. -/
theorem Accounts.serve (h : Accounts limit entries socket) {chunk : JsString}
    (hsmall : byteLength (socket.connection.buffer ++ chunk) ≤ limit * 2)
    {more : List (LogEntry κ)}
    (hmore : more.map LogEntry.text = (takeLines (socket.connection.buffer ++ chunk)).1)
    (destroyed : Bool) :
    Accounts limit (entries ++ more)
      { connection := ⟨(takeLines (socket.connection.buffer ++ chunk)).2, socket.connection.ended⟩
        destroyed := destroyed
        received := socket.received ++ chunk
        written := socket.written ++
          if socket.connection.ended then [] else more.filterMap LogEntry.reply } := by
  -- the buffer is not too large, so it has no complete line
  have hnone : (takeLines socket.connection.buffer).1 = [] := by
    by_contra hne
    have hlarge := h.kept hne
    rw [byteLength_append] at hsmall
    omega
  have hbuffer : takeLines (takeLines (socket.connection.buffer ++ chunk)).2 =
      ([], (takeLines (socket.connection.buffer ++ chunk)).2) :=
    takeLines_of_notMem (newline_notMem_takeLines _)
  have hall := takeLines_append socket.connection.buffer chunk
  rw [hnone, List.nil_append] at hall
  have hreceived : takeLines (socket.received ++ chunk) =
      (entries.map LogEntry.text ++ (takeLines (socket.connection.buffer ++ chunk)).1,
        (takeLines (socket.connection.buffer ++ chunk)).2) := by
    rw [takeLines_append, h.rest, h.lines, hnone, List.append_nil, hall]
  refine ⟨?_, ?_, fun hne => absurd (congrArg Prod.fst hbuffer) hne, fun hended => ⟨?_, ?_⟩, ?_⟩
  · simp only [hreceived, hbuffer, List.append_nil, List.map_append, hmore]
  · simp only [hreceived, hbuffer]
  · exact congrArg Prod.fst hbuffer
  · replace hended : socket.connection.ended = false := hended
    simp only [hended, Bool.false_eq_true, if_false, List.filterMap_append]
    rw [(h.answered hended).2]
  · cases hended : socket.connection.ended with
    | true =>
      obtain ⟨n, notice, hnotice, hwritten⟩ := h.written
      refine ⟨min n (entries.filterMap LogEntry.reply).length, notice, hnotice, ?_⟩
      simp only [if_true, List.append_nil, hwritten, List.filterMap_append]
      rw [List.take_append_of_le_length (Nat.min_le_right _ _), List.take_eq_take_min]
    | false =>
      refine ⟨((entries ++ more).filterMap LogEntry.reply).length, [], by simp [notices], ?_⟩
      simp only [Bool.false_eq_true, if_false, List.append_nil]
      rw [List.take_length, List.filterMap_append, (h.answered hended).2]

end Accounts

/-! ### The server -/

/-- The state of a `CacheServer`. The node has the store, the engine with its configuration, and the
line limit; `socket` knows every connection that was ever handed over, `sockets` is `#sockets`;
`timers` counts the timers of `close` that have neither fired nor been cleared. -/
structure CacheServer (κ : Type) where
  node : CacheNode
  server : Bool
  closing : Bool
  sockets : List κ
  socket : κ → Option ServerSocket
  timers : ℕ
  log : List (LogEntry κ)
  sent : List (ℕ × JsString)

namespace CacheServer

/-- A server that has been constructed. -/
def new (κ : Type) (node : CacheNode) : CacheServer κ where
  node := node
  server := false
  closing := false
  sockets := []
  socket _ := none
  timers := 0
  log := []
  sent := []

variable [DecidableEq κ]

/-- `listen`; it is rejected while there is a server. -/
def listen (s : CacheServer κ) : CacheServer κ :=
  if s.server then s else { s with server := true, closing := false }

/-- `enableReplication`: a new engine in place of the old one, unless the options are refused. -/
def enableReplication (hashKey : JsString → ℕ) (s : CacheServer κ) (options : ReplicationOptions) :
    Except JsString (CacheServer κ) :=
  (buildClusterReplicationConfig hashKey options.nodeId options.nodes
    (.number options.replicationFactor) (.number options.virtualNodesPerNode)).map fun config =>
      { s with node := { s.node with replication := some (.new config) } }

/-- Change one socket. -/
def setSocket (s : CacheServer κ) (peer : κ) (socket : ServerSocket) : CacheServer κ :=
  { s with socket := Function.update s.socket peer (some socket) }

/-- `#onConnection`. -/
def onConnection (s : CacheServer κ) (peer : κ) : CacheServer κ :=
  if s.closing then s.setSocket peer { ServerSocket.new with destroyed := true }
  else { s.setSocket peer .new with sockets := peer :: s.sockets }

/-- What a `data` event leaves, with the lines that it has served; `writes` is whether the handler
has called `socket.write`. -/
def absorb (s : CacheServer κ) (peer : κ) (socket : ServerSocket) (chunk : JsString)
    (entries : List (LogEntry κ)) (writes : Bool) (handled : Handled) : CacheServer κ :=
  { s.setSocket peer
      { connection := handled.connection
        destroyed := socket.connection.ended && writes
        received := socket.received ++ chunk
        written := socket.written ++ handled.writes } with
    node := handled.node
    log := s.log ++ entries
    sent := s.sent ++ handled.sends }

/-- The handler of `data`. -/
def onData (num : Numerals) (s : CacheServer κ) (peer : κ) (socket : ServerSocket)
    (clocks : Stream' Clock) (chunk : JsString) : Option (CacheServer κ) :=
  let buffer := socket.connection.buffer ++ chunk
  let entries := serveLog num peer s.node clocks (takeLines buffer).1
  (socket.connection.onData num s.node clocks chunk).map <|
    if byteLength buffer > s.node.maxLineBytes * 2 then s.absorb peer socket chunk [] true
    else s.absorb peer socket chunk entries (entries.any (·.reply.isSome))

/-- `for (const socket of [...this.#sockets])`. -/
def forSockets (s : CacheServer κ) (f : ServerSocket → ServerSocket) : CacheServer κ :=
  { s with socket := fun peer => if peer ∈ s.sockets then (s.socket peer).map f else s.socket peer }

/-- The handlers of `close` and `error`, which Node calls once the socket is destroyed. -/
def cleanup (s : CacheServer κ) (peer : κ) (socket : ServerSocket) : CacheServer κ :=
  { s.setSocket peer socket.destroy with sockets := s.sockets.filter (· ≠ peer) }

/-- The handler of `timeout`. -/
def onTimeout (s : CacheServer κ) (peer : κ) (socket : ServerSocket) : CacheServer κ :=
  s.setSocket peer (socket.write (encodeErr (js "idle timeout"))).finish

/-- The timer of `close` fires. -/
def onCloseTimeout (s : CacheServer κ) : CacheServer κ :=
  { s.forSockets ServerSocket.destroy with timers := s.timers - 1 }

/-- `close`. The engine is given up only where there is a server; the timer is set once the engine
has been closed. -/
def close (s : CacheServer κ) : CacheServer κ :=
  let ended := { s.forSockets ServerSocket.finish with closing := true }
  if s.server then
    { ended with
      server := false
      node := { s.node with replication := none }
      timers := s.timers + 1 }
  else ended

end CacheServer

/-- What can happen: calls of the user, events of sockets and timers, and the progress of the engine
of the node. -/
inductive ServerEvent (κ : Type)
  | listen
  | close
  | enableReplication (options : ReplicationOptions)
  | connection (peer : κ)
  | data (peer : κ) (clocks : Stream' Clock) (chunk : JsString)
  | timeout (peer : κ)
  | peerEnds (peer : κ)
  | gone (peer : κ)
  | closeTimeout
  | serverClosed
  | settle (index : ℕ) (result : Except JsString JsString)
  | release

/-- Change the engine, where there is one. -/
def CacheServer.mapEngine (s : CacheServer κ) (f : ReplicationEngine → ReplicationEngine) :
    CacheServer κ :=
  { s with node := { s.node with replication := s.node.replication.map f } }

variable [DecidableEq κ]

/-- The steps. Node ends its side of a connection when the peer has ended its own. -/
inductive ServerStep (num : Numerals) (hashKey : JsString → ℕ) :
    CacheServer κ → ServerEvent κ → CacheServer κ → Prop
  | listen (s : CacheServer κ) : ServerStep num hashKey s .listen s.listen
  | close (s : CacheServer κ) : ServerStep num hashKey s .close s.close
  | enableReplication (s : CacheServer κ) {options : ReplicationOptions} {s' : CacheServer κ}
      (h : s.enableReplication hashKey options = .ok s') :
      ServerStep num hashKey s (.enableReplication options) s'
  | connection (s : CacheServer κ) {peer : κ} (h : s.socket peer = none) :
      ServerStep num hashKey s (.connection peer) (s.onConnection peer)
  | data (s : CacheServer κ) {peer : κ} {socket : ServerSocket} (h : s.socket peer = some socket)
      (hopen : socket.destroyed = false) (clocks : Stream' Clock) (chunk : JsString)
      {s' : CacheServer κ} (hdata : s.onData num peer socket clocks chunk = some s') :
      ServerStep num hashKey s (.data peer clocks chunk) s'
  | timeout (s : CacheServer κ) {peer : κ} {socket : ServerSocket}
      (h : s.socket peer = some socket) (hopen : socket.destroyed = false) :
      ServerStep num hashKey s (.timeout peer) (s.onTimeout peer socket)
  | peerEnds (s : CacheServer κ) {peer : κ} {socket : ServerSocket}
      (h : s.socket peer = some socket) (hopen : socket.destroyed = false) :
      ServerStep num hashKey s (.peerEnds peer) (s.setSocket peer socket.finish)
  | gone (s : CacheServer κ) {peer : κ} {socket : ServerSocket}
      (h : s.socket peer = some socket) :
      ServerStep num hashKey s (.gone peer) (s.cleanup peer socket)
  | closeTimeout (s : CacheServer κ) (h : 0 < s.timers) :
      ServerStep num hashKey s .closeTimeout s.onCloseTimeout
  | serverClosed (s : CacheServer κ) (h : 0 < s.timers) :
      ServerStep num hashKey s .serverClosed { s with timers := s.timers - 1 }
  | settle (s : CacheServer κ) (index : ℕ) (result : Except JsString JsString) :
      ServerStep num hashKey s (.settle index result) (s.mapEngine (·.settle index result))
  | release (s : CacheServer κ) :
      ServerStep num hashKey s .release (s.mapEngine ReplicationEngine.release)

/-- A server with all its connections, started with a given node. -/
def serverSystem (num : Numerals) (hashKey : JsString → ℕ) (κ : Type) [DecidableEq κ]
    (node : CacheNode) : System (CacheServer κ) (ServerEvent κ) where
  init := .new κ node
  step := ServerStep num hashKey

variable {hashKey : JsString → ℕ} {s s' : CacheServer κ} {peer : κ} {ev : ServerEvent κ}
  {past : List (ServerEvent κ)}

/-! ### One order of all lines -/

/-- A chunk either is too much, or its complete lines are served. -/
theorem onData_cases {chunk : JsString}
    (h : s.onData num peer socket clocks chunk = some s') :
    let buffer := socket.connection.buffer ++ chunk
    let entries := serveLog num peer s.node clocks (takeLines buffer).1
    (byteLength buffer > s.node.maxLineBytes * 2 ∧
      s' = s.absorb peer socket chunk [] true ⟨⟨buffer, true⟩, s.node, clocks,
        if socket.connection.ended then [] else [encodeErr (js "input too large")], [], []⟩) ∨
    (byteLength buffer ≤ s.node.maxLineBytes * 2 ∧ ∃ batch,
      serveLines num s.node clocks (takeLines buffer).1 = some batch ∧
      s' = s.absorb peer socket chunk entries (entries.any (·.reply.isSome))
        ⟨⟨(takeLines buffer).2, socket.connection.ended⟩, batch.node,
          clocks.drop (takeLines buffer).1.length,
          if socket.connection.ended then [] else batch.replies.reduceOption, batch.executed,
          batch.sends⟩) := by
  intro buffer entries
  obtain ⟨handled, hhandled, rfl⟩ := Option.map_eq_some_iff.1 h
  by_cases hlarge : byteLength buffer > s.node.maxLineBytes * 2
  · rw [onData_over hlarge] at hhandled
    cases hhandled
    exact Or.inl ⟨hlarge, by rw [if_pos hlarge]⟩
  · have hsmall : socket.connection.onData num s.node clocks chunk = (serveLines num s.node clocks
        (takeLines buffer).1).map _ := if_neg hlarge
    rw [hsmall] at hhandled
    obtain ⟨batch, hbatch, rfl⟩ := Option.map_eq_some_iff.1 hhandled
    exact Or.inr ⟨not_lt.1 hlarge, batch, hbatch, by rw [if_neg hlarge]⟩

/-- A chunk only adds to the log and to what has been received and written. -/
theorem onData_absorb {chunk : JsString} {socket : ServerSocket}
    (h : s.onData num peer socket clocks chunk = some s') :
    ∃ entries writes handled, s' = s.absorb peer socket chunk entries writes handled := by
  obtain ⟨handled, -, rfl⟩ := Option.map_eq_some_iff.1 h
  split_ifs
  · exact ⟨_, _, handled, rfl⟩
  · exact ⟨_, _, handled, rfl⟩

/-- The lines of one connection, oldest first. -/
def CacheServer.entries (s : CacheServer κ) (peer : κ) : List (LogEntry κ) :=
  s.log.filter fun e => e.peer = peer

/-- New lines of one connection join its lines only. -/
theorem entries_append {more : List (LogEntry κ)} (hlog : s'.log = s.log ++ more)
    (hpeer : ∀ e ∈ more, e.peer = peer) (i : κ) :
    s'.entries i = s.entries i ++ if i = peer then more else [] := by
  simp only [CacheServer.entries, hlog, List.filter_append]
  split_ifs with hi
  · have hall : more.filter (fun e => e.peer = i) = more :=
      List.filter_eq_self.2 fun e he => decide_eq_true ((hpeer e he).trans hi.symm)
    rw [hall]
  · have hother : more.filter (fun e => e.peer = i) = [] :=
      List.filter_eq_nil_iff.2 fun e he => by simpa [hpeer e he] using Ne.symm hi
    rw [hother]

/-- What is true of every reachable server that was started with `node`. -/
structure Serial (num : Numerals) (node : CacheNode) (s : CacheServer κ) : Prop where
  order : (lineSystem num κ node.alone).Run s.log.reverse s.node.alone
  limit : s.node.maxLineBytes = node.maxLineBytes
  unknown : ∀ peer, s.socket peer = none → s.entries peer = []
  accounts : ∀ peer socket, s.socket peer = some socket →
    Accounts node.maxLineBytes (s.entries peer) socket

theorem serial_new (node : CacheNode) : Serial num node (.new κ node) :=
  ⟨.start, rfl, fun _ _ => rfl, fun _ _ h => nomatch h⟩

/-- A step that serves nothing: every socket has the accounts that it had, or is new. -/
theorem Serial.of_sockets (h : Serial num node s) (hlog : s'.log = s.log)
    (hnode : s'.node.alone = s.node.alone)
    (hnone : ∀ peer, s'.socket peer = none → s.socket peer = none)
    (hsome : ∀ peer socket', s'.socket peer = some socket' →
      (∃ socket, s.socket peer = some socket ∧ ∀ entries : List (LogEntry κ),
        Accounts node.maxLineBytes entries socket → Accounts node.maxLineBytes entries socket') ∨
      (s.socket peer = none ∧ Accounts node.maxLineBytes ([] : List (LogEntry κ)) socket')) :
    Serial num node s' := by
  have hentries (peer : κ) : s'.entries peer = s.entries peer := by
    unfold CacheServer.entries
    rw [hlog]
  refine ⟨?_, ?_, fun peer hpeer => ?_, fun peer socket' hsocket' => ?_⟩
  · rw [hlog, hnode]
    exact h.order
  · have hlimit : s'.node.alone.maxLineBytes = s.node.alone.maxLineBytes := by rw [hnode]
    exact hlimit.trans h.limit
  · rw [hentries]
    exact h.unknown peer (hnone peer hpeer)
  · rw [hentries]
    rcases hsome peer socket' hsocket' with ⟨socket, hsocket, hkeep⟩ | ⟨hnew, haccounts⟩
    · exact hkeep _ (h.accounts peer socket hsocket)
    · rw [h.unknown peer hnew]
      exact haccounts

/-- One socket changes, or is new. -/
theorem Serial.setSocket (h : Serial num node s) {socket' : ServerSocket}
    (hkeep : (∃ socket, s.socket peer = some socket ∧ ∀ entries : List (LogEntry κ),
        Accounts node.maxLineBytes entries socket → Accounts node.maxLineBytes entries socket') ∨
      (s.socket peer = none ∧ Accounts node.maxLineBytes ([] : List (LogEntry κ)) socket'))
    (hlog : s'.log = s.log) (hnode : s'.node.alone = s.node.alone)
    (hupdate : s'.socket = (s.setSocket peer socket').socket) : Serial num node s' := by
  refine h.of_sockets hlog hnode (fun i hi => ?_) fun i socket'' hi => ?_
  · rw [hupdate] at hi
    by_cases hpeer : i = peer
    · subst hpeer
      simp [CacheServer.setSocket] at hi
    · simpa only [CacheServer.setSocket, Function.update_of_ne hpeer] using hi
  · rw [hupdate] at hi
    by_cases hpeer : i = peer
    · subst hpeer
      simp only [CacheServer.setSocket, Function.update_self, Option.some.injEq] at hi
      exact hi ▸ hkeep
    · simp only [CacheServer.setSocket, Function.update_of_ne hpeer] at hi
      exact Or.inl ⟨socket'', hi, fun _ h => h⟩

/-- All sockets of `#sockets` change. -/
theorem Serial.forSockets (h : Serial num node s) {f : ServerSocket → ServerSocket}
    (hkeep : ∀ socket, ∀ entries : List (LogEntry κ),
      Accounts node.maxLineBytes entries socket → Accounts node.maxLineBytes entries (f socket))
    (hlog : s'.log = s.log) (hnode : s'.node.alone = s.node.alone)
    (hupdate : s'.socket = (s.forSockets f).socket) : Serial num node s' := by
  refine h.of_sockets hlog hnode (fun i hi => ?_) fun i socket' hi => Or.inl ?_
  · rw [hupdate] at hi
    simp only [CacheServer.forSockets] at hi
    split_ifs at hi
    · exact Option.map_eq_none_iff.1 hi
    · exact hi
  · rw [hupdate] at hi
    simp only [CacheServer.forSockets] at hi
    split_ifs at hi
    · obtain ⟨socket, hsocket, rfl⟩ := Option.map_eq_some_iff.1 hi
      exact ⟨socket, hsocket, hkeep socket⟩
    · exact ⟨socket', hi, fun _ h => h⟩

/-- The log and the connections after a chunk. -/
theorem Serial.absorb (h : Serial num node s) {socket : ServerSocket} {chunk : JsString}
    {more : List (LogEntry κ)} {writes : Bool} {handled : Handled} (hpeer : ∀ e ∈ more, e.peer = peer)
    (htrace : (lineSystem num κ node.alone).Trace s.node.alone more.reverse handled.node.alone)
    (hlimit : handled.node.maxLineBytes = s.node.maxLineBytes)
    (haccounts : Accounts node.maxLineBytes (s.entries peer ++ more)
      { connection := handled.connection
        destroyed := socket.connection.ended && writes
        received := socket.received ++ chunk
        written := socket.written ++ handled.writes }) :
    Serial num node (s.absorb peer socket chunk more writes handled) := by
  have hentries (i : κ) : (s.absorb peer socket chunk more writes handled).entries i =
      s.entries i ++ if i = peer then more else [] := entries_append rfl hpeer i
  have hsockets (i : κ) : (s.absorb peer socket chunk more writes handled).socket i =
      if i = peer then some
        { connection := handled.connection
          destroyed := socket.connection.ended && writes
          received := socket.received ++ chunk
          written := socket.written ++ handled.writes }
      else s.socket i := by
    simp only [CacheServer.absorb, CacheServer.setSocket, Function.update_apply]
  refine ⟨?_, hlimit.trans h.limit, fun i hi => ?_, fun i socket' hi => ?_⟩
  · have hlog : (s.absorb peer socket chunk more writes handled).log.reverse =
        more.reverse ++ s.log.reverse := List.reverse_append
    rw [hlog]
    exact h.order.trace htrace
  · rw [hsockets] at hi
    rw [hentries]
    split_ifs at hi ⊢
    rw [List.append_nil]
    exact h.unknown i hi
  · rw [hsockets] at hi
    rw [hentries]
    split_ifs at hi ⊢ with hpeer'
    · cases hi
      rw [hpeer']
      exact haccounts
    · rw [List.append_nil]
      exact h.accounts i socket' hi

theorem Serial.onData (h : Serial num node s) {socket : ServerSocket}
    (hsocket : s.socket peer = some socket) {chunk : JsString}
    (hdata : s.onData num peer socket clocks chunk = some s') : Serial num node s' := by
  have haccounts := h.accounts peer socket hsocket
  rcases onData_cases hdata with ⟨hlarge, rfl⟩ | ⟨hsmall, batch, hbatch, rfl⟩
  · refine h.absorb (fun e he => nomatch he) .refl rfl ?_
    rw [List.append_nil]
    rw [h.limit] at hlarge
    exact haccounts.large hlarge _
  · obtain ⟨htrace, htexts, hreplies, hpeer, hlimit⟩ := serveLog_spec hbatch peer node.alone
    rw [h.limit] at hsmall
    have hserve := haccounts.serve hsmall htexts
      (socket.connection.ended &&
        (serveLog num peer s.node clocks
          (takeLines (socket.connection.buffer ++ chunk)).1).any (·.reply.isSome))
    refine h.absorb hpeer htrace hlimit ?_
    rw [← hreplies, List.reduceOption, List.filterMap_map]
    exact hserve

theorem Serial.step (h : Serial num node s) (hstep : ServerStep num hashKey s ev s') :
    Serial num node s' := by
  cases hstep with
  | listen =>
    unfold CacheServer.listen
    split_ifs
    · exact h
    · exact ⟨h.order, h.limit, h.unknown, h.accounts⟩
  | close =>
    have hended : Serial num node { s.forSockets ServerSocket.finish with closing := true } :=
      h.forSockets (fun _ _ => Accounts.finish) rfl rfl rfl
    unfold CacheServer.close
    split_ifs
    · exact ⟨hended.order, hended.limit, hended.unknown, hended.accounts⟩
    · exact hended
  | enableReplication hconfig =>
    obtain ⟨config, -, rfl⟩ := map_eq_ok_iff.1 hconfig
    exact ⟨h.order, h.limit, h.unknown, h.accounts⟩
  | connection hnone =>
    unfold CacheServer.onConnection
    split_ifs
    · exact h.setSocket (Or.inr ⟨hnone, accounts_new.destroy⟩) rfl rfl rfl
    · exact h.setSocket (Or.inr ⟨hnone, accounts_new⟩) rfl rfl rfl
  | data hsocket hopen clocks chunk hdata => exact h.onData hsocket hdata
  | timeout hsocket hopen =>
    exact h.setSocket (Or.inl ⟨_, hsocket, fun _ h => h.giveUp (by simp [notices])⟩) rfl rfl rfl
  | peerEnds hsocket hopen =>
    exact h.setSocket (Or.inl ⟨_, hsocket, fun _ => Accounts.finish⟩) rfl rfl rfl
  | gone hsocket => exact h.setSocket (Or.inl ⟨_, hsocket, fun _ => Accounts.destroy⟩) rfl rfl rfl
  | closeTimeout htimers => exact h.forSockets (fun _ _ => Accounts.destroy) rfl rfl rfl
  | serverClosed htimers => exact ⟨h.order, h.limit, h.unknown, h.accounts⟩
  | settle index result => exact ⟨h.order, h.limit, h.unknown, h.accounts⟩
  | release => exact ⟨h.order, h.limit, h.unknown, h.accounts⟩

/-! ### What has arrived -/

/-- The chunk that an event brings on a connection. -/
def ServerEvent.chunk (peer : κ) : ServerEvent κ → Option JsString
  | .data i _ chunk => if i = peer then some chunk else none
  | _ => none

/-- The text that has arrived on a connection. -/
def arrived (past : List (ServerEvent κ)) (peer : κ) : JsString :=
  (past.reverse.filterMap (ServerEvent.chunk peer)).flatten

theorem arrived_cons (ev : ServerEvent κ) (past : List (ServerEvent κ)) (peer : κ) :
    arrived (ev :: past) peer = arrived past peer ++ (ev.chunk peer).getD [] := by
  unfold arrived
  rw [List.reverse_cons, List.filterMap_append, List.flatten_append]
  cases hchunk : ev.chunk peer <;> simp [hchunk]

/-- What the server has received on a connection. -/
def CacheServer.heard (s : CacheServer κ) (peer : κ) : JsString :=
  ((s.socket peer).map ServerSocket.received).getD []

omit [DecidableEq κ] in
/-- The text is the same where the sockets have received the same. -/
theorem heard_congr {i : κ} (h : (s'.socket i).map ServerSocket.received =
    (s.socket i).map ServerSocket.received) : s'.heard i = s.heard i :=
  congrArg (Option.getD · []) h

theorem heard_setSocket (s : CacheServer κ) (peer : κ) (socket : ServerSocket) (i : κ) :
    (s.setSocket peer socket).heard i = if i = peer then socket.received else s.heard i := by
  simp only [CacheServer.heard, CacheServer.setSocket, Function.update_apply]
  split_ifs <;> rfl

/-- One socket changes, and has received what it had. -/
theorem heard_setSocket_same (socket : ServerSocket) (hsocket : socket.received = s.heard peer)
    (i : κ) : (s.setSocket peer socket).heard i = s.heard i := by
  rw [heard_setSocket]
  split_ifs with hi
  · rw [hsocket, hi]
  · rfl

theorem heard_forSockets (s : CacheServer κ) {f : ServerSocket → ServerSocket}
    (hf : ∀ socket, (f socket).received = socket.received) (i : κ) :
    (s.forSockets f).heard i = s.heard i := by
  refine heard_congr ?_
  simp only [CacheServer.forSockets]
  split_ifs
  · cases s.socket i with
    | none => rfl
    | some socket => exact congrArg some (hf socket)
  · rfl

omit [DecidableEq κ] in
theorem heard_of_socket {socket : ServerSocket} (h : s.socket peer = some socket) :
    s.heard peer = socket.received := by
  rw [CacheServer.heard, h]
  rfl

theorem received_write (socket : ServerSocket) (line : JsString) :
    (socket.write line).received = socket.received := by
  unfold ServerSocket.write
  split_ifs <;> rfl

/-- Every step but a chunk leaves what was received as it was. -/
theorem step_heard (hstep : ServerStep num hashKey s ev s') (i : κ) :
    s'.heard i = s.heard i ++ (ev.chunk i).getD [] := by
  have same (h : ∀ i, s'.heard i = s.heard i) (hchunk : ev.chunk i = none) :
      s'.heard i = s.heard i ++ (ev.chunk i).getD [] := by
    rw [hchunk, Option.getD_none, List.append_nil, h]
  cases hstep with
  | listen =>
    refine same (fun i => ?_) rfl
    unfold CacheServer.listen
    split_ifs <;> rfl
  | close =>
    refine same (fun i => ?_) rfl
    have hended := heard_forSockets s (f := ServerSocket.finish) (fun _ => rfl) i
    unfold CacheServer.close
    split_ifs <;> exact hended
  | enableReplication hconfig =>
    obtain ⟨config, -, rfl⟩ := map_eq_ok_iff.1 hconfig
    exact same (fun _ => rfl) rfl
  | connection hnone =>
    rename_i peer
    refine same (fun i => ?_) rfl
    have hnew : [] = s.heard peer := by
      rw [CacheServer.heard, hnone]
      rfl
    unfold CacheServer.onConnection
    split_ifs
    · exact heard_setSocket_same { ServerSocket.new with destroyed := true } hnew i
    · exact heard_setSocket_same .new hnew i
  | data hsocket hopen clocks chunk hdata =>
    rename_i peer socket
    obtain ⟨entries, writes, handled, rfl⟩ := onData_absorb hdata
    have habsorb : (s.absorb peer socket chunk entries writes handled).heard i =
        if i = peer then socket.received ++ chunk else s.heard i := heard_setSocket s peer _ i
    have hchunk : (ServerEvent.data peer clocks chunk).chunk i =
        if peer = i then some chunk else none := rfl
    rw [habsorb, hchunk]
    by_cases hi : i = peer
    · rw [if_pos hi, if_pos hi.symm, hi, heard_of_socket hsocket]
      rfl
    · rw [if_neg hi, if_neg (Ne.symm hi)]
      exact (List.append_nil _).symm
  | timeout hsocket hopen =>
    refine same (fun i => heard_setSocket_same _ ?_ i) rfl
    rw [heard_of_socket hsocket]
    exact received_write _ _
  | peerEnds hsocket hopen =>
    exact same (heard_setSocket_same _ (heard_of_socket hsocket).symm) rfl
  | gone hsocket =>
    rename_i peer socket
    refine same (fun i => ?_) rfl
    exact heard_setSocket_same socket.destroy (heard_of_socket hsocket).symm i
  | closeTimeout htimers =>
    exact same (fun i => heard_forSockets s (f := ServerSocket.destroy) (fun _ => rfl) i) rfl
  | serverClosed htimers | settle index result | release => exact same (fun _ => rfl) rfl

/-- **The invariant of a run.** -/
theorem run_serial (hrun : (serverSystem num hashKey κ node).Run past s) :
    Serial num node s ∧ ∀ peer, s.heard peer = arrived past peer := by
  refine hrun.invariant (P := fun past s => Serial num node s ∧ ∀ peer, s.heard peer =
    arrived past peer) ⟨serial_new node, fun _ => rfl⟩ fun past s l s' _ h hstep =>
      ⟨h.1.step hstep, fun peer => ?_⟩
  rw [step_heard hstep, h.2, arrived_cons]

/-- **One order for all connections.** In every run of the server, with connections coming and
going, chunks of their texts arriving in any order, and the server being closed, started again, or
given another engine meanwhile: all lines served so far are served in one order by a node that
serves one line after the other, with the same replies and the same store. Of each connection these
lines are the first complete lines of its text, in order and each once; all of them, unless the
connection has been given up for sending too much. What was written on it are the replies to them,
in order; all of them as long as the socket has not been ended, and otherwise a beginning of them,
with at most one notice after it. -/
theorem server_serial (hrun : (serverSystem num hashKey κ node).Run past s) :
    (lineSystem num κ node.alone).Run s.log.reverse s.node.alone ∧
    ∀ peer socket, s.socket peer = some socket →
      (∃ rest, (takeLines (arrived past peer)).1 =
          (s.entries peer).map LogEntry.text ++ rest ∧
        (rest ≠ [] → byteLength socket.connection.buffer > node.maxLineBytes * 2)) ∧
      (socket.connection.ended = false →
        (takeLines (arrived past peer)).1 = (s.entries peer).map LogEntry.text ∧
        socket.written = (s.entries peer).filterMap LogEntry.reply) ∧
      ∃ n, ∃ notice ∈ notices,
        socket.written = ((s.entries peer).filterMap LogEntry.reply).take n ++ notice := by
  obtain ⟨hserial, hheard⟩ := run_serial hrun
  refine ⟨hserial.order, fun peer socket hsocket => ?_⟩
  have haccounts := hserial.accounts peer socket hsocket
  rw [← hheard, heard_of_socket hsocket]
  refine ⟨⟨_, haccounts.lines, haccounts.kept⟩, fun hended => ?_, haccounts.written⟩
  obtain ⟨hnone, hwritten⟩ := haccounts.answered hended
  exact ⟨by rw [haccounts.lines, hnone, List.append_nil], hwritten⟩

/-- A `SET` on one connection is cut in two, and between the two parts the other connection asks for
the key. -/
theorem server_serial_example : ∃ past s,
    (serverSystem decimalNumerals (fun _ => 0) ℕ ⟨CacheStore.new none none, none, 20⟩).Run past s ∧
      s.log.map (fun e => (e.peer, e.text, e.reply)) =
        [(1, js "GET a", some (js "NIL\n")), (0, js "SET a 1", some (js "OK\n")),
          (1, js "GET a", some (js "STR 1\n"))] ∧
      (lineSystem decimalNumerals ℕ ⟨CacheStore.new none none, none, 20⟩).Run s.log.reverse
        s.node.alone := by
  have clocks : Stream' Clock := Stream'.const (Stream'.const 0)
  have h₀ := System.Run.start
    (S := serverSystem decimalNumerals (fun _ => 0) ℕ ⟨CacheStore.new none none, none, 20⟩)
  have h₁ := h₀.snoc (.listen _)
  have h₂ := h₁.snoc (l := ServerEvent.connection 0) (.connection _ rfl)
  have h₃ := h₂.snoc (l := ServerEvent.connection 1) (.connection _ rfl)
  have h₄ := h₃.snoc (l := ServerEvent.data 0 _ (js "SET a")) (.data _ rfl rfl clocks _ rfl)
  have h₅ := h₄.snoc (l := ServerEvent.data 1 _ (js "GET a\nGET a")) (.data _ rfl rfl clocks _ rfl)
  have h₆ := h₅.snoc (l := ServerEvent.data 0 _ (js " 1\n")) (.data _ rfl rfl clocks _ rfl)
  have h₇ := h₆.snoc (l := ServerEvent.data 1 _ (js "\n")) (.data _ rfl rfl clocks _ rfl)
  exact ⟨_, _, h₇, rfl, (server_serial h₇).1⟩

end DistributedCache
