import DistributedCache.Client.Commands
import DistributedCache.Lib.Ledger
import DistributedCache.Lib.System

/-!
# The connection of a client

`packages/client/src/cache-client.js` as a state machine. A function of the source that awaits is cut
at its `await`s: `DrainLoop` says where `#processNext` stands, `Ensure` where a call of
`#ensureConnectedForOperation` stands. What happens between two turns of the event loop is an event:
the calls of the user, the events of sockets and timers, and the continuations of settled promises,
which may run in any order with the rest.

The state also has what the client cannot see: for each socket the lines that reached the peer, the
peer's answers, and the part of them that has not arrived yet (`Link`); and three logs, of the
commands, of the writes, and of how the commands were settled.

* `CacheClient` and the functions of the source on it;
* `ClientEvent`, `ClientStep`, `clientSystem`.

A socket that has been destroyed gives no more data, and one on which a write fails is destroyed. The
callback of a failed write comes before the next command is written.
-/

namespace DistributedCache

/-- An entry of `#queue`; `id` is the number of the command in the order of submission. -/
structure QueueItem where
  id : ℕ
  line : JsString
  throwOnServerErr : Bool
  deriving DecidableEq, Repr

/-- A call of `#ensureConnectedForOperation`: waiting for the promise of `#connectOnce`, about to
handle its rejection, waiting for `delay`, or settled. -/
inductive Ensure
  | attempting (attempt : ℕ)
  | attemptFailed (attempt : ℕ) (err : ClientError)
  | delaying (attempt : ℕ)
  | returned
  | threw (err : ClientError)
  deriving DecidableEq, Repr

/-- `#processNext`: not running, waiting for a connection for the item it has taken, waiting for the
command in flight, about to go on after it, or returned with the `finally` callback to come. -/
inductive DrainLoop
  | idle
  | ensuring (item : QueueItem) (ensure : Ensure)
  | replying
  | settled
  | finished
  deriving DecidableEq, Repr

/-- A socket of the client; `attached` is whether the handlers of `#attachSocketHandlers` are on. -/
structure Socket where
  destroyed : Bool
  writable : Bool
  attached : Bool
  deriving DecidableEq, Repr

/-- A socket that has just been created. -/
def Socket.new : Socket := ⟨false, true, false⟩

/-- The other side of a socket: the requests that reach the peer, its answers, line by line, and the
part of their text that has not arrived yet. -/
structure Link where
  requests : List QueueItem
  answers : List JsString
  incoming : JsString
  deriving DecidableEq, Repr

/-- A link on which nothing has happened. -/
def Link.new : Link := ⟨[], [], []⟩

/-- The state of a `CacheClient`. -/
structure CacheClient where
  autoReconnect : Bool
  maxReconnectAttempts : ℕ
  closed : Bool
  intentionalClose : Bool
  queue : List QueueItem
  inFlight : Option QueueItem
  loop : DrainLoop
  /-- `#connectPromise`, by the call it belongs to -/
  connectCall : Option Ensure
  socket : Option ℕ
  /-- `#connectingPromise`, by the socket it waits for -/
  connectingPromise : Option ℕ
  readBuffer : JsString
  sockets : ℕ → Socket
  links : ℕ → Link
  nextSocket : ℕ
  commands : List QueueItem
  writes : List (ℕ × ℕ)
  outcomes : List (ℕ × Except ClientError Response)

namespace CacheClient

/-- A new client. -/
def new (autoReconnect : Bool) (maxReconnectAttempts : ℕ) : CacheClient where
  autoReconnect := autoReconnect
  maxReconnectAttempts := maxReconnectAttempts
  closed := false
  intentionalClose := false
  queue := []
  inFlight := none
  loop := .idle
  connectCall := none
  socket := none
  connectingPromise := none
  readBuffer := []
  sockets _ := .new
  links _ := .new
  nextSocket := 0
  commands := []
  writes := []
  outcomes := []

/-! ### Sockets -/

/-- `#isConnected`. -/
def isConnected (s : CacheClient) : Bool :=
  match s.socket with
  | none => false
  | some sid => !(s.sockets sid).destroyed && (s.sockets sid).writable

/-- `#destroySocket`. -/
def destroySocket (s : CacheClient) : CacheClient :=
  { s with
    socket := none
    sockets := match s.socket with
      | none => s.sockets
      | some sid =>
          if (s.sockets sid).destroyed then s.sockets
          else Function.update s.sockets sid ⟨true, false, false⟩ }

/-- Change one socket. -/
def setSocket (s : CacheClient) (sid : ℕ) (socket : Socket) : CacheClient :=
  { s with sockets := Function.update s.sockets sid socket }

/-- Change one link. -/
def setLink (s : CacheClient) (sid : ℕ) (link : Link) : CacheClient :=
  { s with links := Function.update s.links sid link }

/-- Node destroys a socket. -/
def markDestroyed (s : CacheClient) (sid : ℕ) : CacheClient :=
  s.setSocket sid { s.sockets sid with destroyed := true }

/-! ### Connecting -/

/-- `#connectOnce`, awaited in the given attempt. -/
def connectOnce (s : CacheClient) (attempt : ℕ) : CacheClient × Ensure :=
  if s.isConnected then (s, .returned)
  else if s.connectingPromise.isSome then (s, .attempting attempt)
  else
    ({ s.destroySocket with
        connectingPromise := some s.nextSocket
        nextSocket := s.nextSocket + 1 }, .attempting attempt)

/-- `#ensureConnectedForOperation`, up to its first `await`. -/
def ensureConnected (s : CacheClient) (forExplicitConnect : Bool) : CacheClient × Ensure :=
  if s.isConnected then (s, .returned)
  else if !forExplicitConnect && !s.autoReconnect then
    (s, .threw ⟨.connectionClosed, js "not connected (autoReconnect disabled)"⟩)
  else if 1 ≤ s.maxReconnectAttempts then s.connectOnce 1
  else (s, .threw ⟨.connectionError, js "connect failed"⟩)

/-- The `catch` branch of its loop. -/
def afterFailure (s : CacheClient) (attempt : ℕ) (err : ClientError) : Ensure :=
  if attempt < s.maxReconnectAttempts then .delaying attempt else .threw err

end CacheClient

/-- The promise of `#connectOnce` resolves. -/
def Ensure.connected : Ensure → Ensure
  | .attempting _ => .returned
  | e => e

/-- The promise of `#connectOnce` is rejected. -/
def Ensure.failed (err : ClientError) : Ensure → Ensure
  | .attempting attempt => .attemptFailed attempt err
  | e => e

/-- Settle the call that the loop waits for. -/
def DrainLoop.mapEnsure (f : Ensure → Ensure) : DrainLoop → DrainLoop
  | .ensuring item e => .ensuring item (f e)
  | l => l

namespace CacheClient

/-- `onConnected`. -/
def onConnected (s : CacheClient) (sid : ℕ) : CacheClient :=
  { s with
    socket := some sid
    connectingPromise := none
    readBuffer := []
    sockets := Function.update s.sockets sid { s.sockets sid with attached := true }
    loop := s.loop.mapEnsure Ensure.connected
    connectCall := s.connectCall.map Ensure.connected }

/-- `onError` and the handler of the connect timeout. -/
def onConnectFailed (s : CacheClient) (sid : ℕ) (err : ClientError) : CacheClient :=
  { s with
    connectingPromise := none
    sockets := Function.update s.sockets sid { s.sockets sid with destroyed := true }
    loop := s.loop.mapEnsure (Ensure.failed err)
    connectCall := s.connectCall.map (Ensure.failed err) }

/-! ### Commands -/

/-- Settle the command in flight and clear the slot; the loop that awaits it can go on. -/
def settle (s : CacheClient) (r : Except ClientError Response) : CacheClient :=
  match s.inFlight with
  | none => s
  | some item =>
      { s with
        inFlight := none
        loop := .settled
        outcomes := (item.id, r) :: s.outcomes }

/-- `#failInFlight`. -/
def failInFlight (s : CacheClient) (err : ClientError) : CacheClient := s.settle (.error err)

/-- `item.reject`. -/
def reject (s : CacheClient) (item : QueueItem) (err : ClientError) : CacheClient :=
  { s with outcomes := (item.id, .error err) :: s.outcomes }

/-- The head of the loop of `#processNext`. -/
def nextItem (s : CacheClient) : CacheClient :=
  match s.queue with
  | [] => { s with loop := .finished }
  | item :: queue =>
      if s.closed then { s with loop := .finished }
      else
        let r := ensureConnected { s with queue := queue } false
        { r.1 with loop := .ensuring item r.2 }

/-- `#drainQueue`; `#draining` is set from the start of the loop until its `finally` callback. -/
def drainQueue (s : CacheClient) : CacheClient :=
  if s.loop ≠ .idle ∨ s.inFlight.isSome ∨ s.queue = [] then s else s.nextItem

/-- `#processNext` after `#ensureConnectedForOperation` has returned. A line written to a socket that
is destroyed or not writable does not reach the peer. -/
def proceed (s : CacheClient) (item : QueueItem) : CacheClient :=
  match s.socket with
  | none => (s.reject item ⟨.connectionClosed, js "not connected"⟩).nextItem
  | some sid =>
      { s with
        inFlight := some item
        loop := .replying
        writes := (item.id, sid) :: s.writes
        links :=
          if (s.sockets sid).destroyed || !(s.sockets sid).writable then s.links
          else Function.update s.links sid
            { s.links sid with requests := (s.links sid).requests ++ [item] } }

/-- `#commandLine`. -/
def commandLine (s : CacheClient) (line : JsString) (throwOnServerErr : Bool) : CacheClient :=
  let item : QueueItem := ⟨s.commands.length, line, throwOnServerErr⟩
  if s.closed then
    { s with commands := s.commands ++ [item] }.reject item ⟨.clientClosed, js "client is closed"⟩
  else { s with commands := s.commands ++ [item], queue := s.queue ++ [item] }.drainQueue

/-- `connect`. -/
def connect (s : CacheClient) : CacheClient :=
  if s.closed || s.isConnected || s.connectCall.isSome then s
  else
    let r := s.ensureConnected true
    { r.1 with connectCall := some r.2 }

/-- `#rejectQueue`. -/
def rejectQueue (s : CacheClient) (err : ClientError) : CacheClient :=
  { s with
    queue := []
    outcomes := (s.queue.map fun item => (item.id, .error err)).reverse ++ s.outcomes }

/-- `close`. -/
def close (s : CacheClient) : CacheClient :=
  let err : ClientError := ⟨.clientClosed, js "client is closed"⟩
  ((({ s with intentionalClose := true, closed := true }).failInFlight err).rejectQueue
    err).destroySocket

/-! ### What arrives -/

/-- `#dispatchResponseLine`. -/
def dispatchResponseLine (num : Numerals) (s : CacheClient) (line : JsString) : CacheClient :=
  match s.inFlight with
  | none => s
  | some item =>
      match dispatchResponse num item.throwOnServerErr line with
      | .error ⟨.protocolError, message⟩ => s.settle (.error ⟨.protocolError, message⟩)
      | r => (s.settle r).drainQueue

/-- The handler of `data`. -/
def onData (num : Numerals) (s : CacheClient) (chunk : JsString) : CacheClient :=
  let r := takeLines (s.readBuffer ++ chunk)
  (r.1.map dropCr).foldl (dispatchResponseLine num) { s with readBuffer := r.2 }

/-- The handlers of `error` and `close`. -/
def onSocketFailure (s : CacheClient) (err : ClientError) : CacheClient :=
  if s.intentionalClose then s else (s.failInFlight err).destroySocket

end CacheClient

/-- What can happen: calls of the user, events of sockets and timers, continuations, and what Node
and the peer do on their own. -/
inductive ClientEvent
  | submit (body : JsString) (throwOnServerErr : Bool)
  | connect
  | close
  | connected
  | connectTimeout
  | connectError (message : JsString)
  | loopDelay
  | connectDelay
  | resumeLoop
  | resumeConnect
  | data (sid : ℕ) (chunk : JsString)
  | commandTimeout
  | writeFails (message : JsString)
  | socketError (sid : ℕ) (message : JsString)
  | socketClose (sid : ℕ)
  | nodeDestroys (sid : ℕ)
  | peerEnds (sid : ℕ)
  | answer (sid : ℕ) (reply : JsString)
  deriving DecidableEq, Repr

/-- The event is neither a new command nor an answer of the peer. -/
def ClientEvent.Internal : ClientEvent → Prop
  | .submit _ _ => False
  | .answer _ _ => False
  | _ => True

/-- The steps. A request is one line, and the peer gives one line in answer to each. -/
inductive ClientStep (num : Numerals) : CacheClient → ClientEvent → CacheClient → Prop
  | submit (s : CacheClient) {body : JsString} (throwOnServerErr : Bool) (h : .char '\n' ∉ body) :
      ClientStep num s (.submit body throwOnServerErr)
        (s.commandLine (body ++ newline) throwOnServerErr)
  | connect (s : CacheClient) : ClientStep num s .connect s.connect
  | close (s : CacheClient) : ClientStep num s .close s.close
  | connected (s : CacheClient) {sid : ℕ} (h : s.connectingPromise = some sid) :
      ClientStep num s .connected (s.onConnected sid)
  | connectTimeout (s : CacheClient) {sid : ℕ} (h : s.connectingPromise = some sid) :
      ClientStep num s .connectTimeout
        (s.onConnectFailed sid ⟨.connectTimeout, js "connect timed out"⟩)
  | connectError (s : CacheClient) {sid : ℕ} (h : s.connectingPromise = some sid)
      (message : JsString) :
      ClientStep num s (.connectError message) (s.onConnectFailed sid ⟨.connectionError, message⟩)
  | loopDelay (s : CacheClient) {item : QueueItem} {attempt : ℕ}
      (h : s.loop = .ensuring item (.delaying attempt)) :
      ClientStep num s .loopDelay
        { (s.connectOnce (attempt + 1)).1 with
          loop := .ensuring item (s.connectOnce (attempt + 1)).2 }
  | connectDelay (s : CacheClient) {attempt : ℕ} (h : s.connectCall = some (.delaying attempt)) :
      ClientStep num s .connectDelay
        { (s.connectOnce (attempt + 1)).1 with
          connectCall := some (s.connectOnce (attempt + 1)).2 }
  | resumeFailed (s : CacheClient) {item : QueueItem} {attempt : ℕ} {err : ClientError}
      (h : s.loop = .ensuring item (.attemptFailed attempt err)) :
      ClientStep num s .resumeLoop { s with loop := .ensuring item (s.afterFailure attempt err) }
  | resumeReturned (s : CacheClient) {item : QueueItem} (h : s.loop = .ensuring item .returned) :
      ClientStep num s .resumeLoop (s.proceed item)
  | resumeThrew (s : CacheClient) {item : QueueItem} {err : ClientError}
      (h : s.loop = .ensuring item (.threw err)) :
      ClientStep num s .resumeLoop (s.reject item err).nextItem
  | resumeSettled (s : CacheClient) (h : s.loop = .settled) :
      ClientStep num s .resumeLoop s.nextItem
  | resumeFinished (s : CacheClient) (h : s.loop = .finished) :
      ClientStep num s .resumeLoop { s with loop := .idle }.drainQueue
  | connectFailed (s : CacheClient) {attempt : ℕ} {err : ClientError}
      (h : s.connectCall = some (.attemptFailed attempt err)) :
      ClientStep num s .resumeConnect { s with connectCall := some (s.afterFailure attempt err) }
  | connectSettled (s : CacheClient) {e : Ensure} (h : s.connectCall = some e)
      (he : e = .returned ∨ ∃ err, e = .threw err) :
      ClientStep num s .resumeConnect { s with connectCall := none }
  | data (s : CacheClient) {sid : ℕ} {chunk rest : JsString}
      (hattached : (s.sockets sid).attached = true) (hopen : (s.sockets sid).destroyed = false)
      (h : (s.links sid).incoming = chunk ++ rest) :
      ClientStep num s (.data sid chunk)
        ((s.setLink sid { s.links sid with incoming := rest }).onData num chunk)
  | commandTimeout (s : CacheClient) (h : s.inFlight.isSome) :
      ClientStep num s .commandTimeout
        (s.failInFlight ⟨.commandTimeout, js "command timed out"⟩).destroySocket
  | writeFails (s : CacheClient) {id sid : ℕ} {writes : List (ℕ × ℕ)} (h : s.inFlight.isSome)
      (hwrite : s.writes = (id, sid) :: writes) (message : JsString) :
      ClientStep num s (.writeFails message)
        ((s.markDestroyed sid).failInFlight ⟨.connectionError, message⟩)
  | socketError (s : CacheClient) {sid : ℕ} (h : (s.sockets sid).attached = true)
      (message : JsString) :
      ClientStep num s (.socketError sid message)
        ((s.markDestroyed sid).onSocketFailure ⟨.connectionError, message⟩)
  | socketClose (s : CacheClient) {sid : ℕ} (h : (s.sockets sid).attached = true) :
      ClientStep num s (.socketClose sid)
        ((s.markDestroyed sid).onSocketFailure ⟨.connectionClosed, js "connection closed"⟩)
  | nodeDestroys (s : CacheClient) {sid : ℕ} (h : (s.sockets sid).attached = true) :
      ClientStep num s (.nodeDestroys sid) (s.markDestroyed sid)
  | peerEnds (s : CacheClient) {sid : ℕ} (h : (s.sockets sid).attached = true) :
      ClientStep num s (.peerEnds sid)
        (s.setSocket sid { s.sockets sid with writable := false })
  | answer (s : CacheClient) {sid : ℕ} {reply : JsString} (hline : .char '\n' ∉ reply)
      (h : (s.links sid).answers.length < (s.links sid).requests.length) :
      ClientStep num s (.answer sid reply)
        (s.setLink sid { s.links sid with
          answers := (s.links sid).answers ++ [reply]
          incoming := (s.links sid).incoming ++ (reply ++ newline) })

/-- The client and its peer as a transition system. -/
def clientSystem (num : Numerals) (autoReconnect : Bool) (maxReconnectAttempts : ℕ) :
    System CacheClient ClientEvent where
  init := .new autoReconnect maxReconnectAttempts
  step := ClientStep num

end DistributedCache
