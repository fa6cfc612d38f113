import DistributedCache.Client.Integrity
import DistributedCache.Cluster.System

/-!
# A primary, a replica, and the client between them

`#fanOut` of `replication-engine.js`, for one peer, on top of the engine's `CacheClient`: each
mutation awaits `client.connect()` and then goes to `client.executeRaw`. The client may time out,
abandon a connection and open another; the replica serves each connection in its own order, also one
that the client has abandoned.

* `FanOutCall`, `ReplicaPair`: the state, with the mutations by number, the numbers of the client's
  commands, the numbers of the mutations in the order in which the replica has processed their lines,
  and the mutations of the primary;
* `fanOut`, `settleCalls`, `executeRaw`, `mutate`: the functions on it;
* `PairEvent`, `pairSystem`: a client's mutation at the primary, the continuation of a call of
  `#fanOut`, an event of the `CacheClient`, a line served by the replica.
-/

namespace DistributedCache

/-- A call of `#fanOut` for the replica before `executeRaw`: the number of the mutation, its command
line, and whether the promise of `connect` has been resolved. -/
structure FanOutCall where
  number : ℕ
  commandLine : JsString
  connected : Bool
  deriving DecidableEq, Repr

/-- The two nodes and the client; then, as logs, the mutations scheduled for the replica, oldest
first, the mutation of each command of the client, the mutations that the replica has processed,
newest first, and the mutations of the primary with their numbers, newest first. -/
structure ReplicaPair where
  primary : CacheNode
  replica : CacheNode
  client : CacheClient
  calls : List FanOutCall
  scheduled : List InnerCommand
  submitted : List ℕ
  applied : List ℕ
  history : List (InnerCommand × Option ℕ)

/-- The calls of `#fanOut` after a step of the client: those that await `connect` go on when it has
returned, and fail when it has thrown. -/
def settleCalls (before after : Option Ensure) (calls : List FanOutCall) : List FanOutCall :=
  match before, after with
  | some .returned, none => calls.map fun call => { call with connected := true }
  | some (.threw _), none => calls.filter FanOutCall.connected
  | _, _ => calls

namespace ReplicaPair

/-- The mutation of a command of the client. -/
def number (s : ReplicaPair) (id : ℕ) : ℕ := (s.submitted[id]?).getD 0

/-- `#fanOut` for the replica, up to `await client.connect()`; a closed client rejects. -/
def fanOut (s : ReplicaPair) (m : InnerCommand) (commandLine : JsString) : ReplicaPair :=
  { s with
    client := s.client.connect
    calls :=
      if s.client.closed then s.calls
      else s.calls ++ [⟨s.scheduled.length, commandLine, s.client.isConnected⟩]
    scheduled := s.scheduled ++ [m]
    history := (m, some s.scheduled.length) :: s.history }

/-- The primary has served a mutation; `q` is the position of the replica. -/
def mutate (s : ReplicaPair) (q : ℕ) (m : InnerCommand) (served : Served) : ReplicaPair :=
  match served.sends.find? (·.1 = q) with
  | none => { s with primary := served.node, history := (m, none) :: s.history }
  | some send => { s.fanOut m send.2 with primary := served.node }

/-- `executeRaw`, called by `#fanOut` for `call`; the other calls remain. -/
def executeRaw (s : ReplicaPair) (call : FanOutCall) (calls : List FanOutCall) : ReplicaPair :=
  if trim call.commandLine = [] then { s with calls := calls }
  else
    { s with
      client := s.client.commandLine (trim call.commandLine ++ newline) false
      calls := calls
      submitted := s.submitted ++ [call.number] }

end ReplicaPair

/-- What can happen. -/
inductive PairEvent
  | mutate (clock : Clock) (line : JsString)
  | execute (number : ℕ)
  | client (ev : ClientEvent)
  | serve (sid : ℕ) (clock : Clock)
  | release

/-- The steps, for a primary at position `p` and a replica at position `q`. The client is called by
the engine only, and answered by the replica only. -/
def PairStep (num : Numerals) (t : Topology) (p q : ℕ) (s : ReplicaPair) :
    PairEvent → ReplicaPair → Prop
  | .mutate clock line, s' =>
      ∃ m served, lineMutation num line = some m ∧ t.primary m.key = p ∧
        byteLength (dropCr line) ≤ s.primary.maxLineBytes ∧
        serveLine num s.primary clock line = some served ∧ s' = s.mutate q m served
  | .execute number, s' =>
      ∃ before call after, s.calls = before ++ call :: after ∧ call.number = number ∧
        call.connected = true ∧ s' = s.executeRaw call (before ++ after)
  | .client ev, s' =>
      ev.Internal ∧ ev ≠ .connect ∧ ∃ client, ClientStep num s.client ev client ∧
        s' = { s with
          client := client
          calls := settleCalls s.client.connectCall client.connectCall s.calls }
  | .serve sid clock, s' =>
      ∃ item served reply client,
        (s.client.links sid).requests[(s.client.links sid).answers.length]? = some item ∧
        serveLine num s.replica clock (firstLine item.line) = some served ∧
        served.reply = some (reply ++ newline) ∧
        ClientStep num s.client (.answer sid reply) client ∧
        s' = { s with
          replica := served.node
          client := client
          applied := s.number item.id :: s.applied }
  | .release, s' => s' = { s with primary := s.primary.release }

/-- Both nodes start with empty unlimited stores, and nothing has been scheduled. -/
def ReplicaPair.start (t : Topology) (p q : ℕ) (autoReconnect : Bool) (maxReconnectAttempts : ℕ) :
    ReplicaPair where
  primary := .new (CacheStore.new none none) (t.configAt p)
  replica := .new (CacheStore.new none none) (t.configAt q)
  client := .new autoReconnect maxReconnectAttempts
  calls := []
  scheduled := []
  submitted := []
  applied := []
  history := []

/-- The pair as a transition system. -/
def pairSystem (num : Numerals) (t : Topology) (p q : ℕ) (autoReconnect : Bool)
    (maxReconnectAttempts : ℕ) : System ReplicaPair PairEvent where
  init := .start t p q autoReconnect maxReconnectAttempts
  step := PairStep num t p q

end DistributedCache
