import DistributedCache.CacheCore.Store
import DistributedCache.Replication.Engine

/-!
# A cache node

`apps/cache-node/src/command-handler.js` and the handling of one request line in `server.js`.

* `storeSet`, `storeDelete`, `executeCommand`, `executeReplCommand`: a parsed command on a store;
* `CacheNode`, `dispatchCommand`: the node's own command and what it hands to its engine;
* `serveLine`: one line as the `data` handler treats it, from the length check to the reply.

As for the store, `none` is a call that never returns.
-/

namespace DistributedCache

/-- What executing a command leaves: the response line, the store, the clock. -/
abbrev Executed := Option (JsString × CacheStore × Clock)

/-- `try { … } catch`: the result of a store call turned into a response line. A `CacheError` and a
`ProtocolError` of the encoder are answered by their message. -/
def respond {α : Type} (o : Outcome α) (encode : α → Except JsString JsString) : Executed :=
  match o with
  | none => none
  | some (.error e, s, c) => some (encodeErr e.message, s, c)
  | some (.ok a, s, c) =>
      match encode a with
      | .ok line => some (line, s, c)
      | .error message => some (encodeErr message, s, c)

/-- The options argument `{ ex }` or `{}`. -/
def setOptions (ex : Option ℤ) : JsValue :=
  match ex with
  | some n => .object (.number (.int n)) .undefined
  | none => .object .undefined .undefined

/-- The `SET` branch of both `execute…` functions. -/
def storeSet (s : CacheStore) (c : Clock) (cmd : SetCommand) : Executed :=
  respond (s.set c (.string cmd.key) (.string cmd.value) (setOptions cmd.ex)) fun _ => .ok encodeOk

/-- The `DEL` and `DELETE` branch of both `execute…` functions. -/
def storeDelete (num : Numerals) (s : CacheStore) (c : Clock) (key : JsString) : Executed :=
  respond (s.delete c (.string key)) fun removed =>
    encodeInt num (.int (if removed then 1 else 0))

/-- The branch of `executeCommand` for a command that takes just a key. -/
def executeKeyed (num : Numerals) (s : CacheStore) (c : Clock) (name : KeyedName) (key : JsString) :
    Executed :=
  match name with
  | .get => respond (s.get c (.string key)) fun value => match value with
      | none => .ok encodeNil
      | some v => encodeStr v
  | .del | .delete => storeDelete num s c key
  | .existsKey =>
      respond (s.existsKey c (.string key)) fun found =>
        encodeInt num (.int (if found then 1 else 0))
  | .ttl => respond (s.ttl c (.string key)) (encodeInt num)

/-- `executeCommand`. -/
def executeCommand (num : Numerals) (s : CacheStore) (c : Clock) : Command → Executed
  | .ping => some (encodePong, s, c)
  | .set cmd => storeSet s c cmd
  | .keyed name key => executeKeyed num s c name key
  | .repl _ => some (encodeErr (js "unknown command"), s, c)

/-- `executeReplCommand`. -/
def executeReplCommand (num : Numerals) (s : CacheStore) (c : Clock) : InnerCommand → Executed
  | .set cmd => storeSet s c cmd
  | .del key | .delete key => storeDelete num s c key

/-- A cache node: its store, its engine if replication is configured, and the line limit. -/
structure CacheNode where
  store : CacheStore
  replication : Option ReplicationEngine
  maxLineBytes : ℕ

/-- `maxLineBytes` by default. -/
def DEFAULT_MAX_LINE_BYTES : ℕ := 1048576 + 512

/-- A node that has just started with the default line limit. -/
def CacheNode.new (store : CacheStore) (config : ClusterReplicationConfig) : CacheNode where
  store := store
  replication := some (.new config)
  maxLineBytes := DEFAULT_MAX_LINE_BYTES

/-- What serving a line leaves: the response, if one is written, the node, the command lines given
to the clients of its peers, and the clock. -/
structure Served where
  reply : Option JsString
  node : CacheNode
  sends : List (ℕ × JsString)
  clock : Clock

/-- The mutation that `dispatchCommand` hands to the engine after the node's own execution; `DELETE`
is replicated as `DEL`. -/
def Command.mutation : Command → Option InnerCommand
  | .set cmd => some (.set cmd)
  | .keyed .del key => some (.del key)
  | .keyed .delete key => some (.del key)
  | _ => none

/-- The key of a mutation. -/
def InnerCommand.key : InnerCommand → JsString
  | .set cmd => cmd.key
  | .del key | .delete key => key

/-- `engine.replicateSet` or `engine.replicateDel`. -/
def ReplicationEngine.replicate (num : Numerals) (e : ReplicationEngine) :
    InnerCommand → ReplicationEngine × List (ℕ × JsString)
  | .set cmd => e.replicateSet num cmd
  | .del key | .delete key => e.replicateDel num key

/-- What replicating a mutation sends is its line, to peers of its key. -/
theorem ReplicationEngine.mem_replicate {num : Numerals} {e : ReplicationEngine} {m : InnerCommand}
    {send : ℕ × JsString} (h : send ∈ (e.replicate num m).2) :
    send.1 ∈ e.peers m.key ∧ send.2 = trimEnd (formatReplCommand num m) := by
  cases m with
  | set cmd => exact e.mem_schedule h
  | del key => exact e.mem_schedule h
  | delete key => exact e.mem_schedule h

theorem replicate_config {num : Numerals} (e : ReplicationEngine) (m : InnerCommand) :
    (e.replicate num m).1.config = e.config ∧ (e.replicate num m).1.closed = e.closed := by
  cases m with
  | set cmd => exact ⟨(e.schedule_config _ _).1, (e.schedule_config _ _).2.1⟩
  | del key => exact ⟨(e.schedule_config _ _).1, (e.schedule_config _ _).2.1⟩
  | delete key => exact ⟨(e.schedule_config _ _).1, (e.schedule_config _ _).2.1⟩

/-- The fan-out part of `dispatchCommand`: a mutation of a key this node is primary for. -/
def CacheNode.fanOut (num : Numerals) (node : CacheNode) (command : Command) :
    CacheNode × List (ℕ × JsString) :=
  match node.replication, command.mutation with
  | some engine, some inner =>
      if isPrimaryForKey engine.config.ring inner.key engine.config.myNodeIndex then
        let sent := engine.replicate num inner
        ({ node with replication := some sent.1 }, sent.2)
      else (node, [])
  | _, _ => (node, [])

/-- `dispatchCommand`. -/
def dispatchCommand (num : Numerals) (node : CacheNode) (c : Clock) (command : Command) :
    Option Served :=
  match command with
  | .repl inner =>
      (executeReplCommand num node.store c inner).map fun r =>
        ⟨some r.1, { node with store := r.2.1 }, [], r.2.2⟩
  | command =>
      (executeCommand num node.store c command).map fun r =>
        let sent := CacheNode.fanOut num { node with store := r.2.1 } command
        ⟨some r.1, sent.1, sent.2, r.2.2⟩

/-- One line of a request, as the `data` handler serves it. -/
def serveLine (num : Numerals) (node : CacheNode) (c : Clock) (text : JsString) : Option Served :=
  let line := dropCr text
  if byteLength line > node.maxLineBytes then
    some ⟨some (encodeErr (js "line too long")), node, [], c⟩
  else if trim line = [] then some ⟨none, node, [], c⟩
  else match parseCommand num line with
    | .error message => some ⟨some (encodeErr message), node, [], c⟩
    | .ok command => dispatchCommand num node c command

end DistributedCache
