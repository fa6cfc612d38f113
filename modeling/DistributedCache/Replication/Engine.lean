import DistributedCache.Lib.OrderedMap
import DistributedCache.Protocol.Codec
import DistributedCache.Replication.ClusterConfig

/-!
# The replication engine

`packages/replication/src/replica-targets.js`, `replication-stats.js` and the scheduling half of
`replication-engine.js`. Scheduling a mutation gives the engine after it and the command lines handed
to the clients of its peers; what those clients do with them is modelled elsewhere.

* `replicaPeerIndices`, `isPrimaryForKey`;
* `ReplicationStats`, `ReplicationEngine`;
* `schedule`, `replicateSet`, `replicateDel`, `settle`, which runs when the client of one peer has
  answered or failed, and `release`, which runs when all peers of a mutation have settled;
* `schedule_cases`, `settle_cases`: all that they can do.
-/

namespace DistributedCache

/-- `replicaPeerIndices`. -/
def replicaPeerIndices (ring : HashRing) (key : JsString) (replicationFactor : ℕ+)
    (myNodeIndex : ℕ) : List ℕ :=
  (ring.lookupReplicaIndices key replicationFactor).filter (· ≠ myNodeIndex)

/-- `isPrimaryForKey`. -/
def isPrimaryForKey (ring : HashRing) (key : JsString) (myNodeIndex : ℕ) : Bool :=
  decide (ring.lookup key = myNodeIndex)

/-- The counters of one peer. -/
structure PeerStats where
  attempted : ℕ
  succeeded : ℕ
  failed : ℕ
  lastError : Option JsString
  deriving DecidableEq, Repr

/-- `ReplicationStats`. -/
structure ReplicationStats where
  peers : OrderedMap JsString PeerStats
  dropped : ℕ

namespace ReplicationStats

/-- New counters. -/
def new : ReplicationStats := ⟨.empty, 0⟩

/-- The counters of a peer, all zero at first. -/
def peer (st : ReplicationStats) (peerId : JsString) : PeerStats :=
  (st.peers.get? peerId).getD ⟨0, 0, 0, none⟩

/-- `recordAttempt`. -/
def recordAttempt (st : ReplicationStats) (peerId : JsString) : ReplicationStats :=
  let peer := st.peer peerId
  { st with peers := st.peers.set peerId { peer with attempted := peer.attempted + 1 } }

/-- `recordSuccess`. -/
def recordSuccess (st : ReplicationStats) (peerId : JsString) : ReplicationStats :=
  let peer := st.peer peerId
  { st with peers := st.peers.set peerId { peer with succeeded := peer.succeeded + 1 } }

/-- `recordFailure`. -/
def recordFailure (st : ReplicationStats) (peerId message : JsString) : ReplicationStats :=
  let peer := st.peer peerId
  { st with
    peers := st.peers.set peerId
      { peer with failed := peer.failed + 1, lastError := some message } }

/-- `recordDropped`. -/
def recordDropped (st : ReplicationStats) : ReplicationStats := { st with dropped := st.dropped + 1 }

end ReplicationStats

/-- The test of `#fanOut` on the line that `executeRaw` has returned: the message of the error it
throws, or `none` for a success. -/
def replyFailure (line : JsString) : Option JsString :=
  if line ≠ js "OK" ∧ ¬ (js "INT ").isPrefixOf line then
    some (if (js "ERR ").isPrefixOf line then line else js "unexpected " ++ line)
  else none

/-- `DEFAULT_MAX_PENDING`. -/
def DEFAULT_MAX_PENDING : ℕ := 1024

/-- The state of a `ReplicationEngine`. -/
structure ReplicationEngine where
  config : ClusterReplicationConfig
  maxPending : ℕ
  stats : ReplicationStats
  pending : ℕ
  closed : Bool

namespace ReplicationEngine

/-- A new engine with the default bound on pending mutations. -/
def new (config : ClusterReplicationConfig) : ReplicationEngine where
  config := config
  maxPending := DEFAULT_MAX_PENDING
  stats := .new
  pending := 0
  closed := false

/-- The peers of a key. -/
def peers (e : ReplicationEngine) (key : JsString) : List ℕ :=
  replicaPeerIndices e.config.ring key e.config.replicationFactor e.config.myNodeIndex

/-- The id of a peer, for the counters. -/
def peerId (e : ReplicationEngine) (index : ℕ) : JsString :=
  ((e.config.nodes[index]?).map ClusterNode.id).getD []

/-- `#schedule`, with the part of `#fanOut` that runs at once: the engine, and for each peer the
command line its client is given. -/
def schedule (e : ReplicationEngine) (wireLine key : JsString) :
    ReplicationEngine × List (ℕ × JsString) :=
  if e.closed then (e, [])
  else if e.pending ≥ e.maxPending then ({ e with stats := e.stats.recordDropped }, [])
  else if e.peers key = [] then (e, [])
  else
    ({ e with
        pending := e.pending + 1
        stats := (e.peers key).foldl (fun st index => st.recordAttempt (e.peerId index)) e.stats },
      (e.peers key).map fun index => (index, trimEnd wireLine))

/-- `replicateSet`. -/
def replicateSet (num : Numerals) (e : ReplicationEngine) (cmd : SetCommand) :
    ReplicationEngine × List (ℕ × JsString) :=
  e.schedule (formatReplCommand num (.set cmd)) cmd.key

/-- `replicateDel`. -/
def replicateDel (num : Numerals) (e : ReplicationEngine) (key : JsString) :
    ReplicationEngine × List (ℕ × JsString) :=
  e.schedule (formatReplCommand num (.del key)) key

/-- The rest of `#fanOut` for one peer; `result` is the line that `executeRaw` returns, or the
message of the error that the client throws. -/
def settle (e : ReplicationEngine) (index : ℕ) : Except JsString JsString → ReplicationEngine
  | .error message => { e with stats := e.stats.recordFailure (e.peerId index) message }
  | .ok line =>
      match replyFailure line with
      | none => { e with stats := e.stats.recordSuccess (e.peerId index) }
      | some message => { e with stats := e.stats.recordFailure (e.peerId index) message }

/-- `this.#pending -= 1`, once all peers of a mutation have settled. -/
def release (e : ReplicationEngine) : ReplicationEngine := { e with pending := e.pending - 1 }

/-- `close`, as far as scheduling depends on it. -/
def close (e : ReplicationEngine) : ReplicationEngine := { e with closed := true }

/-- The peers of a key are its replicas other than this node. -/
theorem mem_peers {e : ReplicationEngine} {key : JsString} {index : ℕ} :
    index ∈ e.peers key ↔
      index ∈ e.config.ring.lookupReplicaIndices key e.config.replicationFactor ∧
        index ≠ e.config.myNodeIndex := by
  rw [peers, replicaPeerIndices, List.mem_filter, decide_eq_true_iff]

theorem nodup_peers (e : ReplicationEngine) (key : JsString) : (e.peers key).Nodup :=
  (HashRing.nodup_lookupReplicaIndices _ _ _).filter _

/-- The engine once it has accepted a mutation. -/
def accept (e : ReplicationEngine) (key : JsString) : ReplicationEngine :=
  { e with
    pending := e.pending + 1
    stats := (e.peers key).foldl (fun st index => st.recordAttempt (e.peerId index)) e.stats }

/-- A mutation is ignored, dropped or sent to every peer of its key. -/
theorem schedule_cases (e : ReplicationEngine) (wireLine key : JsString) :
    (e.schedule wireLine key = (e, []) ∧
      (e.closed = true ∨ e.pending < e.maxPending ∧ e.peers key = [])) ∨
    (e.schedule wireLine key = ({ e with stats := e.stats.recordDropped }, []) ∧
      e.closed = false ∧ e.maxPending ≤ e.pending) ∨
    (e.schedule wireLine key =
        (e.accept key, (e.peers key).map fun index => (index, trimEnd wireLine)) ∧
      e.closed = false ∧ e.pending < e.maxPending ∧ e.peers key ≠ []) := by
  unfold schedule
  split_ifs with hclosed hfull hpeers
  · exact Or.inl ⟨rfl, Or.inl hclosed⟩
  · exact Or.inr (Or.inl ⟨rfl, Bool.eq_false_iff.2 hclosed, hfull⟩)
  · exact Or.inl ⟨rfl, Or.inr ⟨not_le.1 hfull, hpeers⟩⟩
  · exact Or.inr (Or.inr ⟨rfl, Bool.eq_false_iff.2 hclosed, not_le.1 hfull, hpeers⟩)

/-- A peer's client has answered as it should, or has failed. -/
theorem settle_cases (e : ReplicationEngine) (index : ℕ) (result : Except JsString JsString) :
    e.settle index result = { e with stats := e.stats.recordSuccess (e.peerId index) } ∨
      ∃ message, e.settle index result =
        { e with stats := e.stats.recordFailure (e.peerId index) message } := by
  cases result with
  | error message => exact Or.inr ⟨message, rfl⟩
  | ok line =>
    rw [settle]
    cases replyFailure line with
    | none => exact Or.inl rfl
    | some message => exact Or.inr ⟨message, rfl⟩

/-- Scheduling changes neither the configuration nor whether the engine is closed. -/
theorem schedule_config (e : ReplicationEngine) (wireLine key : JsString) :
    (e.schedule wireLine key).1.config = e.config ∧
      (e.schedule wireLine key).1.closed = e.closed ∧
      (e.schedule wireLine key).1.maxPending = e.maxPending := by
  unfold schedule
  split_ifs <;> exact ⟨rfl, rfl, rfl⟩

/-- Whatever is sent is the line, to a peer of the key. -/
theorem mem_schedule (e : ReplicationEngine) {wireLine key : JsString} {send : ℕ × JsString}
    (h : send ∈ (e.schedule wireLine key).2) : send.1 ∈ e.peers key ∧ send.2 = trimEnd wireLine := by
  unfold schedule at h
  split_ifs at h
  · cases h
  · cases h
  · cases h
  · obtain ⟨index, hindex, rfl⟩ := List.mem_map.1 h
    exact ⟨hindex, rfl⟩

/-- An open engine with room sends the line to every peer of the key. -/
theorem schedule_sends {e : ReplicationEngine} (hopen : e.closed = false)
    (hroom : e.pending < e.maxPending) (wireLine key : JsString) :
    (e.schedule wireLine key).2 = (e.peers key).map fun index => (index, trimEnd wireLine) := by
  unfold schedule
  rw [if_neg (by rw [hopen]; exact Bool.false_ne_true), if_neg (not_le.2 hroom)]
  split_ifs with hpeers
  · rw [hpeers, List.map_nil]
  · rfl

end ReplicationEngine

end DistributedCache
