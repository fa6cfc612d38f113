import DistributedCache.Client.Commands
import DistributedCache.Replication.ClusterConfig

/-!
# The cluster client

`packages/client/src/cluster-client.js`: the client checks a node list of its own, builds a ring
from it and sends every command to the node that the ring, the modulo router or a given function
names for the key.

* `validateAndNormalizeNodes`, `ClusterClient`, `resolveNodeIndex`, `wrapBackendError`;
* `Topology.client`: the client that is given the list of a topology, which routes by the ring of
  the nodes (`new_client`).
-/

namespace DistributedCache

/-- `NormalizedNode`. -/
structure NormalizedNode where
  id : JsString
  host : JsString
  port : ℕ
  deriving DecidableEq, Repr

/-- The loop of `validateAndNormalizeNodes`. -/
def validateFrom (seen : List JsString) :
    List NodeAddressInput → Except ClientError (List NormalizedNode)
  | [] => .ok []
  | entry :: rest =>
      match checkAddress (js "node") seen entry with
      | .error message => .error ⟨.invalidOptions, message⟩
      | .ok port =>
          let addrKey := addressKey entry.host port
          (validateFrom (addrKey :: seen) rest).map fun others =>
            ⟨entry.effectiveId addrKey, entry.host, port⟩ :: others

/-- `validateAndNormalizeNodes`. -/
def validateAndNormalizeNodes (nodes : List NodeAddressInput) :
    Except ClientError (List NormalizedNode) :=
  if nodes = [] then .error ⟨.invalidOptions, js "nodes must be a non-empty array"⟩
  else validateFrom [] nodes

/-- The `routing` option. -/
inductive Routing
  | consistent
  | modulo
  deriving DecidableEq, Repr

/-- The options of a `ClusterClient` that decide where a command goes; `hashKey` is the option of
that name, or the default hash function. -/
structure ClusterClientOptions where
  nodes : List NodeAddressInput
  routing : Routing
  virtualNodesPerNode : ℕ+
  hashKey : JsString → ℕ
  lookupNodeIndex : Option (JsString → JsNumber)

/-- A `ClusterClient`. -/
structure ClusterClient where
  nodes : List NormalizedNode
  routing : Routing
  hashFn : JsString → ℕ
  lookupNodeIndex : Option (JsString → JsNumber)
  ring : HashRing

namespace ClusterClient

/-- The nodes as the ring sees them. -/
def ringNodes (nodes : List NormalizedNode) : List HashRingNode :=
  nodes.mapIdx fun nodeIndex n => ⟨nodeIndex, n.id⟩

theorem ringNodes_ne_nil {nodes : List NormalizedNode} (h : nodes ≠ []) : ringNodes nodes ≠ [] :=
  fun hnil => h (List.mapIdx_eq_nil_iff.1 hnil)

/-- The constructor; `defaultHash` is the hash function of a ring that is given none. -/
def new (defaultHash : JsString → ℕ) (options : ClusterClientOptions) :
    Except ClientError ClusterClient :=
  match validateAndNormalizeNodes options.nodes with
  | .error e => .error e
  | .ok nodes =>
      if h : nodes ≠ [] then
        .ok {
          nodes := nodes
          routing := options.routing
          hashFn := options.hashKey
          lookupNodeIndex := options.lookupNodeIndex
          ring := .new (ringNodes nodes) (ringNodes_ne_nil h) options.virtualNodesPerNode defaultHash }
      else .error ⟨.invalidOptions, js "nodes must be a non-empty array"⟩

/-- `#resolveNodeIndex`. -/
def resolveNodeIndex (c : ClusterClient) (key : JsString) : Except ClientError ℕ :=
  match c.lookupNodeIndex with
  | some lookup =>
      match lookup key with
      | .int index =>
          if index < 0 ∨ index ≥ c.nodes.length then
            .error ⟨.invalidOptions, js "lookupNodeIndex returned out-of-range index"⟩
          else .ok index.toNat
      | _ => .error ⟨.invalidOptions, js "lookupNodeIndex returned out-of-range index"⟩
  | none =>
      match c.routing with
      | .modulo => .ok (c.hashFn key % c.nodes.length)
      | .consistent => .ok (c.ring.lookup key)

/-- `#wrapBackendError` on a `ClientError`. -/
def wrapBackendError (node : NormalizedNode) (err : ClientError) : ClientError :=
  match err.code with
  | .connectTimeout | .connectionError | .connectionClosed | .commandTimeout =>
      ⟨.nodeUnavailable, js "node " ++ node.id ++ js " unavailable: " ++ err.message⟩
  | _ => err

end ClusterClient

/-- `#withClient`: the errors of a command are reported with the node they come from. -/
def ClusterClient.settle (c : ClusterClient) (nodeIndex : ℕ) (r : Except ClientError Reply) :
    Except ClientError Reply :=
  match c.nodes[nodeIndex]? with
  | some node => r.mapError (wrapBackendError node)
  | none => r

/-! ### Client and nodes with one list -/

/-- What the client keeps of a node. -/
def ClusterNode.normalized (n : ClusterNode) : NormalizedNode := ⟨n.id, n.host, n.port⟩

/-- Only the message of `checkAddress` depends on who asks. -/
theorem checkAddress_congr {what : JsString} (what' : JsString) {seen : List JsString}
    {entry : NodeAddressInput} {port : ℕ} (h : checkAddress what seen entry = .ok port) :
    checkAddress what' seen entry = .ok port := by
  obtain ⟨hhost, hport, hseen⟩ := checkAddress_eq_ok h
  simp only [checkAddress, if_neg hhost, hport, if_neg hseen]

/-- What the nodes accept the client accepts, with the same ids, hosts and ports. -/
theorem validateFrom_of_normalizeFrom {nodeIndex : ℕ} {seenId seenAddr : List JsString}
    {inputs : List NodeAddressInput} {nodes : List ClusterNode}
    (h : normalizeFrom nodeIndex seenId seenAddr inputs = .ok nodes) :
    validateFrom seenAddr inputs = .ok (nodes.map ClusterNode.normalized) := by
  induction inputs generalizing nodeIndex seenId seenAddr nodes with
  | nil =>
    cases h
    rfl
  | cons entry inputs ih =>
    obtain ⟨port, others, hport, -, hrest, rfl⟩ := normalizeFrom_cons h
    simp only [validateFrom, checkAddress_congr (js "node") hport, ih hrest, Except.map]
    rfl

namespace Topology

variable (t : Topology)

theorem inputs_ne_nil : t.inputs ≠ [] := by
  intro h
  have haccepted := t.accepted
  rw [normalizeClusterNodes, if_pos h] at haccepted
  cases haccepted

theorem validate_inputs :
    validateAndNormalizeNodes t.inputs = .ok (t.nodes.map ClusterNode.normalized) := by
  rw [validateAndNormalizeNodes, if_neg t.inputs_ne_nil]
  exact validateFrom_of_normalizeFrom (normalizeClusterNodes_eq_ok t.accepted).1

/-- The client numbers the nodes as they number themselves. -/
theorem ringNodes_normalized : ClusterClient.ringNodes (t.nodes.map ClusterNode.normalized) =
    t.nodes.map ClusterNode.ringNode := by
  apply List.ext_getElem?
  intro i
  unfold ClusterClient.ringNodes
  rw [List.getElem?_mapIdx, List.getElem?_map, List.getElem?_map]
  cases hi : t.nodes[i]? with
  | none => rfl
  | some n =>
    simp only [Option.map_some, ClusterNode.ringNode, ClusterNode.normalized, t.nodeIndex_eq hi]

/-- The options of a client that shares the list and the ring parameters of the nodes. -/
def clientOptions : ClusterClientOptions where
  nodes := t.inputs
  routing := .consistent
  virtualNodesPerNode := t.virtualNodesPerNode
  hashKey := t.hashKey
  lookupNodeIndex := none

/-- That client. -/
def client : ClusterClient where
  nodes := t.nodes.map ClusterNode.normalized
  routing := .consistent
  hashFn := t.hashKey
  lookupNodeIndex := none
  ring := t.ring

/-- The constructor accepts the list and gives that client. -/
theorem new_client : ClusterClient.new t.hashKey t.clientOptions = .ok t.client := by
  have hne : t.nodes.map ClusterNode.normalized ≠ [] := by simpa using t.nodes_ne_nil
  simp only [ClusterClient.new, clientOptions, t.validate_inputs, dif_pos hne, client, ring,
    t.ringNodes_normalized]

end Topology

end DistributedCache
