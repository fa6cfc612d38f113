import DistributedCache.Lib.Result
import DistributedCache.CacheCore.Limits
import DistributedCache.Hashing.Ring

/-!
# Cluster membership

`packages/replication/src/cluster-config.js`: every node is given the same ordered list of
addresses, checks it, and derives its own index, the replication factor and the ring from it.

* `normalizeClusterNodes`, `buildClusterReplicationConfig`;
* `Topology`: an accepted list with a replication factor and a virtual-node count, and the
  configuration each node derives from it (`buildClusterReplicationConfig_eq`).

An error is the message of the `RangeError` thrown.
-/

namespace DistributedCache

/-- `NodeAddressInput`; `id = none` is an absent or `null` id. -/
structure NodeAddressInput where
  id : Option JsString
  host : JsString
  port : JsNumber
  deriving DecidableEq, Repr

/-- `ClusterNode`. -/
structure ClusterNode where
  id : JsString
  host : JsString
  port : ℕ
  nodeIndex : ℕ
  deriving DecidableEq, Repr

/-- The port of an entry if it lies in `1..65535`. -/
def validPort : JsNumber → Option ℕ
  | .int port => if port < 1 ∨ port > 65535 then none else some port.toNat
  | _ => none

/-- `${host}:${port}`. -/
def addressKey (host : JsString) (port : ℕ) : JsString := host ++ js ":" ++ decimal port

/-- The checks of host, port and address that nodes and clients share; `what` is the word that
their messages differ in. -/
def checkAddress (what : JsString) (seenAddr : List JsString) (entry : NodeAddressInput) :
    Except JsString ℕ :=
  if entry.host = [] then .error (js "each " ++ what ++ js " requires a non-empty host")
  else match validPort entry.port with
    | none => .error (js "each " ++ what ++ js " requires port in 1..65535")
    | some port =>
        if addressKey entry.host port ∈ seenAddr then
          .error (js "duplicate " ++ what ++ js " address " ++ addressKey entry.host port)
        else .ok port

/-- The id of an entry: the given one unless it is empty, else its address. -/
def NodeAddressInput.effectiveId (entry : NodeAddressInput) (addrKey : JsString) : JsString :=
  match entry.id with
  | some id => if id = [] then addrKey else id
  | none => addrKey

/-- The loop of `normalizeClusterNodes` from `nodeIndex` on. -/
def normalizeFrom (nodeIndex : ℕ) (seenId seenAddr : List JsString) :
    List NodeAddressInput → Except JsString (List ClusterNode)
  | [] => .ok []
  | entry :: rest =>
      match checkAddress (js "cluster node") seenAddr entry with
      | .error e => .error e
      | .ok port =>
          let addrKey := addressKey entry.host port
          let id := entry.effectiveId addrKey
          if id ∈ seenId then .error (js "duplicate cluster node id " ++ id)
          else (normalizeFrom (nodeIndex + 1) (id :: seenId) (addrKey :: seenAddr) rest).map
            fun others => ⟨id, entry.host, port, nodeIndex⟩ :: others

/-- `normalizeClusterNodes`. -/
def normalizeClusterNodes (nodes : List NodeAddressInput) : Except JsString (List ClusterNode) :=
  if nodes = [] then .error (js "cluster nodes must be a non-empty array")
  else normalizeFrom 0 [] [] nodes

/-- An option that must be a positive integer, with its default. -/
def positiveInteger (name : JsString) (default : ℕ+) : JsValue → Except JsString ℕ+
  | .undefined => .ok default
  | .null => .ok default
  | .number (.int n) =>
      if h : 0 < n.toNat then .ok ⟨n.toNat, h⟩ else .error (name ++ js " must be a positive integer")
  | _ => .error (name ++ js " must be a positive integer")

/-- `ClusterReplicationConfig`. -/
structure ClusterReplicationConfig where
  nodeId : JsString
  myNodeIndex : ℕ
  nodes : List ClusterNode
  replicationFactor : ℕ+
  virtualNodesPerNode : ℕ+
  ring : HashRing

/-- A node as the ring sees it. -/
def ClusterNode.ringNode (n : ClusterNode) : HashRingNode := ⟨n.nodeIndex, n.id⟩

/-- `Math.min(requestedRf, nodes.length)`. -/
def effectiveFactor (requested : ℕ+) (nodes : List ClusterNode) (h : nodes ≠ []) : ℕ+ :=
  ⟨min requested nodes.length, lt_min requested.pos (List.length_pos_of_ne_nil h)⟩

/-- `buildClusterReplicationConfig`; `hashKey` is the default hash function of the ring. -/
def buildClusterReplicationConfig (hashKey : JsString → ℕ) (nodeId : JsString)
    (inputs : List NodeAddressInput) (replicationFactor virtualNodesPerNode : JsValue) :
    Except JsString ClusterReplicationConfig := do
  if nodeId = [] then throw (js "nodeId is required")
  let nodes ← normalizeClusterNodes inputs
  match nodes.find? fun n => n.id = nodeId with
  | none => throw (js "nodeId \"" ++ nodeId ++ js "\" not found in cluster nodes")
  | some myNode =>
      let requestedRf ← positiveInteger (js "replicationFactor") 3 replicationFactor
      let virtualNodes ← positiveInteger (js "virtualNodesPerNode") 128 virtualNodesPerNode
      if h : nodes ≠ [] then
        return {
          nodeId := nodeId
          myNodeIndex := myNode.nodeIndex
          nodes := nodes
          replicationFactor := effectiveFactor requestedRf nodes h
          virtualNodesPerNode := virtualNodes
          ring := .new (nodes.map ClusterNode.ringNode) (by simpa using h) virtualNodes hashKey }
      else throw (js "nodes must be a non-empty array")

/-! ### What an accepted list looks like -/

section Accepted

variable {nodeIndex : ℕ} {seenId seenAddr : List JsString} {inputs : List NodeAddressInput}
  {nodes : List ClusterNode}

theorem checkAddress_eq_ok {what : JsString} {entry : NodeAddressInput} {port : ℕ}
    (h : checkAddress what seenAddr entry = .ok port) :
    entry.host ≠ [] ∧ validPort entry.port = some port ∧
      addressKey entry.host port ∉ seenAddr := by
  unfold checkAddress at h
  split_ifs at h with hhost
  split at h
  · cases h
  · rename_i port' hport
    split_ifs at h with hseen
    cases h
    exact ⟨hhost, hport, hseen⟩

/-- One turn of the loop that was accepted. -/
theorem normalizeFrom_cons {entry : NodeAddressInput}
    (h : normalizeFrom nodeIndex seenId seenAddr (entry :: inputs) = .ok nodes) :
    ∃ port others, checkAddress (js "cluster node") seenAddr entry = .ok port ∧
      entry.effectiveId (addressKey entry.host port) ∉ seenId ∧
      normalizeFrom (nodeIndex + 1) (entry.effectiveId (addressKey entry.host port) :: seenId)
        (addressKey entry.host port :: seenAddr) inputs = .ok others ∧
      nodes = ⟨entry.effectiveId (addressKey entry.host port), entry.host, port, nodeIndex⟩ ::
        others := by
  rw [normalizeFrom] at h
  cases hport : checkAddress (js "cluster node") seenAddr entry with
  | error e => rw [hport] at h; cases h
  | ok port =>
    rw [hport] at h
    simp only at h
    split_ifs at h with hid
    obtain ⟨others, hrest, rfl⟩ := map_eq_ok_iff.1 h
    exact ⟨port, others, rfl, hid, hrest, rfl⟩

theorem effectiveId_ne_nil (entry : NodeAddressInput) (host : JsString) (port : ℕ) :
    entry.effectiveId (addressKey host port) ≠ [] := by
  have haddr : addressKey host port ≠ [] := by simp [addressKey, js]
  unfold NodeAddressInput.effectiveId
  cases entry.id with
  | none => exact haddr
  | some id =>
    simp only
    split_ifs with hid
    · exact haddr
    · exact hid

/-- The entries are numbered in order, and no id is empty or has been seen before. -/
theorem normalizeFrom_spec (h : normalizeFrom nodeIndex seenId seenAddr inputs = .ok nodes) :
    (∀ i n, nodes[i]? = some n → n.nodeIndex = nodeIndex + i) ∧
      (∀ n ∈ nodes, n.id ≠ [] ∧ n.id ∉ seenId) ∧ (nodes.map ClusterNode.id).Nodup ∧
      nodes.length = inputs.length := by
  induction inputs generalizing nodeIndex seenId seenAddr nodes with
  | nil =>
    cases h
    exact ⟨fun i n h => (by cases h), fun n h => (nomatch h), List.nodup_nil, rfl⟩
  | cons entry inputs ih =>
    obtain ⟨port, others, -, hid, hrest, rfl⟩ := normalizeFrom_cons h
    obtain ⟨hindex, hnew, hnodup, hlen⟩ := ih hrest
    refine ⟨fun i n hn => ?_, fun n hn => ?_, ?_, by rw [List.length_cons, List.length_cons, hlen]⟩
    · cases i with
      | zero => cases hn; rfl
      | succ i =>
        have := hindex i n hn
        omega
    · rcases List.mem_cons.1 hn with rfl | hn
      · exact ⟨effectiveId_ne_nil entry entry.host port, hid⟩
      · exact ⟨(hnew n hn).1, fun hseen => (hnew n hn).2 (List.mem_cons_of_mem _ hseen)⟩
    · rw [List.map_cons, List.nodup_cons]
      refine ⟨fun hmem => ?_, hnodup⟩
      obtain ⟨n, hn, heq⟩ := List.mem_map.1 hmem
      exact (hnew n hn).2 (heq ▸ List.mem_cons_self)

theorem normalizeClusterNodes_eq_ok (h : normalizeClusterNodes inputs = .ok nodes) :
    normalizeFrom 0 [] [] inputs = .ok nodes ∧ nodes ≠ [] := by
  unfold normalizeClusterNodes at h
  split_ifs at h with hnil
  refine ⟨h, fun hn => hnil ?_⟩
  have hlen := (normalizeFrom_spec h).2.2.2
  rw [hn] at hlen
  exact List.length_eq_zero_iff.1 hlen.symm

end Accepted

/-! ### Topologies -/

/-- An accepted node list with the options all nodes share. -/
structure Topology where
  hashKey : JsString → ℕ
  inputs : List NodeAddressInput
  nodes : List ClusterNode
  accepted : normalizeClusterNodes inputs = .ok nodes
  requestedFactor : ℕ+
  virtualNodesPerNode : ℕ+

namespace Topology

variable (t : Topology)

theorem nodes_ne_nil : t.nodes ≠ [] := (normalizeClusterNodes_eq_ok t.accepted).2

/-- The ring that every node builds. -/
def ring : HashRing :=
  .new (t.nodes.map ClusterNode.ringNode) (by simpa using t.nodes_ne_nil) t.virtualNodesPerNode
    t.hashKey

/-- The replication factor that every node uses. -/
def factor : ℕ+ := effectiveFactor t.requestedFactor t.nodes t.nodes_ne_nil

/-- The configuration of a node of the list. -/
def config (n : ClusterNode) : ClusterReplicationConfig where
  nodeId := n.id
  myNodeIndex := n.nodeIndex
  nodes := t.nodes
  replicationFactor := t.factor
  virtualNodesPerNode := t.virtualNodesPerNode
  ring := t.ring

theorem nodeIndex_eq {i : ℕ} {n : ClusterNode} (h : t.nodes[i]? = some n) : n.nodeIndex = i := by
  have hspec := normalizeFrom_spec (normalizeClusterNodes_eq_ok t.accepted).1
  have hindex := hspec.1 i n h
  omega

theorem nodup_ids : (t.nodes.map ClusterNode.id).Nodup :=
  (normalizeFrom_spec (normalizeClusterNodes_eq_ok t.accepted).1).2.2.1

theorem id_ne_nil {t : Topology} {n : ClusterNode} (h : n ∈ t.nodes) : n.id ≠ [] :=
  ((normalizeFrom_spec (normalizeClusterNodes_eq_ok t.accepted).1).2.1 n h).1

/-- A ring entry belongs to a node of the list. -/
theorem ring_entry_lt {e : RingEntry} (h : e ∈ t.ring.entries) : e.nodeIndex < t.nodes.length := by
  obtain ⟨node, hnode, v, -, rfl⟩ := mem_buildRingEntries.1 h
  obtain ⟨n, hn, rfl⟩ := List.mem_map.1 hnode
  obtain ⟨i, hi⟩ := List.mem_iff_getElem?.1 hn
  have hlt := (List.getElem?_eq_some_iff.1 hi).1
  show n.nodeIndex < _
  rw [t.nodeIndex_eq hi]
  exact hlt

/-- The owner of a key is a node of the list. -/
theorem lookup_lt (key : JsString) : t.ring.lookup key < t.nodes.length :=
  t.ring_entry_lt (List.get_mem _ _)

/-- The replicas of a key are nodes of the list. -/
theorem replica_lt {key : JsString} {q : ℕ} (h : q ∈ t.ring.lookupReplicaIndices key t.factor) :
    q < t.nodes.length := by
  obtain ⟨e, he, rfl⟩ := t.ring.exists_of_mem_lookupReplicaIndices key t.factor h
  exact t.ring_entry_lt he

/-- **Every node of the list builds the common configuration**, whatever its id. -/
theorem buildClusterReplicationConfig_eq {n : ClusterNode} (h : n ∈ t.nodes) :
    buildClusterReplicationConfig t.hashKey n.id t.inputs (.number (.int t.requestedFactor))
      (.number (.int t.virtualNodesPerNode)) = .ok (t.config n) := by
  have hid := id_ne_nil h
  have hfind : t.nodes.find? (fun m => m.id = n.id) = some n := by
    cases hf : t.nodes.find? fun m => m.id = n.id with
    | none => exact absurd (List.find?_eq_none.1 hf n h) (by simp)
    | some m =>
      have hm : m.id = n.id := by simpa using List.find?_some hf
      rw [List.inj_on_of_nodup_map t.nodup_ids (List.mem_of_find?_eq_some hf) h hm]
  have hpos (k : ℕ+) (name : JsString) (d : ℕ+) :
      positiveInteger name d (.number (.int (k : ℕ))) = .ok k := by
    rw [positiveInteger, dif_pos (by simp)]
    rfl
  unfold buildClusterReplicationConfig
  simp only [if_neg hid, t.accepted, hpos, bind, Except.bind, pure, Except.pure, hfind]
  rw [dif_pos t.nodes_ne_nil]
  rfl

end Topology

/-- Two nodes that both hold every key, and the first of them is its primary. -/
def twoNodes : Topology where
  hashKey _ := 0
  inputs := [⟨none, js "a", .int 7000⟩, ⟨none, js "b", .int 7000⟩]
  nodes := [⟨js "a:7000", js "a", 7000, 0⟩, ⟨js "b:7000", js "b", 7000, 1⟩]
  accepted := by decide
  requestedFactor := 2
  virtualNodesPerNode := 1

end DistributedCache
