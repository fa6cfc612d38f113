import DistributedCache.Client.ClusterClient
import DistributedCache.Replication.Engine
import DistributedCache.Replication.Reorder

/-!
# Clients and nodes agree on who owns a key

A client and the nodes check the same list independently and build a ring each. With the list in one
order, the node the client picks is the only one that takes itself for the primary of the key, and
its peers are the other replicas (`Topology.resolve_primary`, `Topology.lookupReplicaIndices_owner`).
With the list in different orders the indices differ, but the ids do not (`Topology.agreement`).
-/

namespace DistributedCache

namespace ClusterReplicationConfig

/-- The id of the node with the index `i`. -/
def idAt (c : ClusterReplicationConfig) (i : ℕ) : Option JsString :=
  (c.nodes[i]?).map ClusterNode.id

/-- The replicas of a key by id. -/
def replicaIds (c : ClusterReplicationConfig) (key : JsString) : List (Option JsString) :=
  (c.ring.lookupReplicaIndices key c.replicationFactor).map c.idAt

/-- The peers of this node for a key. -/
def peers (c : ClusterReplicationConfig) (key : JsString) : List ℕ :=
  replicaPeerIndices c.ring key c.replicationFactor c.myNodeIndex

/-- Whether this node takes itself for the primary of a key. -/
def isPrimary (c : ClusterReplicationConfig) (key : JsString) : Bool :=
  isPrimaryForKey c.ring key c.myNodeIndex

end ClusterReplicationConfig

/-- A client with consistent routing and no lookup function of its own; its `hashKey` option only
serves the modulo router. -/
def consistentOptions (inputs : List NodeAddressInput) (virtualNodesPerNode : ℕ+)
    (hashKey : JsString → ℕ) : ClusterClientOptions where
  nodes := inputs
  routing := .consistent
  virtualNodesPerNode := virtualNodesPerNode
  hashKey := hashKey
  lookupNodeIndex := none

/-- What a client and the nodes that are given the list `inputs` make of a key, by id: the client
picks `primary`, that node and no other takes itself for the primary, all nodes list the same
replicas in the same order, and the peers of the primary are the other ones. -/
structure Agreement (ringHash : JsString → ℕ) (factor virtualNodesPerNode : ℕ+)
    (inputs : List NodeAddressInput) (key primary : JsString)
    (others : List (Option JsString)) : Prop where
  client : ∀ hashKey, ∃ c i n,
    ClusterClient.new ringHash (consistentOptions inputs virtualNodesPerNode hashKey) = .ok c ∧
      c.resolveNodeIndex key = .ok i ∧ c.nodes[i]? = some n ∧ n.id = primary
  node : ∀ id ∈ inputs.map NodeAddressInput.nodeId, ∃ c,
    buildClusterReplicationConfig ringHash id inputs (.number (.int factor))
        (.number (.int virtualNodesPerNode)) = .ok c ∧
      (c.isPrimary key = true ↔ id = primary) ∧ c.replicaIds key = some primary :: others ∧
      (id = primary → (c.peers key).map c.idAt = others)

namespace Topology

variable (t : Topology) (key : JsString)

/-- A client with any `hashKey` option has the ring of the topology. -/
theorem new_consistent (hashKey : JsString → ℕ) :
    ClusterClient.new t.hashKey (consistentOptions t.inputs t.virtualNodesPerNode hashKey) =
      .ok { t.client with hashFn := hashKey } := by
  have hne : t.nodes.map ClusterNode.normalized ≠ [] := by simpa using t.nodes_ne_nil
  simp only [ClusterClient.new, consistentOptions, t.validate_inputs, dif_pos hne, client, ring,
    t.ringNodes_normalized]

/-- The node that owns a key. -/
theorem exists_owner : ∃ owner ∈ t.nodes, owner.nodeIndex = t.ring.lookup key := by
  have hlt := t.lookup_lt key
  exact ⟨t.nodes[t.ring.lookup key], List.getElem_mem hlt,
    t.nodeIndex_eq (List.getElem?_eq_getElem hlt)⟩

variable {t key}

/-- Only the owner takes itself for the primary. -/
theorem isPrimary_iff {owner n : ClusterNode} (howner : owner ∈ t.nodes)
    (hindex : owner.nodeIndex = t.ring.lookup key) (hn : n ∈ t.nodes) :
    (t.config n).isPrimary key = true ↔ n = owner := by
  show decide (t.ring.lookup key = n.nodeIndex) = true ↔ _
  rw [decide_eq_true_iff]
  constructor
  · intro h
    have hid : t.idAt n.nodeIndex = t.idAt owner.nodeIndex := by rw [hindex, h]
    rw [idAt_nodeIndex hn, idAt_nodeIndex howner] at hid
    exact List.inj_on_of_nodup_map t.nodup_ids hn howner (Option.some.inj hid)
  · rintro rfl
    exact hindex.symm

/-- The replica list of the owner is its own index followed by its peers. -/
theorem lookupReplicaIndices_owner {owner : ClusterNode}
    (hindex : owner.nodeIndex = t.ring.lookup key) :
    t.ring.lookupReplicaIndices key t.factor = owner.nodeIndex :: (t.config owner).peers key := by
  obtain ⟨others, hcons⟩ := t.ring.lookupReplicaIndices_eq_cons key t.factor
  have hnodup := t.ring.nodup_lookupReplicaIndices key t.factor
  have hpeers : (t.config owner).peers key =
      (t.ring.lookupReplicaIndices key t.factor).filter (· ≠ owner.nodeIndex) := rfl
  rw [hcons, ← hindex] at hnodup hpeers ⊢
  rw [List.nodup_cons] at hnodup
  rw [List.filter_cons_of_neg (by simp)] at hpeers
  rw [hpeers]
  congr 1
  refine (List.filter_eq_self.2 fun i hi => ?_).symm
  simpa using fun h : i = owner.nodeIndex => hnodup.1 (h ▸ hi)

/-- The peers of a node are the replicas other than itself. -/
theorem mem_peers_iff {n : ClusterNode} {i : ℕ} : i ∈ (t.config n).peers key ↔
    i ∈ t.ring.lookupReplicaIndices key t.factor ∧ i ≠ n.nodeIndex := by
  show i ∈ (t.ring.lookupReplicaIndices key t.factor).filter (· ≠ n.nodeIndex) ↔ _
  rw [List.mem_filter, decide_eq_true_iff]

/-- Within one order, client and nodes agree by id. -/
theorem agreement_self {owner : ClusterNode} (howner : owner ∈ t.nodes)
    (hindex : owner.nodeIndex = t.ring.lookup key) :
    Agreement t.hashKey t.requestedFactor t.virtualNodesPerNode t.inputs key owner.id
      (((t.config owner).peers key).map t.idAt) where
  client := by
    intro hashKey
    refine ⟨_, t.ring.lookup key, owner.normalized, t.new_consistent hashKey, rfl, ?_, rfl⟩
    have hid := idAt_nodeIndex howner
    obtain ⟨i, hi⟩ := List.mem_iff_getElem?.1 howner
    show (t.nodes.map ClusterNode.normalized)[t.ring.lookup key]? = _
    rw [← hindex, t.nodeIndex_eq hi, List.getElem?_map, hi, Option.map_some]
  node := by
    intro id hid
    rw [← ids_of_accepted t.accepted] at hid
    obtain ⟨n, hn, rfl⟩ := List.mem_map.1 hid
    have hiff : n.id = owner.id ↔ n = owner :=
      ⟨fun h => List.inj_on_of_nodup_map t.nodup_ids hn howner h, fun h => congrArg _ h⟩
    refine ⟨t.config n, t.buildClusterReplicationConfig_eq hn, ?_, ?_, ?_⟩
    · rw [hiff]
      exact isPrimary_iff howner hindex hn
    · show (t.ring.lookupReplicaIndices key t.factor).map t.idAt = _
      rw [lookupReplicaIndices_owner hindex, List.map_cons, idAt_nodeIndex howner]
    · intro h
      rw [hiff.1 h]
      rfl

/-- **In any other order they agree on the same ids.** -/
theorem agreement (hapart : t.LabelsApart) {owner : ClusterNode} (howner : owner ∈ t.nodes)
    (hindex : owner.nodeIndex = t.ring.lookup key) {inputs : List NodeAddressInput}
    (hperm : inputs.Perm t.inputs) :
    Agreement t.hashKey t.requestedFactor t.virtualNodesPerNode inputs key owner.id
      (((t.config owner).peers key).map t.idAt) := by
  -- any order of the list is accepted, and its configuration names the same nodes
  obtain ⟨nodes, accepted⟩ := accepted_perm t.accepted hperm
  obtain ⟨owner', howner', hindex'⟩ := (t.reorder inputs nodes accepted).exists_owner key
  have hself := agreement_self howner' hindex'
  have hreplicas := @replicaIds_eq t _ _ accepted hapart hperm key
  rw [replicaIds, replicaIds, lookupReplicaIndices_owner hindex,
    lookupReplicaIndices_owner hindex', List.map_cons, List.map_cons, idAt_nodeIndex howner,
    idAt_nodeIndex howner'] at hreplicas
  obtain ⟨hid, hpeers⟩ := List.cons.inj hreplicas
  rw [Option.some.inj hid, hpeers] at hself
  exact hself

end Topology

/-- **Client and nodes agree on ownership.** With the list in one order, whatever the hash function:
the node the client picks is the one and only node that takes itself for the primary of the key, and
the peers of the primary are the other replicas, never itself. With the list in different orders, if
no two nodes have labels with one hash: the same holds by id, with one primary and one list of
replicas for every order. -/
theorem ownership_agreed {inputs : List NodeAddressInput} {nodes : List ClusterNode}
    (accepted : normalizeClusterNodes inputs = .ok nodes) (ringHash : JsString → ℕ)
    (factor virtualNodesPerNode : ℕ+) (key : JsString) :
    (∃ owner ∈ nodes,
      (∀ hashKey, ∃ c, ClusterClient.new ringHash
          (consistentOptions inputs virtualNodesPerNode hashKey) = .ok c ∧
        c.resolveNodeIndex key = .ok owner.nodeIndex) ∧
      ∀ n ∈ nodes, ∃ c, buildClusterReplicationConfig ringHash n.id inputs (.number (.int factor))
          (.number (.int virtualNodesPerNode)) = .ok c ∧ c.myNodeIndex = n.nodeIndex ∧
        (c.isPrimary key = true ↔ n = owner) ∧
        (n = owner → c.ring.lookupReplicaIndices key c.replicationFactor =
            c.myNodeIndex :: c.peers key) ∧
        (∀ i, i ∈ c.peers key ↔
          i ∈ c.ring.lookupReplicaIndices key c.replicationFactor ∧ i ≠ c.myNodeIndex)) ∧
    ((∀ n ∈ nodes, ∀ n' ∈ nodes, n.id ≠ n'.id →
        ∀ v < (virtualNodesPerNode : ℕ), ∀ v' < (virtualNodesPerNode : ℕ),
          ringHash (n.id ++ js "#" ++ decimal v) ≠ ringHash (n'.id ++ js "#" ++ decimal v')) →
      ∃ primary others, ∀ inputs', inputs'.Perm inputs →
        Agreement ringHash factor virtualNodesPerNode inputs' key primary others) := by
  let t : Topology := ⟨ringHash, inputs, nodes, accepted, factor, virtualNodesPerNode⟩
  obtain ⟨owner, howner, hindex⟩ := t.exists_owner key
  refine ⟨⟨owner, howner, fun hashKey => ?_, fun n hn => ?_⟩, fun hapart => ?_⟩
  · exact ⟨_, t.new_consistent hashKey, congrArg Except.ok hindex.symm⟩
  · refine ⟨t.config n, t.buildClusterReplicationConfig_eq hn, rfl,
      Topology.isPrimary_iff howner hindex hn, ?_, fun i => Topology.mem_peers_iff⟩
    rintro rfl
    exact Topology.lookupReplicaIndices_owner hindex
  · exact ⟨owner.id, _, fun inputs' hperm => Topology.agreement (t := t) hapart howner hindex hperm⟩

/-- Two nodes, one without an id of its own, listed in either order. -/
theorem ownership_agreed_example :
    ∃ primary others, ∀ inputs' : List NodeAddressInput,
      inputs'.Perm [⟨some (js "a"), js "h", .int 1⟩, ⟨none, js "h", .int 2⟩] →
        Agreement List.length 2 3 inputs' (js "key") primary others :=
  (@ownership_agreed _ [⟨js "a", js "h", 1, 0⟩, ⟨js "h:2", js "h", 2, 1⟩] (by decide)
    List.length 2 3 (js "key")).2 (by decide)

end DistributedCache
