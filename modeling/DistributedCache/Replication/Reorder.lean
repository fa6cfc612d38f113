import DistributedCache.Hashing.Search
import DistributedCache.Replication.ClusterConfig

/-!
# Node lists in another order

A node list stays acceptable in any order (`accepted_perm`). The index of a node is its position, so
rings of differently ordered lists carry different indices; identified by id they are the same ring
as long as no two nodes share a hash (`Topology.labelled_eq`), and a key then has the same replicas
in the same order (`Topology.replicaIds_eq`).
-/

namespace DistributedCache

/-! ### Acceptable lists -/

namespace NodeAddressInput

/-- The address of an entry. -/
def address (entry : NodeAddressInput) : JsString :=
  addressKey entry.host ((validPort entry.port).getD 0)

/-- The id an accepted entry gets. -/
def nodeId (entry : NodeAddressInput) : JsString := entry.effectiveId entry.address

/-- Host and port pass their checks. -/
def Valid (entry : NodeAddressInput) : Prop := entry.host ≠ [] ∧ ∃ port, validPort entry.port = some port

end NodeAddressInput

section Acceptable

variable {nodeIndex : ℕ} {seenId seenAddr : List JsString} {inputs inputs' : List NodeAddressInput}
  {nodes : List ClusterNode}

theorem checkAddress_of_valid {what : JsString} {entry : NodeAddressInput} (h : entry.Valid)
    (hnew : entry.address ∉ seenAddr) :
    ∃ port, checkAddress what seenAddr entry = .ok port ∧
      entry.address = addressKey entry.host port := by
  obtain ⟨hhost, port, hport⟩ := h
  have haddress : entry.address = addressKey entry.host port := by
    rw [NodeAddressInput.address, hport, Option.getD_some]
  refine ⟨port, ?_, haddress⟩
  rw [haddress] at hnew
  simp only [checkAddress, if_neg hhost, hport, if_neg hnew]

/-- What the loop has accepted: valid entries whose addresses and ids are new and distinct. -/
theorem normalizeFrom_inputs (h : normalizeFrom nodeIndex seenId seenAddr inputs = .ok nodes) :
    (∀ entry ∈ inputs, entry.Valid) ∧
      (inputs.map NodeAddressInput.address).Nodup ∧
      (∀ entry ∈ inputs, entry.address ∉ seenAddr) ∧
      nodes.map ClusterNode.id = inputs.map NodeAddressInput.nodeId := by
  induction inputs generalizing nodeIndex seenId seenAddr nodes with
  | nil =>
    cases h
    exact ⟨fun _ h => (nomatch h), List.nodup_nil, fun _ h => (nomatch h), rfl⟩
  | cons entry inputs ih =>
    obtain ⟨port, others, hcheck, -, hrest, rfl⟩ := normalizeFrom_cons h
    obtain ⟨hhost, hport, hseen⟩ := checkAddress_eq_ok hcheck
    obtain ⟨hvalid, hnodup, hnew, hids⟩ := ih hrest
    have haddress : entry.address = addressKey entry.host port := by
      rw [NodeAddressInput.address, hport, Option.getD_some]
    refine ⟨?_, ?_, ?_, ?_⟩
    · intro e he
      rcases List.mem_cons.1 he with rfl | he
      · exact ⟨hhost, port, hport⟩
      · exact hvalid e he
    · rw [List.map_cons, List.nodup_cons]
      refine ⟨fun hmem => ?_, hnodup⟩
      obtain ⟨e, he, heq⟩ := List.mem_map.1 hmem
      exact hnew e he (by rw [heq, haddress]; exact List.mem_cons_self)
    · intro e he
      rcases List.mem_cons.1 he with rfl | he
      · rwa [haddress]
      · exact fun hmem => hnew e he (List.mem_cons_of_mem _ hmem)
    · rw [List.map_cons, List.map_cons, hids, NodeAddressInput.nodeId, haddress]

/-- Valid entries with new and distinct addresses and ids are accepted. -/
theorem normalizeFrom_of_valid (nodeIndex : ℕ) (hvalid : ∀ entry ∈ inputs, entry.Valid)
    (haddr : (inputs.map NodeAddressInput.address).Nodup)
    (hnewAddr : ∀ entry ∈ inputs, entry.address ∉ seenAddr)
    (hid : (inputs.map NodeAddressInput.nodeId).Nodup)
    (hnewId : ∀ entry ∈ inputs, entry.nodeId ∉ seenId) :
    ∃ nodes, normalizeFrom nodeIndex seenId seenAddr inputs = .ok nodes := by
  induction inputs generalizing nodeIndex seenId seenAddr with
  | nil => exact ⟨[], rfl⟩
  | cons entry inputs ih =>
    rw [List.map_cons, List.nodup_cons] at haddr hid
    obtain ⟨port, hcheck, haddress⟩ := checkAddress_of_valid
      (hvalid entry List.mem_cons_self) (hnewAddr entry List.mem_cons_self)
    have hidNew : entry.effectiveId (addressKey entry.host port) ∉ seenId := by
      rw [← haddress]
      exact hnewId entry List.mem_cons_self
    have haddrs (e) (he : e ∈ inputs) : e.address ∉ addressKey entry.host port :: seenAddr := by
      intro hmem
      rcases List.mem_cons.1 hmem with heq | hmem
      · exact haddr.1 (List.mem_map.2 ⟨e, he, heq.trans haddress.symm⟩)
      · exact hnewAddr e (List.mem_cons_of_mem _ he) hmem
    have hids (e) (he : e ∈ inputs) :
        e.nodeId ∉ entry.effectiveId (addressKey entry.host port) :: seenId := by
      intro hmem
      rcases List.mem_cons.1 hmem with heq | hmem
      · refine hid.1 (List.mem_map.2 ⟨e, he, heq.trans ?_⟩)
        rw [NodeAddressInput.nodeId, haddress]
      · exact hnewId e (List.mem_cons_of_mem _ he) hmem
    obtain ⟨others, hothers⟩ := ih (nodeIndex + 1)
      (fun e he => hvalid e (List.mem_cons_of_mem _ he)) haddr.2 haddrs hid.2 hids
    rw [normalizeFrom, hcheck]
    simp only
    rw [if_neg hidNew, hothers]
    exact ⟨_, rfl⟩

/-- The ids of an accepted list are those of its entries, in order. -/
theorem ids_of_accepted (h : normalizeClusterNodes inputs = .ok nodes) :
    nodes.map ClusterNode.id = inputs.map NodeAddressInput.nodeId :=
  (normalizeFrom_inputs (normalizeClusterNodes_eq_ok h).1).2.2.2

/-- **An accepted list is accepted in any order.** -/
theorem accepted_perm (h : normalizeClusterNodes inputs = .ok nodes) (hperm : inputs'.Perm inputs) :
    ∃ nodes', normalizeClusterNodes inputs' = .ok nodes' := by
  obtain ⟨hloop, hne⟩ := normalizeClusterNodes_eq_ok h
  obtain ⟨hvalid, haddr, -, hids⟩ := normalizeFrom_inputs hloop
  have hnodup := (normalizeFrom_spec hloop).2.2.1
  rw [hids] at hnodup
  have hne' : inputs' ≠ [] := by
    rintro rfl
    have hnil : inputs = [] := List.nil_perm.1 hperm
    rw [hnil, normalizeClusterNodes, if_pos rfl] at h
    cases h
  rw [normalizeClusterNodes, if_neg hne']
  exact normalizeFrom_of_valid 0 (fun e he => hvalid e (hperm.mem_iff.1 he))
    ((hperm.map _).nodup_iff.2 haddr) (fun _ _ => List.not_mem_nil)
    ((hperm.map _).nodup_iff.2 hnodup) (fun _ _ => List.not_mem_nil)

end Acceptable

/-! ### Rings with ids in place of indices -/

/-- The labels of the virtual nodes, by hash and id. -/
def ringLabels (hashKey : JsString → ℕ) (virtualNodesPerNode : ℕ) (ids : List JsString) :
    List (ℕ × Option JsString) :=
  ids.flatMap fun id => (List.range virtualNodesPerNode).map fun v =>
    (hashKey (id ++ js "#" ++ decimal v), some id)

namespace Topology

variable (t : Topology)

/-- The id of the node with the index `i`. -/
def idAt (i : ℕ) : Option JsString := (t.nodes[i]?).map ClusterNode.id

/-- An entry of the ring with the id of its node. -/
def labelled (e : RingEntry) : ℕ × Option JsString := (e.hash, t.idAt e.nodeIndex)

/-- The labels of different nodes have different hashes. -/
def LabelsApart : Prop :=
  ∀ n ∈ t.nodes, ∀ n' ∈ t.nodes, n.id ≠ n'.id →
    ∀ v < (t.virtualNodesPerNode : ℕ), ∀ v' < (t.virtualNodesPerNode : ℕ),
      t.hashKey (n.id ++ js "#" ++ decimal v) ≠ t.hashKey (n'.id ++ js "#" ++ decimal v')

variable {t}

theorem idAt_nodeIndex {n : ClusterNode} (h : n ∈ t.nodes) : t.idAt n.nodeIndex = some n.id := by
  obtain ⟨i, hi⟩ := List.mem_iff_getElem?.1 h
  rw [idAt, t.nodeIndex_eq hi, hi, Option.map_some]

theorem idAt_inj {i j : ℕ} (hi : i < t.nodes.length) (hj : j < t.nodes.length)
    (h : t.idAt i = t.idAt j) : i = j := by
  rw [idAt, idAt, List.getElem?_eq_getElem hi, List.getElem?_eq_getElem hj, Option.map_some,
    Option.map_some] at h
  have hids := List.inj_on_of_nodup_map t.nodup_ids (List.getElem_mem hi) (List.getElem_mem hj)
    (Option.some.inj h)
  have hni := t.nodeIndex_eq (List.getElem?_eq_getElem hi)
  have hnj := t.nodeIndex_eq (List.getElem?_eq_getElem hj)
  rw [← hni, ← hnj, hids]

variable (t)

/-- With ids, the entries of the ring are the labels of the nodes. -/
theorem labelled_perm : (t.ring.entries.map t.labelled).Perm
    (ringLabels t.hashKey t.virtualNodesPerNode (t.nodes.map ClusterNode.id)) := by
  have hperm : t.ring.entries.Perm ((t.nodes.map ClusterNode.ringNode).flatMap
      (nodeEntries t.virtualNodesPerNode t.hashKey)) :=
    List.perm_insertionSort RingEntry.le _
  have heq : ((t.nodes.map ClusterNode.ringNode).flatMap
      (nodeEntries t.virtualNodesPerNode t.hashKey)).map t.labelled =
        ringLabels t.hashKey t.virtualNodesPerNode (t.nodes.map ClusterNode.id) := by
    rw [List.map_flatMap, ringLabels, List.flatMap_map, List.flatMap_map]
    refine List.flatMap_congr fun n hn => ?_
    rw [nodeEntries, List.map_map]
    refine List.map_congr_left fun v _ => ?_
    show (_, t.idAt n.nodeIndex) = _
    rw [idAt_nodeIndex hn]
    rfl
  exact heq ▸ hperm.map t.labelled

theorem sorted_labelled : (t.ring.entries.map t.labelled).Pairwise (fun a b => a.1 ≤ b.1) := by
  refine List.Pairwise.map t.labelled ?_ (sorted_buildRingEntries _ _ _)
  intro a b hab
  exact hab.hash_le

/-- The topology that is given the same nodes in another order. -/
def reorder (inputs : List NodeAddressInput) (nodes : List ClusterNode)
    (accepted : normalizeClusterNodes inputs = .ok nodes) : Topology :=
  { t with inputs := inputs, nodes := nodes, accepted := accepted }

section Reorder

variable {t} {inputs : List NodeAddressInput} {nodes : List ClusterNode}
  {accepted : normalizeClusterNodes inputs = .ok nodes}

theorem ids_perm (hperm : inputs.Perm t.inputs) (accepted : normalizeClusterNodes inputs = .ok nodes) :
    (nodes.map ClusterNode.id).Perm (t.nodes.map ClusterNode.id) := by
  rw [ids_of_accepted accepted, ids_of_accepted t.accepted]
  exact hperm.map _

/-- **With labels apart, the order of the list does not show in the ring.** -/
theorem labelled_eq (hapart : t.LabelsApart) (hperm : inputs.Perm t.inputs) :
    (t.reorder inputs nodes accepted).ring.entries.map (t.reorder inputs nodes accepted).labelled =
      t.ring.entries.map t.labelled := by
  have hlabels := t.labelled_perm
  have hlabels' := (t.reorder inputs nodes accepted).labelled_perm
  have hsame : (ringLabels t.hashKey t.virtualNodesPerNode (nodes.map ClusterNode.id)).Perm
      (ringLabels t.hashKey t.virtualNodesPerNode (t.nodes.map ClusterNode.id)) :=
    (ids_perm hperm accepted).flatMap_right _
  have hall := (hlabels'.trans hsame).trans hlabels.symm
  refine List.Perm.eq_of_pairwise ?_ (sorted_labelled _) (sorted_labelled _) hall
  -- two labels with one hash belong to one node
  intro a b ha hb hab hba
  obtain ⟨id, hid, hmem⟩ := List.mem_flatMap.1 (hlabels.mem_iff.1 (hall.mem_iff.1 ha))
  obtain ⟨id', hid', hmem'⟩ := List.mem_flatMap.1 (hlabels.mem_iff.1 hb)
  obtain ⟨v, hv, rfl⟩ := List.mem_map.1 hmem
  obtain ⟨v', hv', rfl⟩ := List.mem_map.1 hmem'
  obtain ⟨n, hn, rfl⟩ := List.mem_map.1 hid
  obtain ⟨n', hn', rfl⟩ := List.mem_map.1 hid'
  have hhash : t.hashKey (n.id ++ js "#" ++ decimal v) = t.hashKey (n'.id ++ js "#" ++ decimal v') :=
    le_antisymm hab hba
  by_cases hne : n.id = n'.id
  · exact Prod.ext hhash (congrArg some hne)
  · exact absurd hhash (hapart n hn n' hn' hne v (List.mem_range.1 hv) v' (List.mem_range.1 hv'))

end Reorder

/-! ### Replicas by id -/

/-- The replicas of a key by id, the primary first. -/
def replicaIds (key : JsString) : List (Option JsString) :=
  (t.ring.lookupReplicaIndices key t.factor).map t.idAt

/-- A walk around the labelled ring. -/
theorem map_labelled_walkOf (key : JsString) :
    (t.ring.walkOf key).map t.labelled =
      (t.ring.entries.map t.labelled).filter (fun a => t.hashKey key ≤ a.1) ++
        (t.ring.entries.map t.labelled).filter (fun a => a.1 < t.hashKey key) := by
  rw [List.filter_map, List.filter_map, ← List.map_append]
  rfl

/-- The replicas by id are the ids in the order in which the walk first meets them. -/
theorem replicaIds_eq_take (key : JsString) :
    t.replicaIds key =
      (((t.ring.walkOf key).map t.labelled).map Prod.snd).eraseDups.take t.factor := by
  have hinj : ∀ i ∈ (t.ring.walkOf key).map RingEntry.nodeIndex,
      ∀ j ∈ (t.ring.walkOf key).map RingEntry.nodeIndex, t.idAt i = t.idAt j → i = j := by
    intro i hi j hj h
    obtain ⟨e, he, rfl⟩ := List.mem_map.1 hi
    obtain ⟨e', he', rfl⟩ := List.mem_map.1 hj
    have hperm := clockwise_perm (h := t.hashKey key)
      (sorted_buildRingEntries (t.nodes.map ClusterNode.ringNode) t.virtualNodesPerNode t.hashKey)
    exact idAt_inj (t.ring_entry_lt (hperm.mem_iff.1 he)) (t.ring_entry_lt (hperm.mem_iff.1 he')) h
  have hwalk : ((t.ring.walkOf key).map t.labelled).map Prod.snd =
      ((t.ring.walkOf key).map RingEntry.nodeIndex).map t.idAt := by
    rw [List.map_map, List.map_map]
    rfl
  rw [hwalk, eraseDups_map t.idAt _ hinj, ← List.map_take]
  exact congrArg (List.map t.idAt) (HashRing.lookupReplicaIndices_new t.factor)

/-- **The replicas of a key do not depend on the order of the list.** -/
theorem replicaIds_eq {inputs : List NodeAddressInput} {nodes : List ClusterNode}
    {accepted : normalizeClusterNodes inputs = .ok nodes} (hapart : t.LabelsApart)
    (hperm : inputs.Perm t.inputs) (key : JsString) :
    (t.reorder inputs nodes accepted).replicaIds key = t.replicaIds key := by
  have hlength : nodes.length = t.nodes.length := by
    have := (ids_perm hperm accepted).length_eq
    rwa [List.length_map, List.length_map] at this
  have hfactor : ((t.reorder inputs nodes accepted).factor : ℕ) = t.factor := by
    show min _ nodes.length = min _ t.nodes.length
    rw [hlength]
    rfl
  rw [replicaIds_eq_take, replicaIds_eq_take, map_labelled_walkOf, map_labelled_walkOf,
    labelled_eq hapart hperm, hfactor]
  rfl

end Topology

end DistributedCache
