import DistributedCache.Hashing.Search

/-!
# Nodes that join and leave

The ring without a node is the ring with that node after its entries have been taken out
(`buildRingEntries_leave`), so the clockwise walk of every key is the old one without them
(`nodesMet_leave`). A key therefore only ever moves to a node that joins, or from a node that leaves
to the next of its replicas (`minimal_movement`).
-/

namespace DistributedCache

/-- Taking entries out commutes with walking clockwise. -/
theorem clockwise_filter (h : ℕ) (p : RingEntry → Bool) (entries : List RingEntry) :
    clockwise h (entries.filter p) = (clockwise h entries).filter p := by
  unfold clockwise low high
  rw [List.filter_append]
  congr 1
  · exact List.filter_comm _ _ _
  · exact List.filter_comm _ _ _

section Leave

variable {nodes nodes' : List HashRingNode} {x : HashRingNode}

/-- The entries of the other nodes are those that do not belong to `x`. -/
theorem filter_flatMap_nodeEntries (hfresh : x.nodeIndex ∉ nodes.map HashRingNode.nodeIndex)
    (virtualNodesPerNode : ℕ) (hashFn : JsString → ℕ) :
    ((x :: nodes).flatMap (nodeEntries virtualNodesPerNode hashFn)).filter
        (fun e => e.nodeIndex != x.nodeIndex) =
      nodes.flatMap (nodeEntries virtualNodesPerNode hashFn) := by
  have hindex (node : HashRingNode) (e : RingEntry)
      (he : e ∈ nodeEntries virtualNodesPerNode hashFn node) : e.nodeIndex = node.nodeIndex := by
    obtain ⟨v, -, rfl⟩ := List.mem_map.1 he
    rfl
  rw [List.flatMap_cons, List.filter_append]
  have hown : (nodeEntries virtualNodesPerNode hashFn x).filter
      (fun e => e.nodeIndex != x.nodeIndex) = [] :=
    List.filter_eq_nil_iff.2 fun e he => by simp [hindex x e he]
  have hothers : (nodes.flatMap (nodeEntries virtualNodesPerNode hashFn)).filter
      (fun e => e.nodeIndex != x.nodeIndex) =
        nodes.flatMap (nodeEntries virtualNodesPerNode hashFn) := by
    refine List.filter_eq_self.2 fun e he => ?_
    obtain ⟨node, hnode, he⟩ := List.mem_flatMap.1 he
    have hne : node.nodeIndex ≠ x.nodeIndex := fun heq =>
      hfresh (List.mem_map.2 ⟨node, hnode, heq⟩)
    simpa [hindex node e he] using hne
  rw [hown, hothers, List.nil_append]

/-- **The ring without a node is the ring with it, less its entries.** -/
theorem buildRingEntries_leave (hperm : nodes'.Perm (x :: nodes))
    (hfresh : x.nodeIndex ∉ nodes.map HashRingNode.nodeIndex) (virtualNodesPerNode : ℕ)
    (hashFn : JsString → ℕ) :
    buildRingEntries nodes virtualNodesPerNode hashFn =
      (buildRingEntries nodes' virtualNodesPerNode hashFn).filter
        (fun e => e.nodeIndex != x.nodeIndex) := by
  have hsorted := sorted_buildRingEntries nodes virtualNodesPerNode hashFn
  have hsorted' := (sorted_buildRingEntries nodes' virtualNodesPerNode hashFn).filter
    (fun e => e.nodeIndex != x.nodeIndex)
  refine List.Perm.eq_of_pairwise' hsorted hsorted' ?_
  have hflat : (buildRingEntries nodes' virtualNodesPerNode hashFn).Perm
      ((x :: nodes).flatMap (nodeEntries virtualNodesPerNode hashFn)) :=
    (List.perm_insertionSort RingEntry.le _).trans (hperm.flatMap_right _)
  have hfilter := hflat.filter fun e => e.nodeIndex != x.nodeIndex
  rw [filter_flatMap_nodeEntries hfresh] at hfilter
  exact (List.perm_insertionSort RingEntry.le _).trans hfilter.symm

end Leave

namespace HashRing

variable {nodes nodes' : List HashRingNode} {x : HashRingNode} {hne : nodes ≠ []}
  {hne' : nodes' ≠ []}

/-- Without `x`, a walk first meets the nodes it met before, less `x`. -/
theorem nodesMet_leave (hperm : nodes'.Perm (x :: nodes))
    (hfresh : x.nodeIndex ∉ nodes.map HashRingNode.nodeIndex) (virtualNodesPerNode : ℕ+)
    (hashFn : JsString → ℕ) (key : JsString) :
    (new nodes hne virtualNodesPerNode hashFn).nodesMet key =
      ((new nodes' hne' virtualNodesPerNode hashFn).nodesMet key).filter (· != x.nodeIndex) := by
  unfold nodesMet walkOf
  rw [← eraseDups_filter, List.filter_map]
  congr 2
  show clockwise _ (buildRingEntries nodes _ _) = _
  rw [buildRingEntries_leave hperm hfresh, clockwise_filter]
  rfl

/-- **Minimal movement.** Take the ring of `nodes` and the one of `nodes'`, which has the additional
node `x`. Less `x`, the replica list of a key on the larger ring is an initial segment of its list on
the smaller one; the owner on the larger ring is `x` or the old one; and when `x` owns a key, the
owner without `x` is the second entry of the replica list with it. -/
theorem minimal_movement (nodes nodes' : List HashRingNode) (x : HashRingNode) (hne : nodes ≠ [])
    (hne' : nodes' ≠ []) (hperm : nodes'.Perm (x :: nodes))
    (hfresh : x.nodeIndex ∉ nodes.map HashRingNode.nodeIndex) (virtualNodesPerNode : ℕ+)
    (hashFn : JsString → ℕ) (key : JsString) (replicationFactor : ℕ+) :
    let ring := new nodes hne virtualNodesPerNode hashFn
    let ring' := new nodes' hne' virtualNodesPerNode hashFn
    (ring'.lookupReplicaIndices key replicationFactor).erase x.nodeIndex <+:
        ring.lookupReplicaIndices key replicationFactor ∧
      (ring'.lookup key = x.nodeIndex ∨ ring'.lookup key = ring.lookup key) ∧
      (ring'.lookup key = x.nodeIndex → 2 ≤ replicationFactor →
        (ring'.lookupReplicaIndices key replicationFactor)[1]? = some (ring.lookup key)) := by
  intro ring ring'
  have hleave : ring.nodesMet key = (ring'.nodesMet key).filter (· != x.nodeIndex) :=
    nodesMet_leave hperm hfresh virtualNodesPerNode hashFn key
  obtain ⟨others, hcons⟩ := nodesMet_eq_cons sorted_new key
  obtain ⟨others', hcons'⟩ := nodesMet_eq_cons sorted_new key
  refine ⟨?_, ?_, fun howner hfactor => ?_⟩
  · show (lookupReplicaIndices ring' key _).erase _ <+: lookupReplicaIndices ring key _
    rw [lookupReplicaIndices_new, lookupReplicaIndices_new, hleave]
    exact erase_take_prefix (nodup_nodesMet ring' key) _ _
  · by_cases howner : ring'.lookup key = x.nodeIndex
    · exact Or.inl howner
    · -- the node that is met first is another one, so it is met first without `x` too
      rw [hcons, hcons', List.filter_cons_of_pos (by simpa using howner)] at hleave
      exact Or.inr (List.cons.inj hleave).1.symm
  · -- `x` is met first and only once, so what is met next is met first without it
    have hnot : x.nodeIndex ∉ others' := by
      have hnodup := nodup_nodesMet ring' key
      rw [hcons', howner] at hnodup
      exact (List.nodup_cons.1 hnodup).1
    have hself : others'.filter (· != x.nodeIndex) = others' :=
      List.filter_eq_self.2 fun n hn => by
        simpa using fun heq : n = x.nodeIndex => hnot (heq ▸ hn)
    rw [hcons, hcons', List.filter_cons_of_neg (by simpa using howner), hself] at hleave
    have hone : 1 < (replicationFactor : ℕ) := hfactor
    show (lookupReplicaIndices ring' key _)[1]? = _
    rw [lookupReplicaIndices_new, List.getElem?_take_of_lt hone]
    show (ring'.nodesMet key)[1]? = _
    rw [hcons', ← hleave]
    rfl

/-- Node `2` joins and takes a key over; when it leaves, the key goes back. -/
theorem minimal_movement_example :
    let nodes : List HashRingNode := [⟨0, js "a"⟩, ⟨1, js "bbb"⟩]
    let nodes' : List HashRingNode := [⟨2, js "cc"⟩, ⟨0, js "a"⟩, ⟨1, js "bbb"⟩]
    let ring := new nodes (List.cons_ne_nil _ _) 2 List.length
    let ring' := new nodes' (List.cons_ne_nil _ _) 2 List.length
    ring'.lookup (js "abcd") = 2 ∧
      (ring'.lookupReplicaIndices (js "abcd") 2)[1]? = some (ring.lookup (js "abcd")) :=
  ⟨by decide, (minimal_movement [⟨0, js "a"⟩, ⟨1, js "bbb"⟩]
    [⟨2, js "cc"⟩, ⟨0, js "a"⟩, ⟨1, js "bbb"⟩] ⟨2, js "cc"⟩ (List.cons_ne_nil _ _)
    (List.cons_ne_nil _ _) (List.Perm.refl _) (by decide) 2 List.length (js "abcd") 2).2.2
    (by decide) (by decide)⟩

end HashRing

end DistributedCache
