import Mathlib.Data.Rat.Defs
import DistributedCache.Hashing.Movement

/-!
# Keys that a change of the node list moves

Any number of nodes may join and leave at once. The nodes that stay are met in the same order by
every walk (`Change.nodesMet`), so a key moves exactly if its owner leaves or its new owner has
joined (`Change.lookup_ne_iff`).

* `remappingFraction`, `nodesForCount`;
* `remapping_exact`.
-/

namespace DistributedCache

/-- `nodesForCount`. -/
def nodesForCount (count : ℕ) (idPrefix : JsString) : List HashRingNode :=
  (List.range count).map fun nodeIndex => ⟨nodeIndex, idPrefix ++ decimal nodeIndex⟩

/-- Some nodes only: their entries, and no others. -/
theorem buildRingEntries_filter {nodes nodes' : List HashRingNode} {p : ℕ → Bool}
    (hperm : nodes'.Perm (nodes.filter fun node => p node.nodeIndex)) (virtualNodesPerNode : ℕ)
    (hashFn : JsString → ℕ) :
    buildRingEntries nodes' virtualNodesPerNode hashFn =
      (buildRingEntries nodes virtualNodesPerNode hashFn).filter fun e => p e.nodeIndex := by
  have hsorted := sorted_buildRingEntries nodes' virtualNodesPerNode hashFn
  have hsorted' := (sorted_buildRingEntries nodes virtualNodesPerNode hashFn).filter
    fun e => p e.nodeIndex
  refine List.Perm.eq_of_pairwise' hsorted hsorted' ?_
  have hflat := (List.perm_insertionSort RingEntry.le
    (nodes.flatMap (nodeEntries virtualNodesPerNode hashFn))).filter fun e => p e.nodeIndex
  refine (List.perm_insertionSort RingEntry.le _).trans (.trans ?_ hflat.symm)
  refine (hperm.flatMap_right _).trans (.of_eq ?_)
  clear hperm hsorted hsorted' hflat
  -- node by node: all entries of a node are kept, or none
  induction nodes with
  | nil => rfl
  | cons node nodes ih =>
    have hown (e : RingEntry) (he : e ∈ nodeEntries virtualNodesPerNode hashFn node) :
        e.nodeIndex = node.nodeIndex := by
      obtain ⟨v, -, rfl⟩ := List.mem_map.1 he
      rfl
    rw [List.flatMap_cons, List.filter_append]
    by_cases hp : p node.nodeIndex = true
    · have hall : (nodeEntries virtualNodesPerNode hashFn node).filter (fun e => p e.nodeIndex) =
          nodeEntries virtualNodesPerNode hashFn node :=
        List.filter_eq_self.2 fun e he => by rw [hown e he, hp]
      have hkept : (node :: nodes).filter (fun node => p node.nodeIndex) =
          node :: nodes.filter fun node => p node.nodeIndex := List.filter_cons_of_pos hp
      rw [hkept, List.flatMap_cons, ih, hall]
    · have hnone : (nodeEntries virtualNodesPerNode hashFn node).filter
          (fun e => p e.nodeIndex) = [] :=
        List.filter_eq_nil_iff.2 fun e he => by rwa [hown e he]
      have hdropped : (node :: nodes).filter (fun node => p node.nodeIndex) =
          nodes.filter fun node => p node.nodeIndex := List.filter_cons_of_neg hp
      rw [hdropped, ih, hnone, List.nil_append]

/-- A counting loop counts. -/
theorem foldl_changed (p : JsString → Prop) [DecidablePred p] (keys : List JsString) (n : ℕ) :
    keys.foldl (fun changed key => if p key then changed + 1 else changed) n =
      n + keys.countP p := by
  induction keys generalizing n with
  | nil => rfl
  | cons key keys ih =>
    rw [List.foldl_cons, ih, List.countP_cons]
    by_cases hp : p key
    · simp only [hp, if_true, decide_true]
      omega
    · simp only [hp, if_false, decide_false, Bool.false_eq_true]
      omega

namespace HashRing

/-- `remappingFraction`, as a rational number. -/
def remappingFraction (keys : List JsString) (ringA ringB : HashRing) : ℚ :=
  if keys.length = 0 then 0
  else
    let changed := keys.foldl (fun changed key =>
      if ringA.lookup key ≠ ringB.lookup key then changed + 1 else changed) 0
    (changed : ℕ) / keys.length

theorem remappingFraction_eq (keys : List JsString) (ringA ringB : HashRing) :
    remappingFraction keys ringA ringB =
      (keys.countP fun key => ringA.lookup key ≠ ringB.lookup key : ℕ) / keys.length := by
  unfold remappingFraction
  split_ifs with hkeys
  · rw [hkeys, Nat.cast_zero, div_zero]
  · rw [foldl_changed (fun key => ringA.lookup key ≠ ringB.lookup key), Nat.zero_add]

variable {nodes nodes' stay gone come : List HashRingNode} {hne : nodes ≠ []} {hne' : nodes' ≠ []}
  {virtualNodesPerNode : ℕ+} {hashFn : JsString → ℕ}

/-- Of the nodes that stay, a walk meets what it meets where there are no others. -/
theorem nodesMet_filter {p : ℕ → Bool}
    (hperm : stay.Perm (nodes.filter fun node => p node.nodeIndex)) (key : JsString) :
    ((new nodes hne virtualNodesPerNode hashFn).nodesMet key).filter p =
      ((clockwise (hashFn key) (buildRingEntries stay virtualNodesPerNode hashFn)).map
        RingEntry.nodeIndex).eraseDups := by
  have hmap : ((clockwise (hashFn key) (buildRingEntries nodes virtualNodesPerNode hashFn)).filter
      fun e => p e.nodeIndex).map RingEntry.nodeIndex =
        ((clockwise (hashFn key) (buildRingEntries nodes virtualNodesPerNode hashFn)).map
          RingEntry.nodeIndex).filter p := by
    rw [List.filter_map]
    rfl
  rw [buildRingEntries_filter hperm, clockwise_filter, hmap, eraseDups_filter]
  rfl

/-- A list of nodes becomes another one: some nodes stay, some go and some come. -/
structure Change (nodes nodes' stay gone come : List HashRingNode) : Prop where
  before : nodes.Perm (stay ++ gone)
  after : nodes'.Perm (stay ++ come)
  distinct : ((stay ++ gone ++ come).map HashRingNode.nodeIndex).Nodup

/-- The way back. -/
theorem Change.symm (h : Change nodes nodes' stay gone come) :
    Change nodes' nodes stay come gone where
  before := h.after
  after := h.before
  distinct := by
    have hperm : (stay ++ come ++ gone).Perm (stay ++ gone ++ come) := by
      rw [List.append_assoc, List.append_assoc]
      exact List.perm_append_comm.append_left stay
    exact (hperm.map HashRingNode.nodeIndex).nodup_iff.2 h.distinct

/-- A node that goes neither stays nor comes. -/
theorem Change.notMem (h : Change nodes nodes' stay gone come) {n : ℕ}
    (hn : n ∈ gone.map HashRingNode.nodeIndex) :
    n ∉ stay.map HashRingNode.nodeIndex ∧ n ∉ come.map HashRingNode.nodeIndex := by
  have hdistinct := h.distinct
  rw [List.map_append, List.map_append] at hdistinct
  obtain ⟨hleft, -, hcome⟩ := List.nodup_append.1 hdistinct
  obtain ⟨-, -, hstay⟩ := List.nodup_append.1 hleft
  exact ⟨fun hmem => hstay n hmem n hn rfl,
    fun hmem => hcome n (List.mem_append_right _ hn) n hmem rfl⟩

/-- The nodes that stay are those of the list whose index is theirs. -/
theorem Change.perm_filter (h : Change nodes nodes' stay gone come) :
    stay.Perm (nodes.filter fun node => node.nodeIndex ∈ stay.map HashRingNode.nodeIndex) := by
  have hstay : stay.filter (fun node => node.nodeIndex ∈ stay.map HashRingNode.nodeIndex) = stay :=
    List.filter_eq_self.2 fun node hnode => decide_eq_true (List.mem_map_of_mem hnode)
  have hgone : gone.filter (fun node => node.nodeIndex ∈ stay.map HashRingNode.nodeIndex) = [] :=
    List.filter_eq_nil_iff.2 fun node hnode => by
      simpa only [decide_eq_true_eq] using (h.notMem (List.mem_map_of_mem hnode)).1
  have hfilter := h.before.filter fun node => node.nodeIndex ∈ stay.map HashRingNode.nodeIndex
  rw [List.filter_append, hstay, hgone, List.append_nil] at hfilter
  exact hfilter.symm

/-- The nodes that stay are met in the same order as before. -/
theorem Change.nodesMet (h : Change nodes nodes' stay gone come) (key : JsString) :
    ((new nodes hne virtualNodesPerNode hashFn).nodesMet key).filter
        (· ∈ stay.map HashRingNode.nodeIndex) =
      ((new nodes' hne' virtualNodesPerNode hashFn).nodesMet key).filter
        (· ∈ stay.map HashRingNode.nodeIndex) :=
  (nodesMet_filter h.perm_filter key).trans (nodesMet_filter h.symm.perm_filter key).symm

/-- The owner of a key stays or goes. -/
theorem Change.owner (h : Change nodes nodes' stay gone come) (key : JsString) :
    (new nodes hne virtualNodesPerNode hashFn).lookup key ∈ stay.map HashRingNode.nodeIndex ∨
      (new nodes hne virtualNodesPerNode hashFn).lookup key ∈
        gone.map HashRingNode.nodeIndex := by
  have hmem : (new nodes hne virtualNodesPerNode hashFn).lookup key ∈
      nodes.map HashRingNode.nodeIndex := by
    obtain ⟨others, hcons⟩ : ∃ others, (new nodes hne virtualNodesPerNode hashFn).nodesMet key =
      (new nodes hne virtualNodesPerNode hashFn).lookup key :: others :=
        nodesMet_eq_cons sorted_new key
    exact mem_nodesMet.1 (hcons ▸ List.mem_cons_self)
  have hperm := h.before.map HashRingNode.nodeIndex
  rw [List.map_append] at hperm
  exact List.mem_append.1 (hperm.mem_iff.1 hmem)

/-- A key moves exactly if its owner goes or its new owner has come. -/
theorem Change.lookup_ne_iff (h : Change nodes nodes' stay gone come) (key : JsString) :
    (new nodes hne virtualNodesPerNode hashFn).lookup key ≠
        (new nodes' hne' virtualNodesPerNode hashFn).lookup key ↔
      (new nodes hne virtualNodesPerNode hashFn).lookup key ∈ gone.map HashRingNode.nodeIndex ∨
      (new nodes' hne' virtualNodesPerNode hashFn).lookup key ∈
        come.map HashRingNode.nodeIndex := by
  -- as long as the owner stays it is the first node met of those that do
  have first {nodes : List HashRingNode} {hne : nodes ≠ []}
      (hstay : (new nodes hne virtualNodesPerNode hashFn).lookup key ∈
        stay.map HashRingNode.nodeIndex) :
      (((new nodes hne virtualNodesPerNode hashFn).nodesMet key).filter
        (· ∈ stay.map HashRingNode.nodeIndex)).head? =
          some ((new nodes hne virtualNodesPerNode hashFn).lookup key) := by
    obtain ⟨others, hcons⟩ : ∃ others, (new nodes hne virtualNodesPerNode hashFn).nodesMet key =
      (new nodes hne virtualNodesPerNode hashFn).lookup key :: others :=
        nodesMet_eq_cons sorted_new key
    have hkept : ((new nodes hne virtualNodesPerNode hashFn).lookup key :: others).filter
        (· ∈ stay.map HashRingNode.nodeIndex) =
          (new nodes hne virtualNodesPerNode hashFn).lookup key ::
            others.filter (· ∈ stay.map HashRingNode.nodeIndex) :=
      List.filter_cons_of_pos (decide_eq_true hstay)
    rw [hcons, hkept]
    rfl
  constructor
  · intro hmoves
    by_contra hno
    have hold := first ((h.owner key).resolve_right fun hgone => hno (Or.inl hgone))
    have hnew := first ((h.symm.owner key).resolve_right fun hcome => hno (Or.inr hcome))
    have hmet : (((new nodes hne virtualNodesPerNode hashFn).nodesMet key).filter
        (· ∈ stay.map HashRingNode.nodeIndex)).head? =
          (((new nodes' hne' virtualNodesPerNode hashFn).nodesMet key).filter
            (· ∈ stay.map HashRingNode.nodeIndex)).head? := congrArg List.head? (h.nodesMet key)
    exact hmoves (Option.some.inj (hold.symm.trans (hmet.trans hnew)))
  · rintro (hgone | hcome) hsame
    · obtain ⟨hstay, hcome⟩ := h.notMem hgone
      rw [hsame] at hstay hcome
      exact (h.symm.owner key).elim hstay hcome
    · obtain ⟨hstay, hgone⟩ := h.symm.notMem hcome
      rw [← hsame] at hstay hgone
      exact (h.owner key).elim hstay hgone

/-- A cluster that grows keeps its nodes. -/
theorem change_nodesForCount (count joining : ℕ) (idPrefix : JsString) :
    Change (nodesForCount count idPrefix) (nodesForCount (count + joining) idPrefix)
      (nodesForCount count idPrefix) []
      ((List.range joining).map fun j => ⟨count + j, idPrefix ++ decimal (count + j)⟩) where
  before := List.Perm.of_eq (List.append_nil _).symm
  after := by
    unfold nodesForCount
    rw [List.range_add, List.map_append, List.map_map]
    exact List.Perm.refl _
  distinct := by
    have hindex : (nodesForCount count idPrefix ++ [] ++ (List.range joining).map fun j =>
        (⟨count + j, idPrefix ++ decimal (count + j)⟩ : HashRingNode)).map
          HashRingNode.nodeIndex = List.range (count + joining) := by
      rw [List.append_nil, List.map_append, List.range_add]
      unfold nodesForCount
      rw [List.map_map, List.map_map]
      congr 1
      exact List.map_id _
    rw [hindex]
    exact List.nodup_range

/-- **Exactly the keys that have to move do.** Any nodes may go and come at once. Of two replica
lists of a key, one before and one after, less the nodes that go or come, one is an initial segment
of the other; the owner of a key changes exactly if it goes, or is replaced by a node that has come;
and `remappingFraction` is the share of these keys. -/
theorem remapping_exact (h : Change nodes nodes' stay gone come) (hne : nodes ≠ [])
    (hne' : nodes' ≠ []) (virtualNodesPerNode : ℕ+) (hashFn : JsString → ℕ) :
    let ring := new nodes hne virtualNodesPerNode hashFn
    let ring' := new nodes' hne' virtualNodesPerNode hashFn
    let moves := fun key => ring.lookup key ∈ gone.map HashRingNode.nodeIndex ∨
      ring'.lookup key ∈ come.map HashRingNode.nodeIndex
    let kept := fun replicas : List ℕ =>
      replicas.filter (· ∈ stay.map HashRingNode.nodeIndex)
    (∀ key r r',
      kept (ring.lookupReplicaIndices key r) <+: kept (ring'.lookupReplicaIndices key r') ∨
      kept (ring'.lookupReplicaIndices key r') <+: kept (ring.lookupReplicaIndices key r)) ∧
    (∀ key, ring.lookup key ≠ ring'.lookup key ↔ moves key) ∧
    ∀ keys, remappingFraction keys ring ring' = (keys.countP moves : ℕ) / keys.length := by
  intro ring ring' moves kept
  have hiff (key : JsString) : ring.lookup key ≠ ring'.lookup key ↔ moves key :=
    h.lookup_ne_iff key
  refine ⟨fun key r r' => ?_, hiff, fun keys => ?_⟩
  · have hfirst : kept (ring.lookupReplicaIndices key r) <+: kept (ring.nodesMet key) := by
      rw [lookupReplicaIndices_new]
      exact (List.take_prefix _ _).filter _
    have hfirst' : kept (ring'.lookupReplicaIndices key r') <+: kept (ring.nodesMet key) := by
      rw [lookupReplicaIndices_new]
      have hmet : kept (ring.nodesMet key) = kept (ring'.nodesMet key) := h.nodesMet key
      rw [hmet]
      exact (List.take_prefix _ _).filter _
    exact List.prefix_or_prefix_of_prefix hfirst hfirst'
  · rw [remappingFraction_eq]
    have hcount : (keys.countP fun key => ring.lookup key ≠ ring'.lookup key) =
        keys.countP moves :=
      List.countP_congr fun key _ => by simpa only [decide_eq_true_eq] using hiff key
    rw [hcount]

/-- A fourth node joins and takes one of two keys. -/
theorem remapping_exact_example :
    let ring := new (nodesForCount 3 (js "n")) (by decide) 1 fun s => (s.map JsChar.toNat).sum
    let ring' := new (nodesForCount 4 (js "n")) (by decide) 1 fun s => (s.map JsChar.toNat).sum
    remappingFraction [js "n0#1", js "n0#3"] ring ring' = (1 : ℕ) / (2 : ℕ) :=
  ((remapping_exact (change_nodesForCount 3 1 (js "n")) (by decide) (by decide) 1
    fun s => (s.map JsChar.toNat).sum).2.2 [js "n0#1", js "n0#3"]).trans (by
      have hcount : ([js "n0#1", js "n0#3"].countP fun key =>
          (new (nodesForCount 3 (js "n")) (by decide) 1 fun s => (s.map JsChar.toNat).sum).lookup
            key ∈ ([] : List HashRingNode).map HashRingNode.nodeIndex ∨
          (new (nodesForCount 4 (js "n")) (by decide) 1 fun s => (s.map JsChar.toNat).sum).lookup
            key ∈ [(⟨3, js "n3"⟩ : HashRingNode)].map HashRingNode.nodeIndex) = 1 := by
        decide
      exact congrArg (fun n : ℕ => (n : ℚ) / (2 : ℕ)) hcount)

end HashRing

end DistributedCache
