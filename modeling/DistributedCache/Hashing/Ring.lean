import Mathlib.Data.List.Sort
import Mathlib.Data.PNat.Basic
import DistributedCache.Js.Value

/-!
# The hash ring

`packages/hashing/src/hash-ring.js`. The hash function is a parameter throughout: SHA-256 is the
default of the source, and nothing below depends on it.

* `RingEntry`, `buildRingEntries`, `HashRing`: the virtual nodes sorted by hash and node index;
* `ringStartIndex`: the binary search, on fuel;
* `lookup`, `lookupReplicaIndices`: the owner of a key, and the clockwise walk that collects
  distinct nodes;
* the replica list starts with the owner, names no node twice and only nodes of the ring.
-/

namespace DistributedCache

/-- One virtual node. -/
structure RingEntry where
  hash : ℕ
  nodeIndex : ℕ
  deriving DecidableEq, Repr

/-- A physical node as the ring sees it. -/
structure HashRingNode where
  nodeIndex : ℕ
  nodeId : JsString
  deriving DecidableEq, Repr

/-- The comparison of `entries.sort`: by hash, then by node index. -/
def RingEntry.le (a b : RingEntry) : Prop :=
  if a.hash ≠ b.hash then a.hash ≤ b.hash else a.nodeIndex ≤ b.nodeIndex

instance : DecidableRel RingEntry.le := fun a b =>
  inferInstanceAs (Decidable (if a.hash ≠ b.hash then a.hash ≤ b.hash else a.nodeIndex ≤ b.nodeIndex))

/-- The entries of one node. -/
def nodeEntries (virtualNodesPerNode : ℕ) (hashFn : JsString → ℕ) (node : HashRingNode) :
    List RingEntry :=
  (List.range virtualNodesPerNode).map fun v =>
    ⟨hashFn (node.nodeId ++ js "#" ++ decimal v), node.nodeIndex⟩

/-- `buildRingEntries`. -/
def buildRingEntries (nodes : List HashRingNode) (virtualNodesPerNode : ℕ)
    (hashFn : JsString → ℕ) : List RingEntry :=
  (nodes.flatMap (nodeEntries virtualNodesPerNode hashFn)).insertionSort RingEntry.le

theorem mem_buildRingEntries {nodes : List HashRingNode} {virtualNodesPerNode : ℕ}
    {hashFn : JsString → ℕ} {e : RingEntry} :
    e ∈ buildRingEntries nodes virtualNodesPerNode hashFn ↔
      ∃ node ∈ nodes, ∃ v < virtualNodesPerNode,
        e = ⟨hashFn (node.nodeId ++ js "#" ++ decimal v), node.nodeIndex⟩ := by
  unfold buildRingEntries
  rw [(List.perm_insertionSort RingEntry.le _).mem_iff]
  simp only [List.mem_flatMap, nodeEntries, List.mem_map, List.mem_range, eq_comm]

theorem buildRingEntries_ne_nil {nodes : List HashRingNode} (h : nodes ≠ [])
    (virtualNodesPerNode : ℕ+) (hashFn : JsString → ℕ) :
    buildRingEntries nodes virtualNodesPerNode hashFn ≠ [] := by
  obtain ⟨node, hnode⟩ := List.exists_mem_of_ne_nil nodes h
  exact List.ne_nil_of_mem (mem_buildRingEntries.2 ⟨node, hnode, 0, virtualNodesPerNode.pos, rfl⟩)

/-- A ring; the constructor of the source refuses an empty node list and fewer than one virtual
node, so there is always an entry. -/
structure HashRing where
  hashFn : JsString → ℕ
  nodeCount : ℕ
  entries : List RingEntry
  nodeCount_pos : 0 < nodeCount
  nonempty : entries ≠ []

namespace HashRing

/-- The ring of a non-empty node list. -/
def new (nodes : List HashRingNode) (h : nodes ≠ []) (virtualNodesPerNode : ℕ+)
    (hashFn : JsString → ℕ) : HashRing where
  hashFn := hashFn
  nodeCount := nodes.length
  entries := buildRingEntries nodes virtualNodesPerNode hashFn
  nodeCount_pos := List.length_pos_of_ne_nil h
  nonempty := buildRingEntries_ne_nil h virtualNodesPerNode hashFn

/-- The loop `while (lo < hi)` of `#ringStartIndex`. -/
def searchLoop (entries : List RingEntry) (h : ℕ) : ℕ → ℕ → ℕ → ℕ
  | 0, lo, _ => lo
  | fuel + 1, lo, hi =>
      if lo < hi then
        let mid := (lo + hi) / 2
        match entries[mid]? with
        | none => lo
        | some entry =>
            if entry.hash < h then searchLoop entries h fuel (mid + 1) hi
            else searchLoop entries h fuel lo mid
      else lo

/-- `#ringStartIndex`: the first entry whose hash is not below that of the key, or the first of
all. -/
def ringStartIndex (ring : HashRing) (key : JsString) : ℕ :=
  let lo := searchLoop ring.entries (ring.hashFn key) ring.entries.length 0 ring.entries.length
  if lo ≥ ring.entries.length then 0 else lo

theorem ringStartIndex_lt (ring : HashRing) (key : JsString) :
    ring.ringStartIndex key < ring.entries.length := by
  have hpos := List.length_pos_of_ne_nil ring.nonempty
  unfold ringStartIndex
  simp only
  split_ifs with h
  · exact hpos
  · omega

/-- The entry a key starts from. -/
def startEntry (ring : HashRing) (key : JsString) : RingEntry :=
  ring.entries.get ⟨ring.ringStartIndex key, ring.ringStartIndex_lt key⟩

/-- `lookup`: the node that owns a key. -/
def lookup (ring : HashRing) (key : JsString) : ℕ := (ring.startEntry key).nodeIndex

/-- The walk of `lookupReplicaIndices`; `left` entries are still to be visited, `i` have been. The
`seen` set of the source holds the elements of `result`. -/
def walk (entries : List RingEntry) (start target : ℕ) : ℕ → ℕ → List ℕ → List ℕ
  | 0, _, result => result
  | left + 1, i, result =>
      if result.length < target then
        match entries[(start + i) % entries.length]? with
        | none => result
        | some entry =>
            walk entries start target left (i + 1)
              (if entry.nodeIndex ∈ result then result else result ++ [entry.nodeIndex])
      else result

/-- `lookupReplicaIndices`: the owner first, then distinct nodes clockwise. -/
def lookupReplicaIndices (ring : HashRing) (key : JsString) (replicationFactor : ℕ+) : List ℕ :=
  walk ring.entries (ring.ringStartIndex key) (min (replicationFactor : ℕ) ring.nodeCount)
    ring.entries.length 0 []

/-- What the walk collects: it only appends, never a node twice, only nodes of the ring. -/
theorem walk_spec (entries : List RingEntry) (start target left i : ℕ) {result : List ℕ}
    (hnodup : result.Nodup) (hmem : ∀ n ∈ result, ∃ e ∈ entries, e.nodeIndex = n) :
    result <+: walk entries start target left i result ∧
      (walk entries start target left i result).Nodup ∧
      ∀ n ∈ walk entries start target left i result, ∃ e ∈ entries, e.nodeIndex = n := by
  induction left generalizing i result with
  | zero => exact ⟨List.prefix_rfl, hnodup, hmem⟩
  | succ left ih =>
    rw [walk]
    split_ifs with hlen
    · split
      · exact ⟨List.prefix_rfl, hnodup, hmem⟩
      · rename_i entry hentry
        split_ifs with hseen
        · exact ih (i + 1) hnodup hmem
        · have hnodup' : (result ++ [entry.nodeIndex]).Nodup :=
            List.nodup_append.2 ⟨hnodup, List.nodup_singleton _, fun a ha b hb => by
              rw [List.mem_singleton.1 hb]
              rintro rfl
              exact hseen ha⟩
          have hmem' : ∀ n ∈ result ++ [entry.nodeIndex], ∃ e ∈ entries, e.nodeIndex = n := by
            intro n hn
            rcases List.mem_append.1 hn with hn | hn
            · exact hmem n hn
            · exact ⟨entry, List.mem_of_getElem? hentry, (List.mem_singleton.1 hn).symm⟩
          obtain ⟨hpre, hrest⟩ := ih (i + 1) hnodup' hmem'
          exact ⟨(List.prefix_append _ _).trans hpre, hrest⟩
    · exact ⟨List.prefix_rfl, hnodup, hmem⟩

variable (ring : HashRing) (key : JsString) (replicationFactor : ℕ+)

/-- No node is listed twice. -/
theorem nodup_lookupReplicaIndices : (ring.lookupReplicaIndices key replicationFactor).Nodup :=
  (walk_spec _ _ _ _ _ List.nodup_nil fun _ hn => nomatch hn).2.1

/-- Only nodes of the ring are listed. -/
theorem exists_of_mem_lookupReplicaIndices {n : ℕ}
    (h : n ∈ ring.lookupReplicaIndices key replicationFactor) :
    ∃ e ∈ ring.entries, e.nodeIndex = n :=
  (walk_spec _ _ _ _ _ List.nodup_nil fun _ hn => nomatch hn).2.2 n h

/-- **The replica list starts with the owner of the key.** -/
theorem lookupReplicaIndices_eq_cons :
    ∃ replicas, ring.lookupReplicaIndices key replicationFactor = ring.lookup key :: replicas := by
  have hlt := ring.ringStartIndex_lt key
  have hpos : 0 < min (replicationFactor : ℕ) ring.nodeCount :=
    lt_min replicationFactor.pos ring.nodeCount_pos
  have hstart : ring.entries[(ring.ringStartIndex key + 0) % ring.entries.length]? =
      some (ring.startEntry key) := by
    rw [Nat.add_zero, Nat.mod_eq_of_lt hlt]
    exact List.getElem?_eq_getElem hlt
  unfold lookupReplicaIndices
  cases hn : ring.entries.length with
  | zero => omega
  | succ left =>
    rw [walk, if_pos (by exact hpos), hstart]
    simp only [List.not_mem_nil, if_false, List.nil_append]
    obtain ⟨⟨replicas, h⟩, -⟩ := walk_spec ring.entries (ring.ringStartIndex key)
      (min (replicationFactor : ℕ) ring.nodeCount) left 1 (List.nodup_singleton (ring.lookup key))
      (fun n h => ⟨ring.startEntry key, List.get_mem _ _, (List.mem_singleton.1 h).symm⟩)
    exact ⟨replicas, h.symm⟩

theorem lookup_mem : ring.lookup key ∈ ring.lookupReplicaIndices key replicationFactor := by
  obtain ⟨replicas, h⟩ := ring.lookupReplicaIndices_eq_cons key replicationFactor
  rw [h]
  exact List.mem_cons_self

end HashRing

end DistributedCache
