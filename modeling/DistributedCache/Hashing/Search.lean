import DistributedCache.Lib.Circular
import DistributedCache.Hashing.Ring

/-!
# What the ring search finds

The entries of a ring are sorted by hash and node index, so the entries below a hash form an initial
segment (`low_append_high`) and the binary search stops at its end (`searchLoop_eq`). From there the
walk reads the entries clockwise: first those at or above the hash, then those below it.

* `clockwise`, `rotate_ringStartIndex`: the circle as a key sees it;
* `lookupReplicaIndices_eq`: the replica list is an initial segment of the nodes in the order in
  which the clockwise walk first meets them;
* `search_correct`: lookup and replica list equal their definitions.
-/

namespace DistributedCache

/-! ### The order of the entries -/

theorem RingEntry.le_iff {a b : RingEntry} :
    a.le b ↔ a.hash < b.hash ∨ a.hash = b.hash ∧ a.nodeIndex ≤ b.nodeIndex := by
  unfold RingEntry.le
  split_ifs with h <;> omega

instance : Std.Total RingEntry.le where
  total a b := by
    rw [RingEntry.le_iff, RingEntry.le_iff]
    omega

instance : IsTrans RingEntry RingEntry.le where
  trans a b c hab hbc := by
    rw [RingEntry.le_iff] at *
    omega

instance : Std.Antisymm RingEntry.le where
  antisymm a b hab hba := by
    rw [RingEntry.le_iff] at *
    cases a
    cases b
    simp only [RingEntry.mk.injEq] at *
    omega

theorem RingEntry.le.hash_le {a b : RingEntry} (h : a.le b) : a.hash ≤ b.hash := by
  rw [RingEntry.le_iff] at h
  omega

theorem sorted_buildRingEntries (nodes : List HashRingNode) (virtualNodesPerNode : ℕ)
    (hashFn : JsString → ℕ) :
    (buildRingEntries nodes virtualNodesPerNode hashFn).Pairwise RingEntry.le :=
  List.pairwise_insertionSort _ _

/-! ### The entries below a hash and the others -/

section Split

variable {entries : List RingEntry} (h : ℕ)

/-- The entries whose hash is below `h`. -/
def low (entries : List RingEntry) : List RingEntry := entries.filter fun e => e.hash < h

/-- The entries whose hash is not below `h`. -/
def high (entries : List RingEntry) : List RingEntry := entries.filter fun e => h ≤ e.hash

/-- The entries as they are met clockwise from the hash `h`. -/
def clockwise (entries : List RingEntry) : List RingEntry := high h entries ++ low h entries

variable {h}

theorem mem_low {e : RingEntry} : e ∈ low h entries ↔ e ∈ entries ∧ e.hash < h := by
  simp [low]

theorem mem_high {e : RingEntry} : e ∈ high h entries ↔ e ∈ entries ∧ h ≤ e.hash := by
  simp [high]

theorem sorted_low (hsorted : entries.Pairwise RingEntry.le) :
    (low h entries).Pairwise RingEntry.le :=
  hsorted.sublist List.filter_sublist

theorem sorted_high (hsorted : entries.Pairwise RingEntry.le) :
    (high h entries).Pairwise RingEntry.le :=
  hsorted.sublist List.filter_sublist

/-- A sorted list is its low part followed by its high part. -/
theorem low_append_high (hsorted : entries.Pairwise RingEntry.le) :
    low h entries ++ high h entries = entries := by
  induction entries with
  | nil => rfl
  | cons e entries ih =>
    obtain ⟨hle, hrest⟩ := List.pairwise_cons.1 hsorted
    by_cases he : e.hash < h
    · have hnot : ¬ h ≤ e.hash := not_le.2 he
      simpa [low, high, he, hnot] using ih hrest
    · have habove : ∀ e' ∈ e :: entries, h ≤ e'.hash := by
        intro e' he'
        rcases List.mem_cons.1 he' with rfl | he'
        · exact not_lt.1 he
        · exact (not_lt.1 he).trans (hle e' he').hash_le
      have hlow : low h (e :: entries) = [] :=
        List.filter_eq_nil_iff.2 fun e' he' => by simpa using habove e' he'
      have hhigh : high h (e :: entries) = e :: entries :=
        List.filter_eq_self.2 fun e' he' => by simpa using habove e' he'
      rw [hlow, hhigh, List.nil_append]

/-- The clockwise order consists of all entries. -/
theorem clockwise_perm (hsorted : entries.Pairwise RingEntry.le) :
    (clockwise h entries).Perm entries := by
  have hperm : (clockwise h entries).Perm (low h entries ++ high h entries) :=
    List.perm_append_comm
  rwa [low_append_high hsorted] at hperm

/-- **The binary search stops behind the entries below the hash.** -/
theorem searchLoop_eq (hsorted : entries.Pairwise RingEntry.le) {fuel lo hi : ℕ}
    (hfuel : hi - lo ≤ fuel) (hlo : lo ≤ (low h entries).length)
    (hhi : (low h entries).length ≤ hi) (hlen : hi ≤ entries.length) :
    HashRing.searchLoop entries h fuel lo hi = (low h entries).length := by
  induction fuel generalizing lo hi with
  | zero =>
    rw [HashRing.searchLoop]
    omega
  | succ fuel ih =>
    rw [HashRing.searchLoop]
    split_ifs with hlt
    · simp only
      have hmid : (lo + hi) / 2 < entries.length := by omega
      rw [List.getElem?_eq_getElem hmid]
      simp only
      -- the middle entry is below the hash exactly if it lies in the low part
      have hiff : entries[(lo + hi) / 2].hash < h ↔ (lo + hi) / 2 < (low h entries).length := by
        have hget : (low h entries ++ high h entries)[(lo + hi) / 2]? =
            some entries[(lo + hi) / 2] := by
          rw [low_append_high hsorted, List.getElem?_eq_getElem hmid]
        constructor
        · intro hbelow
          by_contra hnot
          rw [List.getElem?_append_right (not_lt.1 hnot)] at hget
          exact absurd (mem_high.1 (List.mem_of_getElem? hget)).2 (not_le.2 hbelow)
        · intro hin
          rw [List.getElem?_append_left hin] at hget
          exact (mem_low.1 (List.mem_of_getElem? hget)).2
      split_ifs with hbelow
      · rw [hiff] at hbelow
        exact ih (by omega) hbelow hhi hlen
      · rw [hiff] at hbelow
        exact ih (by omega) hlo (by omega) (by omega)
    · omega

end Split

namespace HashRing

variable {ring : HashRing} {key : JsString}

/-- The entries of the ring as `key` meets them. -/
def walkOf (ring : HashRing) (key : JsString) : List RingEntry :=
  clockwise (ring.hashFn key) ring.entries

/-- **Starting at the index the search returns, the circle is read clockwise from the hash.** -/
theorem rotate_ringStartIndex (hsorted : ring.entries.Pairwise RingEntry.le) :
    ring.entries.rotate (ring.ringStartIndex key) = ring.walkOf key := by
  have hsplit := low_append_high (h := ring.hashFn key) hsorted
  have hlen : (low (ring.hashFn key) ring.entries).length ≤ ring.entries.length :=
    List.length_filter_le _ _
  have hsearch := searchLoop_eq (h := ring.hashFn key) hsorted le_rfl
    (Nat.zero_le _) hlen le_rfl
  rw [Nat.sub_zero] at hsearch
  unfold ringStartIndex walkOf clockwise
  simp only [hsearch]
  split_ifs with hwrap
  · -- no entry at or above the hash: the walk starts at the first entry of all
    have hnil : high (ring.hashFn key) ring.entries = [] := by
      have := congrArg List.length hsplit
      rw [List.length_append] at this
      exact List.length_eq_zero_iff.1 (by omega)
    rw [hnil, List.append_nil] at hsplit
    rw [List.rotate_zero, hnil, List.nil_append, hsplit]
  · have hrot := List.rotate_append_length_eq (low (ring.hashFn key) ring.entries)
      (high (ring.hashFn key) ring.entries)
    rwa [hsplit] at hrot

/-- The walk over the positions of the circle collects from the rotated list. -/
theorem walk_eq_collect (entries : List RingEntry) (start target : ℕ) {left i : ℕ}
    (hi : i + left = entries.length) (result : List ℕ) :
    walk entries start target left i result =
      collect target result (((entries.rotate start).drop i).map RingEntry.nodeIndex) := by
  induction left generalizing i result with
  | zero =>
    have hdrop : (entries.rotate start).drop i = [] :=
      List.drop_eq_nil_iff.2 (by rw [List.length_rotate]; omega)
    rw [walk, hdrop, List.map_nil, collect]
  | succ left ih =>
    have hlt : i < entries.length := by omega
    have hlt' : i < (entries.rotate start).length := by rwa [List.length_rotate]
    rw [walk, getElem?_add_mod hlt, List.getElem?_eq_getElem hlt',
      List.drop_eq_getElem_cons hlt', List.map_cons, collect]
    simp only
    split_ifs
    · exact ih (by omega) _
    · exact ih (by omega) _
    · rfl

/-- **The replica list is an initial segment of the nodes in the order in which the clockwise walk
first meets them.** -/
theorem lookupReplicaIndices_eq (hsorted : ring.entries.Pairwise RingEntry.le)
    (replicationFactor : ℕ+) :
    ring.lookupReplicaIndices key replicationFactor =
      ((ring.walkOf key).map RingEntry.nodeIndex).eraseDups.take
        (min replicationFactor ring.nodeCount) := by
  rw [lookupReplicaIndices, walk_eq_collect _ _ _ (Nat.zero_add _), List.drop_zero,
    rotate_ringStartIndex hsorted, collect_nil_eq]

/-- The walk starts at the entry that owns the key. -/
theorem walkOf_eq_cons (hsorted : ring.entries.Pairwise RingEntry.le) :
    ∃ rest, ring.walkOf key = ring.startEntry key :: rest := by
  have hlt := ring.ringStartIndex_lt key
  have hpos : 0 < ring.entries.length := by omega
  have hhead : (ring.walkOf key)[0]? = some (ring.startEntry key) := by
    rw [← rotate_ringStartIndex hsorted, List.getElem?_rotate hpos, Nat.zero_add,
      Nat.mod_eq_of_lt hlt]
    exact List.getElem?_eq_getElem hlt
  cases hwalk : ring.walkOf key with
  | nil => rw [hwalk] at hhead; cases hhead
  | cons e rest =>
    rw [hwalk] at hhead
    cases hhead
    exact ⟨rest, rfl⟩

end HashRing

/-! ### The owner of a hash -/

/-- `e` is the least entry at or above the hash `h`, or the least of all if there is none. -/
def OwnerEntry (entries : List RingEntry) (h : ℕ) (e : RingEntry) : Prop :=
  e ∈ entries ∧
    (h ≤ e.hash ∧ (∀ e' ∈ entries, h ≤ e'.hash → e.le e') ∨
      (∀ e' ∈ entries, e'.hash < h) ∧ ∀ e' ∈ entries, e.le e')

/-- The head of a sorted list is its least element. -/
theorem head_le {e : RingEntry} {rest : List RingEntry}
    (hsorted : (e :: rest).Pairwise RingEntry.le) {e' : RingEntry} (he' : e' ∈ e :: rest) :
    e.le e' := by
  rcases List.mem_cons.1 he' with rfl | he'
  · exact refl_of RingEntry.le e'
  · exact (List.pairwise_cons.1 hsorted).1 e' he'

/-- The clockwise walk starts at the owner. -/
theorem ownerEntry_of_clockwise {entries rest : List RingEntry} {h : ℕ} {e : RingEntry}
    (hsorted : entries.Pairwise RingEntry.le) (hwalk : clockwise h entries = e :: rest) :
    OwnerEntry entries h e := by
  have hmem : e ∈ entries :=
    (clockwise_perm hsorted).mem_iff.1 (hwalk ▸ List.mem_cons_self)
  refine ⟨hmem, ?_⟩
  unfold clockwise at hwalk
  cases hhigh : high h entries with
  | nil =>
    rw [hhigh, List.nil_append] at hwalk
    have hbelow : ∀ e' ∈ entries, e'.hash < h := by
      intro e' he'
      by_contra hnot
      have : e' ∈ high h entries := mem_high.2 ⟨he', not_lt.1 hnot⟩
      rw [hhigh] at this
      cases this
    refine Or.inr ⟨hbelow, fun e' he' => ?_⟩
    exact head_le (hwalk ▸ sorted_low hsorted) (hwalk ▸ mem_low.2 ⟨he', hbelow e' he'⟩)
  | cons e₀ above =>
    rw [hhigh, List.cons_append] at hwalk
    cases hwalk
    have habove : e ∈ high h entries := hhigh ▸ List.mem_cons_self
    refine Or.inl ⟨(mem_high.1 habove).2, fun e' he' hle => ?_⟩
    exact head_le (hhigh ▸ sorted_high hsorted) (hhigh ▸ mem_high.2 ⟨he', hle⟩)

/-! ### The ring of a node list -/

namespace HashRing

section New

variable {nodes : List HashRingNode} {hne : nodes ≠ []} {virtualNodesPerNode : ℕ+}
  {hashFn : JsString → ℕ} {key : JsString}

theorem sorted_new : (new nodes hne virtualNodesPerNode hashFn).entries.Pairwise RingEntry.le :=
  sorted_buildRingEntries _ _ _

/-- The nodes in the order in which the clockwise walk of a key first meets them. -/
def nodesMet (ring : HashRing) (key : JsString) : List ℕ :=
  ((ring.walkOf key).map RingEntry.nodeIndex).eraseDups

theorem nodup_nodesMet (ring : HashRing) (key : JsString) : (ring.nodesMet key).Nodup :=
  nodup_eraseDups _

/-- The walk meets every node of the list, each having a virtual node. -/
theorem mem_nodesMet {n : ℕ} : n ∈ (new nodes hne virtualNodesPerNode hashFn).nodesMet key ↔
    n ∈ nodes.map HashRingNode.nodeIndex := by
  rw [nodesMet, List.mem_eraseDups, List.mem_map, List.mem_map]
  constructor
  · rintro ⟨e, he, rfl⟩
    obtain ⟨node, hnode, v, -, rfl⟩ :=
      mem_buildRingEntries.1 ((clockwise_perm sorted_new).mem_iff.1 he)
    exact ⟨node, hnode, rfl⟩
  · rintro ⟨node, hnode, rfl⟩
    exact ⟨⟨hashFn (node.nodeId ++ js "#" ++ decimal 0), node.nodeIndex⟩,
      (clockwise_perm sorted_new).mem_iff.2
        (mem_buildRingEntries.2 ⟨node, hnode, 0, virtualNodesPerNode.pos, rfl⟩), rfl⟩

theorem length_nodesMet_le :
    ((new nodes hne virtualNodesPerNode hashFn).nodesMet key).length ≤ nodes.length := by
  rw [← List.length_map HashRingNode.nodeIndex]
  exact ((nodup_nodesMet _ key).subperm fun n hn => mem_nodesMet.1 hn).length_le

theorem length_nodesMet (hdistinct : (nodes.map HashRingNode.nodeIndex).Nodup) :
    ((new nodes hne virtualNodesPerNode hashFn).nodesMet key).length = nodes.length := by
  rw [← List.length_map HashRingNode.nodeIndex]
  exact ((List.perm_ext_iff_of_nodup (nodup_nodesMet _ key) hdistinct).2
    fun n => mem_nodesMet).length_eq

/-- With the bound on the target spelled out, the replica list just takes as many as it should. -/
theorem lookupReplicaIndices_new (replicationFactor : ℕ+) :
    (new nodes hne virtualNodesPerNode hashFn).lookupReplicaIndices key replicationFactor =
      ((new nodes hne virtualNodesPerNode hashFn).nodesMet key).take replicationFactor := by
  rw [lookupReplicaIndices_eq sorted_new, ← nodesMet, ← List.take_take]
  have hle : ((new nodes hne virtualNodesPerNode hashFn).nodesMet key).length ≤ nodes.length :=
    length_nodesMet_le
  have hall := List.take_of_length_le hle
  rw [show (new nodes hne virtualNodesPerNode hashFn).nodeCount = nodes.length from rfl, hall]

/-- The owner of a key is the first node met. -/
theorem nodesMet_eq_cons {ring : HashRing} (hsorted : ring.entries.Pairwise RingEntry.le)
    (key : JsString) : ∃ others, ring.nodesMet key = ring.lookup key :: others := by
  obtain ⟨rest, hwalk⟩ := walkOf_eq_cons hsorted
  rw [nodesMet, hwalk, List.map_cons, List.eraseDups_cons]
  exact ⟨_, rfl⟩

end New

/-- **The ring search equals its definition.** The owner of a key is the owner of the least entry at
or above its hash, or of the least entry of all; the replica list starts with it, and lists as many
distinct nodes as asked for and available, in the order in which they are first met clockwise from
that entry; asking for one more only extends the list. -/
theorem search_correct (nodes : List HashRingNode) (hne : nodes ≠ [])
    (hdistinct : (nodes.map HashRingNode.nodeIndex).Nodup) (virtualNodesPerNode : ℕ+)
    (hashFn : JsString → ℕ) (key : JsString) (replicationFactor : ℕ+) :
    let ring := new nodes hne virtualNodesPerNode hashFn
    let replicas := ring.lookupReplicaIndices key replicationFactor
    (∃ e rest start, OwnerEntry ring.entries (hashFn key) e ∧ ring.lookup key = e.nodeIndex ∧
      ring.entries.rotate start = e :: rest ∧
      replicas = ((e :: rest).map RingEntry.nodeIndex).eraseDups.take replicationFactor) ∧
    replicas.head? = some (ring.lookup key) ∧
    replicas.length = min (replicationFactor : ℕ) nodes.length ∧ replicas.Nodup ∧
    (∀ n ∈ replicas, n ∈ nodes.map HashRingNode.nodeIndex) ∧
    replicas <+: ring.lookupReplicaIndices key (replicationFactor + 1) := by
  intro ring replicas
  have hreplicas : replicas = (ring.nodesMet key).take replicationFactor :=
    lookupReplicaIndices_new replicationFactor
  have hsorted : ring.entries.Pairwise RingEntry.le := sorted_new
  obtain ⟨rest, hwalk⟩ := walkOf_eq_cons hsorted
  refine ⟨⟨ring.startEntry key, rest, ring.ringStartIndex key, ?_, rfl, ?_, ?_⟩, ?_, ?_, ?_, ?_, ?_⟩
  · exact ownerEntry_of_clockwise hsorted hwalk
  · rw [rotate_ringStartIndex hsorted, hwalk]
  · rw [hreplicas, nodesMet, hwalk]
  · obtain ⟨others, hcons⟩ := ring.lookupReplicaIndices_eq_cons key replicationFactor
    show (ring.lookupReplicaIndices key replicationFactor).head? = _
    rw [hcons, List.head?_cons]
  · rw [hreplicas, List.length_take, length_nodesMet hdistinct]
  · exact ring.nodup_lookupReplicaIndices key replicationFactor
  · intro n hn
    rw [hreplicas] at hn
    exact mem_nodesMet.1 (List.mem_of_mem_take hn)
  · rw [hreplicas, lookupReplicaIndices_new]
    exact List.take_prefix_take_left (by rw [PNat.add_coe]; exact Nat.le_add_right _ _)

/-- Two nodes with two virtual nodes each, under a hash function with collisions. -/
theorem search_correct_example :
    let nodes : List HashRingNode := [⟨0, js "a"⟩, ⟨1, js "b"⟩]
    let ring := new nodes (List.cons_ne_nil _ _) 2 List.length
    ring.lookupReplicaIndices (js "abcd") 2 = [0, 1] ∧
      (ring.lookupReplicaIndices (js "abcd") 2).length = min 2 nodes.length :=
  ⟨by decide, (search_correct [⟨0, js "a"⟩, ⟨1, js "b"⟩] (List.cons_ne_nil _ _) (by decide) 2
    List.length (js "abcd") 2).2.2.1⟩

end HashRing

end DistributedCache
