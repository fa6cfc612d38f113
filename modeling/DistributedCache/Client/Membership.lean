import DistributedCache.Client.ClusterClient
import DistributedCache.Replication.Reorder

/-!
# The lists that client and nodes accept

`validateAndNormalizeNodes` and `normalizeClusterNodes` check the same entries one after the other,
but only the nodes refuse an id that occurs twice (`client_accepts_iff`, `nodes_accept_iff`). On any
other list they agree (`lists_agree_iff`). In the ring of a client that has accepted two nodes with
one id, every entry of the second is covered by one of the first (`Shadowed`), and the second owns
no key (`Shadowed.lookup_ne`).
-/

namespace DistributedCache

section Acceptance

variable {what : JsString} {seen : List JsString} {entry : NodeAddressInput}
  {inputs : List NodeAddressInput}

theorem checkAddress_ok_iff :
    (∃ port, checkAddress what seen entry = .ok port) ↔ entry.Valid ∧ entry.address ∉ seen := by
  constructor
  · rintro ⟨port, h⟩
    obtain ⟨hhost, hport, hseen⟩ := checkAddress_eq_ok h
    refine ⟨⟨hhost, port, hport⟩, ?_⟩
    rwa [NodeAddressInput.address, hport, Option.getD_some]
  · rintro ⟨hvalid, hnew⟩
    obtain ⟨port, h, -⟩ : ∃ port, checkAddress what seen entry = .ok port ∧ _ :=
      checkAddress_of_valid hvalid hnew
    exact ⟨port, h⟩

/-- What the loop of the client accepts: valid entries with new and distinct addresses. -/
theorem validateFrom_ok_iff : (∃ nodes, validateFrom seen inputs = .ok nodes) ↔
    (∀ entry ∈ inputs, entry.Valid ∧ entry.address ∉ seen) ∧
      (inputs.map NodeAddressInput.address).Nodup := by
  induction inputs generalizing seen with
  | nil =>
    exact ⟨fun _ => ⟨fun _ h => absurd h List.not_mem_nil, List.nodup_nil⟩, fun _ => ⟨[], rfl⟩⟩
  | cons entry inputs ih =>
    have hhead : (∃ port, checkAddress (js "node") seen entry = .ok port) ↔ _ := checkAddress_ok_iff
    rw [List.forall_mem_cons, List.map_cons, List.nodup_cons, ← hhead]
    cases hcheck : checkAddress (js "node") seen entry with
    | error e =>
      simp only [validateFrom, hcheck, reduceCtorEq, exists_false, false_and]
    | ok port =>
      obtain ⟨-, hport, -⟩ := checkAddress_eq_ok hcheck
      have haddress : entry.address = addressKey entry.host port := by
        rw [NodeAddressInput.address, hport, Option.getD_some]
      have hrest : (∃ nodes, validateFrom seen (entry :: inputs) = .ok nodes) ↔
          ∃ nodes, validateFrom (entry.address :: seen) inputs = .ok nodes := by
        simp only [validateFrom, hcheck, haddress, map_eq_ok_iff]
        constructor
        · rintro ⟨-, others, h, -⟩
          exact ⟨others, h⟩
        · rintro ⟨others, h⟩
          exact ⟨_, others, h, rfl⟩
      rw [hrest, ih]
      constructor
      · rintro ⟨hall, hnodup⟩
        refine ⟨⟨⟨port, rfl⟩, fun e he => ⟨(hall e he).1, fun hseen => ?_⟩⟩, fun hmem => ?_, hnodup⟩
        · exact (hall e he).2 (List.mem_cons_of_mem _ hseen)
        · obtain ⟨e, he, heq⟩ := List.mem_map.1 hmem
          exact (hall e he).2 (heq ▸ List.mem_cons_self)
      · rintro ⟨⟨-, hall⟩, hnew, hnodup⟩
        refine ⟨fun e he => ⟨(hall e he).1, fun hseen => ?_⟩, hnodup⟩
        rcases List.mem_cons.1 hseen with heq | hseen
        · exact hnew (List.mem_map.2 ⟨e, he, heq⟩)
        · exact (hall e he).2 hseen

/-- The addresses of the accepted nodes are those of the entries. -/
theorem addresses_of_validated {nodes : List NormalizedNode}
    (h : validateFrom seen inputs = .ok nodes) :
    nodes.map (fun n => addressKey n.host n.port) = inputs.map NodeAddressInput.address := by
  induction inputs generalizing seen nodes with
  | nil =>
    cases h
    rfl
  | cons entry inputs ih =>
    rw [validateFrom] at h
    cases hcheck : checkAddress (js "node") seen entry with
    | error e =>
      rw [hcheck] at h
      cases h
    | ok port =>
      rw [hcheck] at h
      obtain ⟨others, hrest, rfl⟩ := map_eq_ok_iff.1 h
      obtain ⟨-, hport, -⟩ := checkAddress_eq_ok hcheck
      rw [List.map_cons, List.map_cons, ih hrest, NodeAddressInput.address, hport, Option.getD_some]

/-- **What the client accepts**: a non-empty list of valid entries with distinct addresses. -/
theorem client_accepts_iff : (∃ nodes, validateAndNormalizeNodes inputs = .ok nodes) ↔
    inputs ≠ [] ∧ (∀ entry ∈ inputs, entry.Valid) ∧
      (inputs.map NodeAddressInput.address).Nodup := by
  unfold validateAndNormalizeNodes
  split_ifs with hnil
  · simp [hnil]
  · rw [validateFrom_ok_iff]
    simp only [List.not_mem_nil, not_false_eq_true, and_true, ne_eq, hnil, true_and]

/-- **What the nodes accept**: such a list with distinct ids. -/
theorem nodes_accept_iff : (∃ nodes, normalizeClusterNodes inputs = .ok nodes) ↔
    (inputs ≠ [] ∧ (∀ entry ∈ inputs, entry.Valid) ∧
      (inputs.map NodeAddressInput.address).Nodup) ∧
      (inputs.map NodeAddressInput.nodeId).Nodup := by
  constructor
  · rintro ⟨nodes, h⟩
    obtain ⟨hloop, -⟩ := normalizeClusterNodes_eq_ok h
    obtain ⟨hvalid, haddr, -, hids⟩ := normalizeFrom_inputs hloop
    have hne : inputs ≠ [] := by
      rintro rfl
      cases h
    exact ⟨⟨hne, hvalid, haddr⟩, hids ▸ (normalizeFrom_spec hloop).2.2.1⟩
  · rintro ⟨⟨hne, hvalid, haddr⟩, hids⟩
    rw [normalizeClusterNodes, if_neg hne]
    exact normalizeFrom_of_valid 0 hvalid haddr (fun _ _ => List.not_mem_nil) hids
      fun _ _ => List.not_mem_nil

end Acceptance

/-! ### Shadowed nodes -/

/-- Every entry of node `i` has the hash of an entry of node `j`, which comes before it. -/
def Shadowed (entries : List RingEntry) (i j : ℕ) : Prop :=
  j < i ∧ ∀ e ∈ entries, e.nodeIndex = i → ∃ e' ∈ entries, e'.nodeIndex = j ∧ e'.hash = e.hash

/-- **A shadowed node owns no key.** -/
theorem Shadowed.lookup_ne {ring : HashRing} {i j : ℕ} (h : Shadowed ring.entries i j)
    (hsorted : ring.entries.Pairwise RingEntry.le) (key : JsString) : ring.lookup key ≠ i := by
  obtain ⟨hlt, hcovered⟩ := h
  obtain ⟨rest, hwalk⟩ : ∃ rest, ring.walkOf key = _ :: rest := ring.walkOf_eq_cons hsorted
  obtain ⟨hmem, hleast⟩ := ownerEntry_of_clockwise hsorted hwalk
  intro howner
  obtain ⟨e', he', hindex, hhash⟩ := hcovered _ hmem howner
  have hle : (ring.startEntry key).le e' := by
    rcases hleast with ⟨hat, habove⟩ | ⟨-, hall⟩
    · exact habove e' he' (hhash ▸ hat)
    · exact hall e' he'
  unfold RingEntry.le at hle
  rw [if_neg (not_not.2 hhash.symm), hindex] at hle
  exact absurd (howner ▸ hle) (not_le.2 hlt)

/-- The second of two nodes with one id is shadowed, whatever the hash function. -/
theorem shadowed_of_id_eq {nodes : List NormalizedNode} {i j : ℕ} {n n' : NormalizedNode}
    (hij : i < j) (hi : nodes[i]? = some n) (hj : nodes[j]? = some n') (hid : n.id = n'.id)
    (virtualNodesPerNode : ℕ) (hashFn : JsString → ℕ) :
    Shadowed (buildRingEntries (ClusterClient.ringNodes nodes) virtualNodesPerNode hashFn) j i := by
  refine ⟨hij, fun e he hindex => ?_⟩
  obtain ⟨node, hnode, v, hv, rfl⟩ := mem_buildRingEntries.1 he
  obtain ⟨k, hk⟩ := List.mem_iff_getElem?.1 hnode
  rw [ClusterClient.ringNodes, List.getElem?_mapIdx, Option.map_eq_some_iff] at hk
  obtain ⟨m, hm, rfl⟩ := hk
  obtain rfl : k = j := hindex
  rw [hj] at hm
  cases hm
  refine ⟨_, mem_buildRingEntries.2 ⟨⟨i, n.id⟩, ?_, v, hv, rfl⟩, rfl, by rw [hid]⟩
  refine List.mem_iff_getElem?.2 ⟨i, ?_⟩
  rw [ClusterClient.ringNodes, List.getElem?_mapIdx, hi]
  rfl

/-- **A client never routes a key to the second of two nodes with one id.** -/
theorem duplicate_owns_nothing {c : ClusterClient} {options : ClusterClientOptions}
    {defaultHash : JsString → ℕ} (h : ClusterClient.new defaultHash options = .ok c) {i j : ℕ}
    {n n' : NormalizedNode} (hij : i < j) (hi : c.nodes[i]? = some n) (hj : c.nodes[j]? = some n')
    (hid : n.id = n'.id) (key : JsString) : c.ring.lookup key ≠ j := by
  unfold ClusterClient.new at h
  split at h
  · cases h
  · split_ifs at h with hne
    cases h
    exact (shadowed_of_id_eq hij hi hj hid _ _).lookup_ne (sorted_buildRingEntries _ _ _) key

/-- **No node of an accepted list is shadowed**, unless labels of two nodes have the same hash. -/
theorem Topology.not_shadowed {t : Topology} (hapart : t.LabelsApart) {n : ClusterNode}
    (hn : n ∈ t.nodes) (j : ℕ) : ¬ Shadowed t.ring.entries n.nodeIndex j := by
  rintro ⟨hlt, hcovered⟩
  obtain ⟨e', he', hindex, hhash⟩ := hcovered _ (mem_buildRingEntries.2
    ⟨n.ringNode, List.mem_map_of_mem hn, 0, t.virtualNodesPerNode.pos, rfl⟩) rfl
  obtain ⟨node, hnode, v, hv, rfl⟩ := mem_buildRingEntries.1 he'
  obtain ⟨n', hn', rfl⟩ := List.mem_map.1 hnode
  have hids : n'.id = n.id := by
    by_contra hne
    exact hapart n' hn' n hn hne v hv 0 t.virtualNodesPerNode.pos hhash
  have hsame : n' = n := List.inj_on_of_nodup_map t.nodup_ids hn' hn hids
  rw [hsame] at hindex
  exact absurd hindex.symm (ne_of_lt hlt)

/-! ### Agreement -/

/-- Client and nodes accept the list alike, and then with the same ids, hosts and ports; ids and
addresses are distinct, and in a ring of these nodes where no two of them have labels with the same
hash, none is shadowed by another one. -/
def ListsAgree (inputs : List NodeAddressInput) : Prop :=
  ((∃ nodes, validateAndNormalizeNodes inputs = .ok nodes) ↔
      ∃ nodes, normalizeClusterNodes inputs = .ok nodes) ∧
    ∀ clientNodes nodes, validateAndNormalizeNodes inputs = .ok clientNodes →
      normalizeClusterNodes inputs = .ok nodes →
      clientNodes = nodes.map ClusterNode.normalized ∧
      (clientNodes.map NormalizedNode.id).Nodup ∧
      (clientNodes.map fun n => addressKey n.host n.port).Nodup ∧
      ∀ t : Topology, t.inputs = inputs → t.LabelsApart →
        ∀ n ∈ nodes, ∀ j, ¬ Shadowed t.ring.entries n.nodeIndex j

/-- What a list accepted by the nodes looks like to the client. -/
theorem agree_of_accepted {inputs : List NodeAddressInput} {nodes : List ClusterNode}
    (h : normalizeClusterNodes inputs = .ok nodes) :
    validateAndNormalizeNodes inputs = .ok (nodes.map ClusterNode.normalized) :=
  Topology.validate_inputs ⟨fun _ => 0, inputs, nodes, h, 1, 1⟩

/-- **When the lists agree**: whenever the client refuses the list too, or no id occurs twice. -/
theorem lists_agree_iff (inputs : List NodeAddressInput) :
    ListsAgree inputs ↔
      inputs = [] ∨ (∃ entry ∈ inputs, ¬ entry.Valid) ∨
        ¬ (inputs.map NodeAddressInput.address).Nodup ∨
        (inputs.map NodeAddressInput.nodeId).Nodup := by
  constructor
  · rintro ⟨haccept, -⟩
    by_contra hnot
    rw [not_or, not_or, not_or, not_not] at hnot
    obtain ⟨hne, hvalid, haddr, hids⟩ := hnot
    have hclient := client_accepts_iff.2
      ⟨hne, fun e he => not_not.1 fun hinvalid => hvalid ⟨e, he, hinvalid⟩, haddr⟩
    exact hids (nodes_accept_iff.1 (haccept.1 hclient)).2
  · intro h
    refine ⟨⟨fun hclient => ?_, fun ⟨nodes, hnodes⟩ => ⟨_, agree_of_accepted hnodes⟩⟩, ?_⟩
    · obtain ⟨hne, hvalid, haddr⟩ := client_accepts_iff.1 hclient
      have hids := ((h.resolve_left hne).resolve_left fun ⟨e, he, hinvalid⟩ =>
        hinvalid (hvalid e he)).resolve_left (not_not.2 haddr)
      exact nodes_accept_iff.2 ⟨⟨hne, hvalid, haddr⟩, hids⟩
    · intro clientNodes nodes hclient hnodes
      have hids := (normalizeFrom_spec (normalizeClusterNodes_eq_ok hnodes).1).2.2.1
      obtain ⟨-, -, haddr⟩ := client_accepts_iff.1 ⟨_, hclient⟩
      have hsame := hclient.symm.trans (agree_of_accepted hnodes)
      cases hsame
      refine ⟨rfl, ?_, ?_, fun t ht hapart n hn j => ?_⟩
      · rw [List.map_map]
        exact hids
      · unfold validateAndNormalizeNodes at hclient
        split_ifs at hclient
        rwa [addresses_of_validated hclient]
      · have haccepted := t.accepted
        rw [ht, hnodes] at haccepted
        cases haccepted
        exact Topology.not_shadowed hapart hn j

/-- Two entries with one id at different addresses: the client runs with them, the nodes refuse. -/
theorem lists_disagree :
    validateAndNormalizeNodes [⟨some (js "a"), js "h", .int 1⟩, ⟨some (js "a"), js "h", .int 2⟩] =
        .ok [⟨js "a", js "h", 1⟩, ⟨js "a", js "h", 2⟩] ∧
      normalizeClusterNodes [⟨some (js "a"), js "h", .int 1⟩, ⟨some (js "a"), js "h", .int 2⟩] =
        .error (js "duplicate cluster node id a") ∧
      ¬ ListsAgree [⟨some (js "a"), js "h", .int 1⟩, ⟨some (js "a"), js "h", .int 2⟩] := by
  refine ⟨by decide, by decide, fun h => ?_⟩
  obtain ⟨nodes, hnodes⟩ := h.1.1 ⟨[⟨js "a", js "h", 1⟩, ⟨js "a", js "h", 2⟩], by decide⟩
  have hrefused : normalizeClusterNodes
      [⟨some (js "a"), js "h", .int 1⟩, ⟨some (js "a"), js "h", .int 2⟩] =
        .error (js "duplicate cluster node id a") := by decide
  rw [hrefused] at hnodes
  cases hnodes

end DistributedCache
