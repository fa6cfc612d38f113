import DistributedCache.Lib.System
import DistributedCache.Node.Mutation

/-!
# A cluster of nodes

The nodes of one topology with a first-in-first-out channel of request lines from every node to
every other, as the engine's clients keep them while nothing fails.

* `ClusterState`, `absorb`: what serving a line at a node does to the cluster;
* `ClusterEvent`, `clusterSystem`: a client's `SET` or `DEL` at the primary of its key, the delivery
  of the oldest line of a channel, and the release of a settled mutation, in any order;
* `client_step`, `deliver_step`: all that the first two can do, and `client_enabled`,
  `deliver_enabled`: that they can do it.

An event carries the clock readings of the node it runs on.
-/

namespace DistributedCache

open CacheStore

/-- The nodes, and the lines in flight from one to another, oldest first. -/
structure ClusterState where
  node : ℕ → CacheNode
  channel : ℕ → ℕ → List JsString

namespace Topology

variable (t : Topology)

/-- The configuration of the node at a position of the list. -/
def configAt (i : ℕ) : ClusterReplicationConfig where
  nodeId := ((t.nodes[i]?).map ClusterNode.id).getD []
  myNodeIndex := i
  nodes := t.nodes
  replicationFactor := t.factor
  virtualNodesPerNode := t.virtualNodesPerNode
  ring := t.ring

/-- The nodes that hold a key: its owner and the replicas. -/
def replicas (key : JsString) : List ℕ := t.ring.lookupReplicaIndices key t.factor

/-- The primary of a key. -/
def primary (key : JsString) : ℕ := t.ring.lookup key

theorem primary_mem_replicas (key : JsString) : t.primary key ∈ t.replicas key :=
  t.ring.lookup_mem key t.factor

end Topology

/-- Serving a line at node `p`: the node changes, and what it sends joins the channels. -/
def ClusterState.absorb (s : ClusterState) (p : ℕ) (served : Served) : ClusterState where
  node := Function.update s.node p served.node
  channel := Function.update s.channel p fun q =>
    s.channel p q ++ (served.sends.filter (·.1 = q)).map fun send => trim send.2

section Absorb

variable (s : ClusterState) {p i : ℕ} (served : Served)

@[simp] theorem ClusterState.absorb_node_self : (s.absorb p served).node p = served.node := by
  simp only [absorb, Function.update_self]

theorem ClusterState.absorb_node_of_ne (h : i ≠ p) : (s.absorb p served).node i = s.node i := by
  simp only [absorb, Function.update_of_ne h]

theorem ClusterState.absorb_channel_self (q : ℕ) : (s.absorb p served).channel p q =
    s.channel p q ++ (served.sends.filter (·.1 = q)).map fun send => trim send.2 := by
  unfold absorb
  simp only [Function.update_self]

theorem ClusterState.absorb_channel_of_ne (h : i ≠ p) (q : ℕ) :
    (s.absorb p served).channel i q = s.channel i q := by
  unfold absorb
  simp only [Function.update_of_ne h]

/-- Where nothing is sent no channel changes. -/
theorem ClusterState.absorb_channel_of_nil (h : served.sends = []) (i q : ℕ) :
    (s.absorb p served).channel i q = s.channel i q := by
  by_cases hi : i = p
  · rw [hi, absorb_channel_self, h, List.filter_nil, List.map_nil, List.append_nil]
  · exact s.absorb_channel_of_ne served hi q

end Absorb

/-- Leave `rest` in the channel from `p` to `q`. -/
def ClusterState.pop (s : ClusterState) (p q : ℕ) (rest : List JsString) : ClusterState where
  node := s.node
  channel := Function.update s.channel p (Function.update (s.channel p) q rest)

theorem ClusterState.pop_channel (s : ClusterState) (p q : ℕ) (rest : List JsString) (i j : ℕ) :
    (s.pop p q rest).channel i j = if i = p ∧ j = q then rest else s.channel i j := by
  unfold pop
  by_cases hi : i = p
  · subst hi
    by_cases hj : j = q
    · subst hj
      simp only [Function.update_self, and_self, if_true]
    · simp only [Function.update_self, Function.update_of_ne hj, hj, and_false, if_false]
  · simp only [Function.update_of_ne hi, hi, false_and, if_false]

/-- What can happen. -/
inductive ClusterEvent
  | client (p : ℕ) (clock : Clock) (line : JsString)
  | deliver (p q : ℕ) (clock : Clock)
  | release (p : ℕ)

/-- The mutation that a client's line asks for. -/
def lineMutation (num : Numerals) (line : JsString) : Option InnerCommand :=
  match parseCommand num (dropCr line) with
  | .ok command => command.mutation
  | .error _ => none

/-- Node `p` has room for one more pending mutation, so that it drops none. -/
def HasRoom (node : CacheNode) : Prop :=
  ∀ e, node.replication = some e → e.pending < e.maxPending

/-- One of the node's mutations has settled. -/
def CacheNode.release (node : CacheNode) : CacheNode :=
  { node with replication := node.replication.map ReplicationEngine.release }

/-- The steps of the cluster. A client's line is a `SET` or `DEL` within the line limit, at the
primary of its key, and nothing is dropped. -/
def ClusterStep (num : Numerals) (t : Topology) (s : ClusterState) :
    ClusterEvent → ClusterState → Prop
  | .client p clock line, s' =>
      (∃ m, lineMutation num line = some m ∧ t.primary m.key = p) ∧
      byteLength (dropCr line) ≤ (s.node p).maxLineBytes ∧ HasRoom (s.node p) ∧
      ∃ served, serveLine num (s.node p) clock line = some served ∧ s' = s.absorb p served
  | .deliver p q clock, s' =>
      ∃ text rest served, s.channel p q = text :: rest ∧
        serveLine num (s.node q) clock text = some served ∧
        s' = (s.pop p q rest).absorb q served
  | .release p, s' =>
      s' = { s with node := Function.update s.node p (s.node p).release }

/-- All nodes start with empty unlimited stores and nothing in flight. -/
def ClusterState.start (t : Topology) : ClusterState where
  node i := .new (CacheStore.new none none) (t.configAt i)
  channel _ _ := []

/-- The cluster as a transition system. -/
def clusterSystem (num : Numerals) (t : Topology) : System ClusterState ClusterEvent where
  init := .start t
  step := ClusterStep num t

variable {num : Numerals} {t : Topology} {s s' : ClusterState} {p q : ℕ} {clock : Clock}
  {line : JsString} {node : CacheNode} {m : InnerCommand}

/-- What stays true of the node at position `i`: an unlimited store in good order, the default line
limit, and an open engine with the configuration of its position. -/
structure Sound (t : Topology) (i : ℕ) (node : CacheNode) : Prop where
  free : Free node.store
  limit : node.maxLineBytes = DEFAULT_MAX_LINE_BYTES
  engine : ∃ e, node.replication = some e ∧ e.config = t.configAt i ∧ e.closed = false

/-- The peers of a key at its primary are the other replicas. -/
theorem mem_peers {e : ReplicationEngine} {key : JsString} (he : e.config = t.configAt p) :
    q ∈ e.peers key ↔ q ∈ t.replicas key ∧ q ≠ p := by
  rw [ReplicationEngine.mem_peers, he]
  rfl

/-- Sending one line to every peer puts it once into each of their channels. -/
theorem filter_sends {peers : List ℕ} (hnodup : peers.Nodup) (text : JsString) (q : ℕ) :
    ((peers.map fun index => (index, text)).filter (·.1 = q)).map (fun send => trim send.2) =
      if q ∈ peers then [trim text] else [] := by
  rw [List.filter_map, List.map_map]
  have hfilter : peers.filter ((fun send : ℕ × JsString => decide (send.1 = q)) ∘
      fun index => (index, text)) = if q ∈ peers then [q] else [] := by
    have heq : ((fun send : ℕ × JsString => decide (send.1 = q)) ∘ fun index => (index, text)) =
        fun index => index == q := by
      funext index
      exact (beq_eq_decide index q).symm
    rw [heq]
    split_ifs with hq
    · rw [List.filter_beq, List.count_eq_one_of_mem hnodup hq]
      rfl
    · rw [List.filter_beq, List.count_eq_zero_of_not_mem hq]
      rfl
  rw [hfilter]
  split_ifs <;> rfl

/-- Replicating a mutation schedules its line. -/
theorem replicate_sends {e : ReplicationEngine} (hopen : e.closed = false)
    (hroom : e.pending < e.maxPending) (hm : m.normal = m) :
    (e.replicate num m).2 =
      (e.peers m.key).map fun index => (index, trimEnd (formatReplCommand num m)) := by
  cases m with
  | set cmd => exact e.schedule_sends hopen hroom _ _
  | del key => exact e.schedule_sends hopen hroom _ _
  | delete key => cases hm

theorem wellFormed_of_lineMutation (h : lineMutation num line = some m) :
    m.WellFormed num ∧ m.normal = m := by
  unfold lineMutation at h
  cases hparse : parseCommand num (dropCr line) with
  | error e => rw [hparse] at h; cases h
  | ok command =>
    rw [hparse] at h
    exact ⟨wellFormed_of_mutation (wellFormed_of_parse hparse) h, normal_of_mutation h⟩

/-- A client's mutation at its primary is executed there and scheduled for every other replica. -/
theorem serve_client (hnode : Sound t p node) (hm : lineMutation num line = some m)
    (hp : t.primary m.key = p) (hlen : byteLength (dropCr line) ≤ node.maxLineBytes)
    (hroom : HasRoom node) (clock : Clock) :
    ∃ (served : Served) (e : ReplicationEngine), serveLine num node clock line = some served ∧
      Sound t p served.node ∧ e.config = t.configAt p ∧
      served.sends = (e.peers m.key).map (fun q => (q, trimEnd (formatReplCommand num m))) ∧
      ∀ k, served.node.store.store.get? k =
        if m.Accepted ∧ k = m.key then m.entry clock.head else node.store.store.get? k := by
  obtain ⟨hw, hnormal⟩ := wellFormed_of_lineMutation hm
  obtain ⟨e, he, hconfig, hopen⟩ := hnode.engine
  unfold lineMutation at hm
  cases hparse : parseCommand num (dropCr line) with
  | error message => rw [hparse] at hm; cases hm
  | ok command =>
    rw [hparse] at hm
    have hprimary : isPrimaryForKey e.config.ring m.key e.config.myNodeIndex = true := by
      rw [hconfig]
      exact decide_eq_true hp
    obtain ⟨reply, s', c', hrun, hs', hget⟩ := executeRepl_spec hnode.free clock hw
    refine ⟨⟨some reply, ⟨s', some (e.replicate num m).1, node.maxLineBytes⟩,
      (e.replicate num m).2, c'⟩, e, ?_, ⟨hs', hnode.limit, _, rfl, ?_, ?_⟩, hconfig,
      replicate_sends hopen (hroom e he) hnormal, hget⟩
    · have hdispatch : dispatchCommand num node clock command =
          (executeCommand num node.store clock command).map fun r =>
            let sent := CacheNode.fanOut num { node with store := r.2.1 } command
            ⟨some r.1, sent.1, sent.2, r.2.2⟩ := by
        cases command with
        | repl inner => cases hm
        | ping | keyed | set => rfl
      rw [serveLine_of_parse hlen hparse, hdispatch, executeCommand_eq_repl hm, hrun]
      simp only [Option.map_some, CacheNode.fanOut, he, hm, hprimary, if_true]
    · exact (replicate_config e m).1.trans hconfig
    · exact (replicate_config e m).2.trans hopen

/-- **All that a client's step does.** -/
theorem client_step (hnode : Sound t p (s.node p))
    (h : ClusterStep num t s (.client p clock line) s') :
    ∃ m, lineMutation num line = some m ∧ t.primary m.key = p ∧ Sound t p (s'.node p) ∧
      (∀ i, i ≠ p → s'.node i = s.node i) ∧
      (∀ k, (s'.node p).store.store.get? k =
        if m.Accepted ∧ k = m.key then m.entry clock.head else (s.node p).store.store.get? k) ∧
      ∀ p' q, s'.channel p' q =
        if p' = p ∧ q ∈ t.replicas m.key ∧ q ≠ p then s.channel p' q ++ [replLine num m]
        else s.channel p' q := by
  obtain ⟨⟨m, hm, hp⟩, hlen, hroom, served, hserve, rfl⟩ := h
  obtain ⟨served', e, hserve', hsound, hconfig, hsends, hget⟩ :=
    serve_client hnode hm hp hlen hroom clock
  obtain rfl : served = served' := Option.some.inj (hserve.symm.trans hserve')
  refine ⟨m, hm, hp, ?_, fun i hi => s.absorb_node_of_ne served hi, fun k => ?_, fun p' q => ?_⟩
  · rw [s.absorb_node_self]
    exact hsound
  · rw [s.absorb_node_self]
    exact hget k
  · by_cases hp' : p' = p
    · subst hp'
      rw [s.absorb_channel_self, hsends, filter_sends (e.nodup_peers m.key), replLine]
      by_cases hq : q ∈ t.replicas m.key ∧ q ≠ p'
      · rw [if_pos ((mem_peers hconfig).2 hq), if_pos ⟨rfl, hq⟩]
      · rw [if_neg fun h => hq ((mem_peers hconfig).1 h), if_neg fun h => hq h.2, List.append_nil]
    · rw [if_neg fun h => hp' h.1, s.absorb_channel_of_ne served hp']

/-- **All that the delivery of a mutation's line does.** -/
theorem deliver_step {rest : List JsString} (hnode : Sound t q (s.node q))
    (hw : m.WellFormed num) (hchannel : s.channel p q = replLine num m :: rest)
    (h : ClusterStep num t s (.deliver p q clock) s') :
    Sound t q (s'.node q) ∧ (∀ i, i ≠ q → s'.node i = s.node i) ∧
      (∀ k, (s'.node q).store.store.get? k =
        if m.Accepted ∧ k = m.key then m.entry clock.head else (s.node q).store.store.get? k) ∧
      ∀ p' q', s'.channel p' q' = if p' = p ∧ q' = q then rest else s.channel p' q' := by
  obtain ⟨text, rest', served, hcons, hserve, rfl⟩ := h
  rw [hchannel] at hcons
  obtain ⟨rfl, rfl⟩ := List.cons.inj hcons
  obtain ⟨served', hserve', hsends, ⟨s₁, hs₁⟩, hfree, hget⟩ :=
    serve_replLine hnode.free hnode.limit clock hw
  obtain rfl : served = served' := Option.some.inj (hserve.symm.trans hserve')
  have hself := (s.pop p q rest).absorb_node_self (p := q) served
  refine ⟨?_, fun i hi => (s.pop p q rest).absorb_node_of_ne served hi, fun k => ?_,
    fun p' q' => ?_⟩
  · rw [hself]
    refine ⟨hfree, ?_, ?_⟩
    · rw [hs₁]
      exact hnode.limit
    · rw [hs₁]
      exact hnode.engine
  · rw [hself]
    exact hget k
  · rw [(s.pop p q rest).absorb_channel_of_nil served hsends, s.pop_channel]

/-- A primary never refuses to serve a mutation. -/
theorem client_enabled (hnode : Sound t p (s.node p)) (hm : lineMutation num line = some m)
    (hp : t.primary m.key = p) (hlen : byteLength (dropCr line) ≤ (s.node p).maxLineBytes)
    (hroom : HasRoom (s.node p)) (clock : Clock) :
    ∃ s', ClusterStep num t s (.client p clock line) s' := by
  obtain ⟨served, -, hserve, -⟩ := serve_client hnode hm hp hlen hroom clock
  exact ⟨_, ⟨m, hm, hp⟩, hlen, hroom, served, hserve, rfl⟩

/-- A mutation's line at the head of a channel can be delivered. -/
theorem deliver_enabled {rest : List JsString} (hnode : Sound t q (s.node q))
    (hw : m.WellFormed num) (hchannel : s.channel p q = replLine num m :: rest) (clock : Clock) :
    ∃ s', ClusterStep num t s (.deliver p q clock) s' := by
  obtain ⟨served, hserve, -⟩ := serve_replLine hnode.free hnode.limit clock hw
  exact ⟨_, _, rest, served, hchannel, hserve, rfl⟩

end DistributedCache
