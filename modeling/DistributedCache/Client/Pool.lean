import DistributedCache.Client.ClusterClient
import DistributedCache.Client.Close

/-!
# A cluster client at work

`packages/client/src/cluster-client.js` over the connections of `Client.Machine`: the client creates
a `CacheClient` for a node when it first needs one, and every call becomes a command of the one that
belongs to the node of its key.

* `ClusterPool`, the functions of the source on it, and `poolSystem`;
* `Pooled`: one `CacheClient` for a node and ever, each in a run of its own, and calls in the order
  of their commands; kept by every step (`step_pooled`).
-/

namespace DistributedCache

/-- What a call asks of a node. -/
inductive ClusterOp
  | keyed (op : ClientOp)
  | ping
  deriving DecidableEq, Repr

namespace ClusterOp

/-- The key that decides on the node. -/
def key : ClusterOp → Option JsString
  | .keyed op => some op.key
  | .ping => none

/-- The text written to the socket. -/
def request (num : Numerals) : ClusterOp → JsString
  | .keyed op => op.request num
  | .ping => js "PING" ++ newline

/-- The result of the method on a response that is not an error. -/
def accept : ClusterOp → Response → Except ClientError Reply
  | .keyed op, res => op.accept res
  | .ping, .pong => .ok .done
  | .ping, res => .error (unexpectedResponse (js "PING") res)

end ClusterOp

/-- A call, with the `CacheClient` and the number of the command that it became, or the error it was
refused with. -/
structure ClusterCall where
  op : ClusterOp
  place : Except ClientError (ℕ × ℕ)

/-- The state of a `ClusterClient`. The `CacheClient`s are numbered in the order of their creation;
`created` has the nodes they belong to. -/
structure ClusterPool where
  closed : Bool
  /-- `#clients`, by node -/
  clients : ℕ → Option ℕ
  created : List ℕ
  backends : ℕ → CacheClient
  calls : List ClusterCall

namespace ClusterPool

/-- A new client. -/
def new (autoReconnect : Bool) (maxReconnectAttempts : ℕ) : ClusterPool where
  closed := false
  clients _ := none
  created := []
  backends _ := .new autoReconnect maxReconnectAttempts
  calls := []

/-- `#clientForIndex`. -/
def clientForIndex (s : ClusterPool) (nodeIndex : ℕ) : ClusterPool × ℕ :=
  match s.clients nodeIndex with
  | some b => (s, b)
  | none =>
      ({ s with
          clients := Function.update s.clients nodeIndex (some s.created.length)
          created := s.created ++ [nodeIndex] }, s.created.length)

/-- Change one `CacheClient`. -/
def setBackend (s : ClusterPool) (b : ℕ) (c : CacheClient) : ClusterPool :=
  { s with backends := Function.update s.backends b c }

/-- The call is refused. -/
def refuse (s : ClusterPool) (op : ClusterOp) (err : ClientError) : ClusterPool :=
  { s with calls := s.calls ++ [⟨op, .error err⟩] }

/-- `#assertOpen` fails. -/
def closedError : ClientError := ⟨.clientClosed, js "client is closed"⟩

/-- `#withClient` with a method of `CacheClient`, which submits its command. -/
def withClient (num : Numerals) (s : ClusterPool) (nodeIndex : ℕ) (op : ClusterOp) : ClusterPool :=
  if s.closed then s.refuse op closedError
  else
    let r := s.clientForIndex nodeIndex
    { r.1.setBackend r.2 ((r.1.backends r.2).commandLine (op.request num) true) with
      calls := s.calls ++ [⟨op, .ok (r.2, (r.1.backends r.2).commands.length)⟩] }

/-- `#routeKeyed`. -/
def routeKeyed (num : Numerals) (cluster : ClusterClient) (s : ClusterPool) (op : ClientOp) :
    ClusterPool :=
  match cluster.resolveNodeIndex op.key with
  | .error err => s.refuse (.keyed op) err
  | .ok nodeIndex => s.withClient num nodeIndex (.keyed op)

/-- `ping`. -/
def ping (num : Numerals) (cluster : ClusterClient) (s : ClusterPool) : ClusterPool :=
  if s.closed then s.refuse .ping closedError
  else (List.range cluster.nodes.length).foldl (fun s i => s.withClient num i .ping) s

/-- `#clientForIndex(index).connect()`. -/
def connectNode (s : ClusterPool) (nodeIndex : ℕ) : ClusterPool :=
  let r := s.clientForIndex nodeIndex
  r.1.setBackend r.2 (r.1.backends r.2).connect

/-- `connect`. -/
def connect (cluster : ClusterClient) (s : ClusterPool) : ClusterPool :=
  if s.closed then s else (List.range cluster.nodes.length).foldl connectNode s

/-- `close`, up to its `await`. -/
def close (cluster : ClusterClient) (s : ClusterPool) : ClusterPool :=
  { s with
    closed := true
    backends := fun b =>
      if ∃ i < cluster.nodes.length, s.clients i = some b then (s.backends b).close
      else s.backends b }

/-- The rest of `close`. -/
def forget (s : ClusterPool) : ClusterPool := { s with clients := fun _ => none }

/-- How the promise of a call is settled: with the result of the method, errors wrapped by
`#wrapBackendError`. -/
def result (cluster : ClusterClient) (s : ClusterPool) (call : ClusterCall) :
    Option (Except ClientError Reply) :=
  match call.place with
  | .error err => some (.error err)
  | .ok (b, id) =>
      ((s.backends b).outcomes.lookup id).map fun r =>
        cluster.settle (s.created.getD b 0) (r.bind call.op.accept)

end ClusterPool

/-- The event is not a call of the user of a `CacheClient`. -/
def ClientEvent.Unprompted : ClientEvent → Prop
  | .submit _ _ | .connect | .close => False
  | _ => True

/-- What can happen: calls, and what happens to a `CacheClient` by itself. -/
inductive PoolEvent
  | call (op : ClientOp)
  | ping
  | connect
  | close
  | forget
  | backend (b : ℕ) (ev : ClientEvent)
  deriving DecidableEq, Repr

/-- The steps. A request is one line. -/
inductive PoolStep (num : Numerals) (cluster : ClusterClient) :
    ClusterPool → PoolEvent → ClusterPool → Prop
  | call (s : ClusterPool) (op : ClientOp) (hline : .char '\n' ∉ (op.request num).dropLast) :
      PoolStep num cluster s (.call op) (s.routeKeyed num cluster op)
  | ping (s : ClusterPool) : PoolStep num cluster s .ping (s.ping num cluster)
  | connect (s : ClusterPool) : PoolStep num cluster s .connect (s.connect cluster)
  | close (s : ClusterPool) : PoolStep num cluster s .close (s.close cluster)
  | forget (s : ClusterPool) (h : s.closed = true) : PoolStep num cluster s .forget s.forget
  | backend (s : ClusterPool) {b : ℕ} {ev : ClientEvent} {c : CacheClient}
      (hb : b < s.created.length) (hev : ev.Unprompted) (h : ClientStep num (s.backends b) ev c) :
      PoolStep num cluster s (.backend b ev) (s.setBackend b c)

/-- A cluster client and what happens to its connections as a transition system. -/
def poolSystem (num : Numerals) (cluster : ClusterClient) (autoReconnect : Bool)
    (maxReconnectAttempts : ℕ) : System ClusterPool PoolEvent where
  init := .new autoReconnect maxReconnectAttempts
  step := PoolStep num cluster

/-! ### Where a call goes -/

theorem ClusterOp.request_eq (num : Numerals) (op : ClusterOp) :
    ∃ body, op.request num = body ++ newline := by
  cases op with
  | ping => exact ⟨_, rfl⟩
  | keyed op =>
    cases op with
    | set cmd => exact ⟨_, formatSet_eq cmd⟩
    | keyed name key => exact ⟨_, rfl⟩

namespace ClusterClient

/-- The owner of a key is one of the nodes that the ring was built from. -/
theorem ring_lookup_lt {nodes : List NormalizedNode} (h : nodes ≠ []) (virtualNodesPerNode : ℕ+)
    (hash : JsString → ℕ) (key : JsString) :
    (HashRing.new (ringNodes nodes) (ringNodes_ne_nil h) virtualNodesPerNode hash).lookup key <
      nodes.length := by
  obtain ⟨node, hnode, v, -, hentry⟩ := mem_buildRingEntries.1 (List.get_mem
    (buildRingEntries (ringNodes nodes) virtualNodesPerNode hash) ⟨_, HashRing.ringStartIndex_lt
      (HashRing.new (ringNodes nodes) (ringNodes_ne_nil h) virtualNodesPerNode hash) key⟩)
  obtain ⟨i, hi, rfl⟩ := List.mem_mapIdx.1 hnode
  exact lt_of_eq_of_lt (congrArg RingEntry.nodeIndex hentry) hi

/-- The node that a call is sent to is one of the client's. -/
theorem resolveNodeIndex_lt {hash : JsString → ℕ} {options : ClusterClientOptions}
    {cluster : ClusterClient} (hnew : ClusterClient.new hash options = .ok cluster) {key : JsString}
    {i : ℕ} (h : cluster.resolveNodeIndex key = .ok i) : i < cluster.nodes.length := by
  unfold ClusterClient.new at hnew
  split at hnew
  · cases hnew
  · rename_i nodes _
    split_ifs at hnew with hne
    cases hnew
    unfold resolveNodeIndex at h
    simp only at h
    split at h
    · split at h
      · rename_i index _
        split_ifs at h with hrange
        have hi : index.toNat = i := Except.ok.inj h
        show i < nodes.length
        omega
      · cases h
    · split at h
      · rw [← Except.ok.inj h]
        exact Nat.mod_lt _ (List.length_pos_of_ne_nil hne)
      · rw [← Except.ok.inj h]
        exact ring_lookup_lt hne options.virtualNodesPerNode hash key

end ClusterClient

/-! ### The invariant -/

namespace ClusterPool

variable {num : Numerals} {cluster : ClusterClient} {autoReconnect : Bool}
  {maxReconnectAttempts : ℕ} {s s' t : ClusterPool} {past later : List PoolEvent} {b i : ℕ}
  {c : CacheClient} {ev : ClientEvent} {call : ClusterCall}

/-- A call went where it says, and to the node of its key. -/
def Placed (num : Numerals) (cluster : ClusterClient) (s : ClusterPool) (call : ClusterCall)
    (b id : ℕ) : Prop :=
  (s.backends b).commands[id]? = some ⟨id, call.op.request num, true⟩ ∧
    ∃ i, s.created[b]? = some i ∧
      ∀ key, call.op.key = some key → cluster.resolveNodeIndex key = .ok i

/-- What is true of every reachable pool. -/
structure Pooled (num : Numerals) (cluster : ClusterClient) (autoReconnect : Bool)
    (maxReconnectAttempts : ℕ) (s : ClusterPool) : Prop where
  nodup : s.created.Nodup
  created_lt : ∀ i ∈ s.created, i < cluster.nodes.length
  clients : ∀ i b, s.clients i = some b → s.created[b]? = some i
  kept : s.closed = false → ∀ b i, s.created[b]? = some i → s.clients i = some b
  fresh : ∀ b, s.created.length ≤ b → s.backends b = .new autoReconnect maxReconnectAttempts
  runs : ∀ b, ∃ past,
    (clientSystem num autoReconnect maxReconnectAttempts).Run past (s.backends b)
  closed : s.closed = true → ∀ b < s.created.length, (s.backends b).closed = true
  placed : ∀ call ∈ s.calls, ∀ b id, call.place = .ok (b, id) → Placed num cluster s call b id
  order : s.calls.Pairwise fun call call' => ∀ b id id', call.place = .ok (b, id) →
    call'.place = .ok (b, id') → id < id'

/-- Clients are created, calls are made, and what is settled stays settled. -/
structure Grows (s s' : ClusterPool) : Prop where
  created : s.created <+: s'.created
  calls : s.calls <+: s'.calls
  outcomes : ∀ b, (s.backends b).outcomes <:+ (s'.backends b).outcomes

theorem Grows.refl (s : ClusterPool) : Grows s s :=
  ⟨List.prefix_rfl, List.prefix_rfl, fun _ => List.suffix_rfl⟩

theorem Grows.trans (h : Grows s s') (h' : Grows s' t) : Grows s t :=
  ⟨h.created.trans h'.created, h.calls.trans h'.calls,
    fun b => (h.outcomes b).trans (h'.outcomes b)⟩

theorem grows_refuse (s : ClusterPool) (op : ClusterOp) (err : ClientError) :
    Grows s (s.refuse op err) :=
  ⟨List.prefix_rfl, List.prefix_append _ _, fun _ => List.suffix_rfl⟩

theorem grows_clientForIndex (s : ClusterPool) (i : ℕ) : Grows s (s.clientForIndex i).1 := by
  unfold ClusterPool.clientForIndex
  split
  · exact .refl s
  · exact ⟨List.prefix_append _ _, List.prefix_rfl, fun _ => List.suffix_rfl⟩

theorem pooled_new : Pooled num cluster autoReconnect maxReconnectAttempts
    (.new autoReconnect maxReconnectAttempts) where
  nodup := List.nodup_nil
  created_lt _ h := absurd h List.not_mem_nil
  clients _ _ h := by cases h
  kept _ b i h := by cases h
  fresh _ _ := rfl
  runs _ := ⟨[], .start⟩
  closed h := by cases h
  placed _ h := absurd h List.not_mem_nil
  order := List.Pairwise.nil

theorem Pooled.sound (h : Pooled num cluster autoReconnect maxReconnectAttempts s) (b : ℕ) :
    CacheClient.Sound num (s.backends b) := by
  obtain ⟨past, hrun⟩ := h.runs b
  exact CacheClient.run_sound hrun

/-- Commands are not taken back. -/
theorem commands_mono {c' : CacheClient} (hs : CacheClient.Sound num c)
    (h : ClientStep num c ev c') : c.commands <+: c'.commands := by
  by_cases hev : ev.Internal
  · rw [(CacheClient.step_effect h hev hs.control hs.plugged hs.talk).commands]
  · cases h with
    | submit throwOnServerErr _ =>
      rw [(c.commandLine_spec _ throwOnServerErr).1]
      exact List.prefix_append _ _
    | answer _ _ => exact List.prefix_rfl
    | _ => exact absurd trivial hev

/-- What is settled stays settled. -/
theorem outcomes_suffix {c' : CacheClient} (hs : CacheClient.Sound num c)
    (h : ClientStep num c ev c') : c.outcomes <:+ c'.outcomes :=
  (CacheClient.step_ledger h hs.control).ended_suffix

/-- A refusal is noted. -/
theorem Pooled.refuse (h : Pooled num cluster autoReconnect maxReconnectAttempts s) (op : ClusterOp)
    (err : ClientError) :
    Pooled num cluster autoReconnect maxReconnectAttempts (s.refuse op err) where
  nodup := h.nodup
  created_lt := h.created_lt
  clients := h.clients
  kept := h.kept
  fresh := h.fresh
  runs := h.runs
  closed := h.closed
  placed call hcall b id hplace := by
    rcases List.mem_append.1 hcall with hcall | hcall
    · exact h.placed call hcall b id hplace
    · rw [List.mem_singleton.1 hcall] at hplace
      cases hplace
  order := by
    refine List.pairwise_append.2 ⟨h.order, List.pairwise_singleton _ _, ?_⟩
    intro call hcall call' hcall' b id id' _ hplace'
    rw [List.mem_singleton.1 hcall'] at hplace'
    cases hplace'

/-- The client of a node is found or made; nothing else changes. -/
theorem Pooled.clientForIndex (h : Pooled num cluster autoReconnect maxReconnectAttempts s)
    (hopen : s.closed = false) (hi : i < cluster.nodes.length) :
    Pooled num cluster autoReconnect maxReconnectAttempts (s.clientForIndex i).1 ∧
      (s.clientForIndex i).1.created[(s.clientForIndex i).2]? = some i ∧
      (s.clientForIndex i).1.closed = false ∧ (s.clientForIndex i).1.calls = s.calls := by
  unfold ClusterPool.clientForIndex
  cases hclient : s.clients i with
  | some b => exact ⟨h, h.clients i b hclient, hopen, rfl⟩
  | none =>
    have hnew : i ∉ s.created := by
      intro hmem
      obtain ⟨b, hb⟩ := List.mem_iff_getElem?.1 hmem
      rw [h.kept hopen b i hb] at hclient
      cases hclient
    have hgrown {b j : ℕ} (hb : s.created[b]? = some j) : (s.created ++ [i])[b]? = some j :=
      CacheClient.getElem?_of_prefix (List.prefix_append _ _) hb
    have hlast : (s.created ++ [i])[s.created.length]? = some i := by simp
    refine ⟨⟨?_, ?_, ?_, ?_, ?_, h.runs, ?_, ?_, h.order⟩, hlast, hopen, rfl⟩
    · exact List.nodup_append.2 ⟨h.nodup, List.nodup_singleton _, fun a ha b hb =>
        fun hab => hnew (List.mem_singleton.1 hb ▸ hab ▸ ha)⟩
    · intro j hj
      rcases List.mem_append.1 hj with hj | hj
      · exact h.created_lt j hj
      · exact List.mem_singleton.1 hj ▸ hi
    · intro j b hb
      simp only [Function.update_apply] at hb
      split_ifs at hb with hj
      · rw [← Option.some.inj hb, hj]
        exact hlast
      · exact hgrown (h.clients j b hb)
    · intro _ b j hb
      simp only [Function.update_apply]
      rcases Nat.lt_or_ge b s.created.length with hlt | hge
      · rw [List.getElem?_append_left hlt] at hb
        have hj : j ≠ i := fun hj => hnew (hj ▸ List.mem_of_getElem? hb)
        rw [if_neg hj]
        exact h.kept hopen b j hb
      · rw [List.getElem?_append_right hge] at hb
        obtain ⟨hb, hj⟩ := List.getElem?_eq_some_iff.1 hb
        have hzero : b = s.created.length := by
          rw [List.length_singleton] at hb
          omega
        rw [if_pos (by simpa using hj.symm), hzero]
    · intro b hb
      rw [List.length_append] at hb
      exact h.fresh b (by omega)
    · intro hclosed
      rw [hopen] at hclosed
      cases hclosed
    · intro call hcall b id hplace
      obtain ⟨hcommand, j, hj, hkey⟩ := h.placed call hcall b id hplace
      exact ⟨hcommand, j, hgrown hj, hkey⟩

/-- A `CacheClient` takes a step. -/
theorem Pooled.setBackend (h : Pooled num cluster autoReconnect maxReconnectAttempts s)
    (hb : b < s.created.length) (hstep : ClientStep num (s.backends b) ev c) :
    Pooled num cluster autoReconnect maxReconnectAttempts (s.setBackend b c) where
  nodup := h.nodup
  created_lt := h.created_lt
  clients := h.clients
  kept := h.kept
  fresh b' hb' := by
    have hne : b' ≠ b := by
      have hb' : s.created.length ≤ b' := hb'
      omega
    exact (Function.update_of_ne hne _ _).trans (h.fresh b' hb')
  runs b' := by
    by_cases hne : b' = b
    · subst hne
      obtain ⟨past, hrun⟩ := h.runs b'
      refine ⟨ev :: past, ?_⟩
      show System.Run _ _ (Function.update s.backends b' c b')
      rw [Function.update_self]
      exact hrun.snoc hstep
    · obtain ⟨past, hrun⟩ := h.runs b'
      refine ⟨past, ?_⟩
      show System.Run _ _ (Function.update s.backends b c b')
      rwa [Function.update_of_ne hne]
  closed hclosed b' hb' := by
    show (Function.update s.backends b c b').closed = true
    by_cases hne : b' = b
    · subst hne
      rw [Function.update_self]
      exact (CacheClient.step_persists hstep).closed (h.closed hclosed b' hb')
    · rw [Function.update_of_ne hne]
      exact h.closed hclosed b' hb'
  placed call hcall b' id hplace := by
    obtain ⟨hcommand, hrest⟩ := h.placed call hcall b' id hplace
    refine ⟨?_, hrest⟩
    show (Function.update s.backends b c b').commands[id]? = _
    by_cases hne : b' = b
    · subst hne
      rw [Function.update_self]
      exact CacheClient.getElem?_of_prefix (commands_mono (h.sound b') hstep) hcommand
    · rwa [Function.update_of_ne hne]
  order := h.order

theorem Pooled.grows_setBackend (h : Pooled num cluster autoReconnect maxReconnectAttempts s)
    (hstep : ClientStep num (s.backends b) ev c) : Grows s (s.setBackend b c) := by
  refine ⟨List.prefix_rfl, List.prefix_rfl, fun b' => ?_⟩
  show _ <:+ (Function.update s.backends b c b').outcomes
  by_cases hb : b' = b
  · subst hb
    rw [Function.update_self]
    exact outcomes_suffix (h.sound b') hstep
  · rw [Function.update_of_ne hb]

/-- A call becomes a command of the client of its node. -/
theorem Pooled.withClient (h : Pooled num cluster autoReconnect maxReconnectAttempts s)
    (op : ClusterOp) (hline : .char '\n' ∉ (op.request num).dropLast)
    (hi : i < cluster.nodes.length)
    (hkey : ∀ key, op.key = some key → cluster.resolveNodeIndex key = .ok i) :
    Pooled num cluster autoReconnect maxReconnectAttempts (s.withClient num i op) ∧
      Grows s (s.withClient num i op) := by
  unfold ClusterPool.withClient
  by_cases hclosed : s.closed = true
  · rw [if_pos hclosed]
    exact ⟨h.refuse op closedError, grows_refuse s op closedError⟩
  · rw [if_neg hclosed]
    obtain ⟨hfound, hcreated, hopen, hcalls⟩ := h.clientForIndex (Bool.not_eq_true _ ▸ hclosed) hi
    have hgrows := grows_clientForIndex s i
    generalize hr : s.clientForIndex i = r at hfound hcreated hopen hcalls hgrows
    obtain ⟨u, b⟩ := r
    simp only at hfound hcreated hopen hcalls hgrows ⊢
    obtain ⟨body, hbody⟩ := op.request_eq num
    have hstep : ClientStep num (u.backends b) (.submit body true)
        ((u.backends b).commandLine (op.request num) true) := by
      rw [hbody] at hline ⊢
      exact .submit _ true (by rwa [newline, List.dropLast_concat] at hline)
    have hnext := hfound.setBackend (List.getElem?_eq_some_iff.1 hcreated).1 hstep
    have hcommands := ((u.backends b).commandLine_spec (op.request num) true).1
    refine ⟨⟨hnext.nodup, hnext.created_lt, hnext.clients, hnext.kept, hnext.fresh, hnext.runs,
      hnext.closed, fun call hcall b' id hplace => ?_, ?_⟩, ?_⟩
    · rcases List.mem_append.1 hcall with hcall | hcall
      · exact hnext.placed call (hcalls.symm ▸ hcall) b' id hplace
      · rw [List.mem_singleton.1 hcall] at hplace ⊢
        cases hplace
        refine ⟨?_, i, hcreated, hkey⟩
        show (Function.update u.backends b _ b).commands[_]? = _
        rw [Function.update_self, hcommands, List.getElem?_concat_length]
    · refine List.pairwise_append.2 ⟨h.order, List.pairwise_singleton _ _, ?_⟩
      intro call hcall call' hcall' b' id id' hplace hplace'
      rw [List.mem_singleton.1 hcall'] at hplace'
      cases hplace'
      -- the earlier call has its command already
      obtain ⟨hcommand, -⟩ := hfound.placed call (hcalls.symm ▸ hcall) b id hplace
      exact (List.getElem?_eq_some_iff.1 hcommand).1
    · have hset := hgrows.trans (hfound.grows_setBackend hstep)
      exact ⟨hset.created, List.prefix_append _ _, hset.outcomes⟩

theorem Pooled.connectNode (h : Pooled num cluster autoReconnect maxReconnectAttempts s)
    (hopen : s.closed = false) (hi : i < cluster.nodes.length) :
    Pooled num cluster autoReconnect maxReconnectAttempts (s.connectNode i) ∧
      Grows s (s.connectNode i) ∧ (s.connectNode i).closed = false := by
  obtain ⟨hfound, hcreated, hopen', -⟩ := h.clientForIndex hopen hi
  exact ⟨hfound.setBackend (List.getElem?_eq_some_iff.1 hcreated).1 (.connect _),
    (grows_clientForIndex s i).trans (hfound.grows_setBackend (.connect _)), hopen'⟩

/-- Every `CacheClient` that there is gets closed. -/
theorem Pooled.close (h : Pooled num cluster autoReconnect maxReconnectAttempts s) :
    Pooled num cluster autoReconnect maxReconnectAttempts (s.close cluster) ∧
      Grows s (s.close cluster) := by
  have hbackend (b : ℕ) : (s.close cluster).backends b = (s.backends b).close ∨
      (s.close cluster).backends b = s.backends b ∧
        ∀ i < cluster.nodes.length, s.clients i ≠ some b := by
    simp only [ClusterPool.close]
    split_ifs with hexists
    · exact Or.inl rfl
    · exact Or.inr ⟨rfl, fun i hi hclient => hexists ⟨i, hi, hclient⟩⟩
  refine ⟨⟨h.nodup, h.created_lt, h.clients, fun hopen => (by cases hopen), fun b hb => ?_,
    fun b => ?_, fun _ b hb => ?_, fun call hcall b id hplace => ?_, h.order⟩,
    List.prefix_rfl, List.prefix_rfl, fun b => ?_⟩
  · rcases hbackend b with hclose | ⟨hsame, -⟩
    · -- a client that has not been created is in no place of the list
      simp only [ClusterPool.close] at hclose ⊢
      split_ifs at hclose ⊢ with hexists
      · obtain ⟨i, -, hclient⟩ := hexists
        have hlt := (List.getElem?_eq_some_iff.1 (h.clients i b hclient)).1
        exact absurd hlt (not_lt.2 hb)
      · exact h.fresh b hb
    · rw [hsame]
      exact h.fresh b hb
  · obtain ⟨past, hrun⟩ := h.runs b
    rcases hbackend b with hclose | ⟨hsame, -⟩
    · rw [hclose]
      exact ⟨.close :: past, hrun.snoc (.close _)⟩
    · rw [hsame]
      exact ⟨past, hrun⟩
  · rcases hbackend b with hclose | ⟨hsame, hnone⟩
    · rw [hclose]
      exact (CacheClient.close_spec _).1
    · rw [hsame]
      have hb' : s.created[b]? = some s.created[b] := List.getElem?_eq_getElem hb
      by_cases hclosed : s.closed = true
      · exact h.closed hclosed b hb
      · exact absurd (h.kept (Bool.not_eq_true _ ▸ hclosed) b _ hb')
          (hnone _ (h.created_lt _ (List.getElem_mem hb)))
  · obtain ⟨hcommand, hrest⟩ := h.placed call hcall b id hplace
    refine ⟨?_, hrest⟩
    rcases hbackend b with hclose | ⟨hsame, -⟩
    · rw [hclose]
      exact CacheClient.getElem?_of_prefix (commands_mono (h.sound b) (.close _)) hcommand
    · rwa [hsame]
  · rcases hbackend b with hclose | ⟨hsame, -⟩
    · rw [hclose]
      exact outcomes_suffix (h.sound b) (.close _)
    · rw [hsame]

/-- **Every step keeps it.** -/
theorem step_pooled {hash : JsString → ℕ} {options : ClusterClientOptions} {e : PoolEvent}
    (hnew : ClusterClient.new hash options = .ok cluster)
    (h : Pooled num cluster autoReconnect maxReconnectAttempts s)
    (hstep : PoolStep num cluster s e s') :
    Pooled num cluster autoReconnect maxReconnectAttempts s' ∧ Grows s s' := by
  cases hstep with
  | call op hline =>
    unfold routeKeyed
    split
    · exact ⟨h.refuse _ _, grows_refuse s _ _⟩
    · rename_i nodeIndex hresolve
      have hi := ClusterClient.resolveNodeIndex_lt hnew hresolve
      refine h.withClient _ hline hi fun key hkey => ?_
      cases hkey
      exact hresolve
  | ping =>
    unfold ping
    split_ifs
    · exact ⟨h.refuse _ _, grows_refuse s _ _⟩
    · refine List.foldlRecOn (motive := fun u =>
        Pooled num cluster autoReconnect maxReconnectAttempts u ∧ Grows s u) _ _ ⟨h, .refl s⟩
        fun u hu i hi => ?_
      have hline : .char '\n' ∉ (js "PING" ++ newline).dropLast := by decide
      have hcall := hu.1.withClient .ping hline (List.mem_range.1 hi)
        fun key hkey => by cases hkey
      exact ⟨hcall.1, hu.2.trans hcall.2⟩
  | connect =>
    unfold connect
    split_ifs with hclosed
    · exact ⟨h, .refl s⟩
    · have hfold := List.foldlRecOn (motive := fun u =>
        Pooled num cluster autoReconnect maxReconnectAttempts u ∧ Grows s u ∧ u.closed = false)
        (List.range cluster.nodes.length) connectNode ⟨h, .refl s, Bool.not_eq_true _ ▸ hclosed⟩
        fun u hu i hi => by
          have hnode := hu.1.connectNode hu.2.2 (List.mem_range.1 hi)
          exact ⟨hnode.1, hu.2.1.trans hnode.2.1, hnode.2.2⟩
      exact ⟨hfold.1, hfold.2.1⟩
  | close => exact h.close
  | forget hclosed =>
    refine ⟨⟨h.nodup, h.created_lt, fun i b hclient => ?_, fun hopen => ?_, h.fresh, h.runs,
      h.closed, h.placed, h.order⟩, List.prefix_rfl, List.prefix_rfl, fun _ => List.suffix_rfl⟩
    · cases hclient
    · have hopen : s.closed = false := hopen
      rw [hclosed] at hopen
      cases hopen
  | backend hb _ hclient => exact ⟨h.setBackend hb hclient, h.grows_setBackend hclient⟩

theorem run_pooled {hash : JsString → ℕ} {options : ClusterClientOptions}
    (hnew : ClusterClient.new hash options = .ok cluster)
    (hrun : (poolSystem num cluster autoReconnect maxReconnectAttempts).Run past s) :
    Pooled num cluster autoReconnect maxReconnectAttempts s :=
  hrun.invariant (P := fun _ s => Pooled num cluster autoReconnect maxReconnectAttempts s)
    pooled_new fun _ _ _ _ _ h hstep => (step_pooled hnew h hstep).1

theorem trace_grows {hash : JsString → ℕ} {options : ClusterClientOptions}
    (hnew : ClusterClient.new hash options = .ok cluster)
    (h : Pooled num cluster autoReconnect maxReconnectAttempts s)
    (htrace : (poolSystem num cluster autoReconnect maxReconnectAttempts).Trace s later t) :
    Pooled num cluster autoReconnect maxReconnectAttempts t ∧ Grows s t :=
  htrace.invariant (P := fun t =>
      Pooled num cluster autoReconnect maxReconnectAttempts t ∧ Grows s t)
    ⟨h, .refl s⟩ fun _ _ _ hu hstep =>
      have hnext := step_pooled hnew hu.1 hstep
      ⟨hnext.1, hu.2.trans hnext.2⟩

end ClusterPool

end DistributedCache
