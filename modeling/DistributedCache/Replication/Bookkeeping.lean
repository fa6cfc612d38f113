import DistributedCache.Lib.System
import DistributedCache.Lib.TaskGroups
import DistributedCache.Node.Server
import DistributedCache.Replication.Reorder

/-!
# The counters of the replication engine

An engine schedules mutations while earlier ones are under way: each has been sent to its peers,
whose clients answer or fail one by one in any order, and once all of them have, the mutation is
released.

* `EngineState`, `engineSystem`: an engine with its accepted mutations, and all that can happen to
  it;
* `peer_recordAttempts`, `peer_settle`: the counters of one peer;
* `length_peers`: how many peers a replica has;
* `Books`: what stays true of the counters, and `Books.step`, which carries it along;
* `exists_drained`: the engine can always go on until nothing is pending;
* `bookkeeping_exact`.
-/

namespace DistributedCache

/-! ### The engine and its mutations under way -/

/-- An engine with the mutations it has accepted, oldest first; the tasks of a mutation are the
indices of its peers. -/
structure EngineState where
  engine : ReplicationEngine
  fanOuts : List (TaskGroup JsString ℕ)

/-- What can happen: a mutation is to be replicated; the client of a peer answers with a line, or
fails with a message; all peers of a mutation have settled; the engine is closed. -/
inductive EngineEvent
  | replicate (m : InnerCommand)
  | settle (number index : ℕ) (result : Except JsString JsString)
  | release (number : ℕ)
  | close

/-- The mutation is under way if it was sent to anyone. -/
def EngineState.replicate (num : Numerals) (s : EngineState) (m : InnerCommand) : EngineState :=
  let r := s.engine.replicate num m
  { engine := r.1
    fanOuts :=
      if r.2 = [] then s.fanOuts
      else s.fanOuts ++ [.start m.key (s.engine.peers m.key) (s.engine.nodup_peers m.key)] }

/-- The engine of a node, from its start on. -/
def engineSystem (num : Numerals) (t : Topology) (n : ClusterNode) (maxPending : ℕ+) :
    System EngineState EngineEvent where
  init := ⟨{ ReplicationEngine.new (t.config n) with maxPending := maxPending }, []⟩
  step s event s' :=
    match event with
    | .replicate m => s' = s.replicate num m
    | .settle number index result => ∃ f, s.fanOuts[number]? = some f ∧ index ∈ f.unsettled ∧
        s' = ⟨s.engine.settle index result, s.fanOuts.set number (f.settle index)⟩
    | .release number => ∃ f, ∃ h : f.unsettled = [], s.fanOuts[number]? = some f ∧
        f.released = false ∧ s' = ⟨s.engine.release, s.fanOuts.set number (f.release h)⟩
    | .close => s' = { s with engine := s.engine.close }

/-- The number of the mutation that an event releases. -/
def EngineEvent.releases : EngineEvent → Option ℕ
  | .release number => some number
  | _ => none

/-! ### The counters of one peer -/

/-- How often a peer has answered or failed. -/
def PeerStats.settled (p : PeerStats) : ℕ := p.succeeded + p.failed

namespace ReplicationStats

variable (st : ReplicationStats) (a b : JsString)

theorem peer_set (v : PeerStats) :
    ({ st with peers := st.peers.set a v } : ReplicationStats).peer b =
      if b = a then v else st.peer b := by
  unfold peer
  rw [OrderedMap.get?_set]
  split_ifs <;> rfl

theorem peer_recordAttempt : (st.recordAttempt a).peer b =
    if b = a then { st.peer a with attempted := (st.peer a).attempted + 1 } else st.peer b :=
  st.peer_set a b _

theorem peer_recordSuccess : (st.recordSuccess a).peer b =
    if b = a then { st.peer a with succeeded := (st.peer a).succeeded + 1 } else st.peer b :=
  st.peer_set a b _

theorem peer_recordFailure (message : JsString) : (st.recordFailure a message).peer b =
    if b = a then
      { st.peer a with failed := (st.peer a).failed + 1, lastError := some message }
    else st.peer b :=
  st.peer_set a b _

/-- The attempts of one mutation. -/
theorem peer_recordAttempts (id : ℕ → JsString) (indices : List ℕ) :
    (indices.foldl (fun st index => st.recordAttempt (id index)) st).peer b =
      { st.peer b with
        attempted :=
          (st.peer b).attempted + indices.countP fun index => decide (id index = b) } := by
  induction indices generalizing st with
  | nil => rfl
  | cons index indices ih =>
    rw [List.foldl_cons, ih, peer_recordAttempt, List.countP_cons]
    by_cases h : b = id index
    · subst h
      simp only [if_true, decide_true]
      congr 1
      omega
    · rw [if_neg h, if_neg (by simpa using Ne.symm h), Nat.add_zero]

theorem dropped_recordAttempts (id : ℕ → JsString) (indices : List ℕ) :
    (indices.foldl (fun st index => st.recordAttempt (id index)) st).dropped = st.dropped := by
  induction indices generalizing st with
  | nil => rfl
  | cons index indices ih => exact ih (st.recordAttempt (id index))

end ReplicationStats

namespace ReplicationEngine

/-- The peers of a key depend on the configuration only. -/
theorem peers_congr {e e' : ReplicationEngine} (h : e'.config = e.config) {key : JsString} :
    e'.peers key = e.peers key := by
  rw [peers, peers, h]

variable (e : ReplicationEngine) (index : ℕ) (result : Except JsString JsString)

/-- What a peer's answer or failure does to the counters of any peer. -/
theorem peer_settle (b : JsString) :
    ((e.settle index result).stats.peer b).attempted = (e.stats.peer b).attempted ∧
      ((e.settle index result).stats.peer b).settled =
        (e.stats.peer b).settled + if b = e.peerId index then 1 else 0 := by
  rcases e.settle_cases index result with hsettle | ⟨message, hsettle⟩
  · rw [hsettle]
    simp only [ReplicationStats.peer_recordSuccess]
    split_ifs with h
    · subst h
      exact ⟨rfl, Nat.add_right_comm _ _ _⟩
    · exact ⟨rfl, rfl⟩
  · rw [hsettle]
    simp only [ReplicationStats.peer_recordFailure]
    split_ifs with h
    · subst h
      exact ⟨rfl, rfl⟩
    · exact ⟨rfl, rfl⟩

/-- It changes nothing else. -/
theorem settle_config :
    (e.settle index result).config = e.config ∧ (e.settle index result).maxPending = e.maxPending ∧
      (e.settle index result).pending = e.pending ∧
      (e.settle index result).stats.dropped = e.stats.dropped := by
  rcases e.settle_cases index result with hsettle | ⟨message, hsettle⟩
  · rw [hsettle]
    exact ⟨rfl, rfl, rfl, rfl⟩
  · rw [hsettle]
    exact ⟨rfl, rfl, rfl, rfl⟩

end ReplicationEngine

/-! ### Peers -/

namespace Topology

variable {t : Topology} {n p : ClusterNode} {key : JsString}

/-- The counters of a peer are those under its id. -/
theorem peerId_eq_iff {e : ReplicationEngine} (he : e.config = t.config n) (hp : p ∈ t.nodes)
    (index : ℕ) : e.peerId index = p.id ↔ index = p.nodeIndex := by
  have hpeer : e.peerId index = (t.idAt index).getD [] := by
    rw [ReplicationEngine.peerId, he]
    rfl
  have hid := idAt_nodeIndex hp
  constructor
  · intro h
    cases hindex : t.idAt index with
    | none =>
      rw [hpeer, hindex] at h
      exact absurd h.symm (id_ne_nil hp)
    | some id =>
      rw [hpeer, hindex, Option.getD_some] at h
      subst h
      have lt {i : ℕ} {id : JsString} (h : t.idAt i = some id) : i < t.nodes.length := by
        obtain ⟨m, hm, -⟩ := Option.map_eq_some_iff.1 h
        exact (List.getElem?_eq_some_iff.1 hm).1
      exact idAt_inj (lt hindex) (lt hid) (hindex.trans hid.symm)
  · rintro rfl
    rw [hpeer, hid, Option.getD_some]

theorem nodup_nodeIndices (t : Topology) :
    ((t.nodes.map ClusterNode.ringNode).map HashRingNode.nodeIndex).Nodup := by
  have hrange : (t.nodes.map ClusterNode.ringNode).map HashRingNode.nodeIndex =
      List.range t.nodes.length := by
    refine List.ext_getElem (by simp) fun i hi _ => ?_
    rw [List.length_map, List.length_map] at hi
    rw [List.getElem_map, List.getElem_map, List.getElem_range]
    exact t.nodeIndex_eq (List.getElem?_eq_getElem hi)
  rw [hrange]
  exact List.nodup_range

/-- Every key has as many replicas as the requested factor says, if there are that many nodes. -/
theorem length_replicas (t : Topology) (key : JsString) :
    (t.ring.lookupReplicaIndices key t.factor).length =
      min (t.requestedFactor : ℕ) t.nodes.length := by
  have hlength : (t.ring.nodesMet key).length = (t.nodes.map ClusterNode.ringNode).length :=
    HashRing.length_nodesMet t.nodup_nodeIndices
  rw [show t.ring.lookupReplicaIndices key t.factor = (t.ring.nodesMet key).take t.factor from
    HashRing.lookupReplicaIndices_new t.factor, List.length_take, hlength, List.length_map]
  exact min_eq_left (min_le_right _ _)

/-- A replica of a key has all the others as its peers. -/
theorem length_peers (hn : n.nodeIndex ∈ t.ring.lookupReplicaIndices key t.factor)
    {e : ReplicationEngine} (he : e.config = t.config n) :
    (e.peers key).length = min (t.requestedFactor : ℕ) t.nodes.length - 1 := by
  have hpeers : e.peers key =
      (t.ring.lookupReplicaIndices key t.factor).filter (· ≠ n.nodeIndex) := by
    rw [ReplicationEngine.peers, he]
    rfl
  have hnodup := HashRing.nodup_lookupReplicaIndices t.ring key t.factor
  rw [← t.length_replicas key, ← List.length_erase_of_mem hn, hnodup.erase_eq_filter, hpeers]
  congr 1
  exact List.filter_congr fun index _ => Bool.eq_iff_iff.2 (by simp)

end Topology

/-! ### What stays true -/

section Books

variable {num : Numerals} {t : Topology} {n : ClusterNode} {maxPending : ℕ+} {s : EngineState}
  {past : List EngineEvent} {m : InnerCommand}

/-- A mutation is ignored, dropped or under way from now on. -/
theorem EngineState.replicate_cases (num : Numerals) (s : EngineState) (m : InnerCommand) :
    (s.replicate num m = s ∧ (s.engine.closed = true ∨
      s.engine.pending < s.engine.maxPending ∧ s.engine.peers m.key = [])) ∨
    (s.replicate num m =
        { s with engine := { s.engine with stats := s.engine.stats.recordDropped } } ∧
      s.engine.closed = false ∧ s.engine.maxPending ≤ s.engine.pending) ∨
    (s.replicate num m =
        { engine := s.engine.accept m.key
          fanOuts :=
            s.fanOuts ++ [.start m.key (s.engine.peers m.key) (s.engine.nodup_peers m.key)] } ∧
      s.engine.closed = false ∧ s.engine.pending < s.engine.maxPending ∧
      s.engine.peers m.key ≠ []) := by
  obtain ⟨wireLine, hschedule⟩ :
      ∃ wireLine, s.engine.replicate num m = s.engine.schedule wireLine m.key := by
    cases m with
    | set cmd => exact ⟨_, rfl⟩
    | del key => exact ⟨_, rfl⟩
    | delete key => exact ⟨_, rfl⟩
  unfold EngineState.replicate
  rw [hschedule]
  rcases s.engine.schedule_cases wireLine m.key with
    ⟨heq, hwhy⟩ | ⟨heq, hwhy⟩ | ⟨heq, hopen, hroom, hpeers⟩
  · rw [heq]
    exact Or.inl ⟨rfl, hwhy⟩
  · rw [heq]
    exact Or.inr (Or.inl ⟨rfl, hwhy⟩)
  · rw [heq]
    refine Or.inr (Or.inr ⟨?_, hopen, hroom, hpeers⟩)
    simp only [List.map_eq_nil_iff, if_neg hpeers]

/-- The counters after the events of `past` agree with the mutations under way. -/
structure Books (t : Topology) (n : ClusterNode) (maxPending : ℕ+) (past : List EngineEvent)
    (s : EngineState) : Prop where
  config : s.engine.config = t.config n
  limit : s.engine.maxPending = maxPending
  bound : s.engine.pending ≤ maxPending
  pending_eq : s.engine.pending = TaskGroup.unreleased s.fanOuts
  tasks_eq : ∀ f ∈ s.fanOuts, f.tasks = s.engine.peers f.subject
  attempted_eq : ∀ p ∈ t.nodes, (s.engine.stats.peer p.id).attempted =
    TaskGroup.started s.fanOuts p.nodeIndex
  balance : ∀ p ∈ t.nodes, (s.engine.stats.peer p.id).attempted =
    (s.engine.stats.peer p.id).settled + TaskGroup.running s.fanOuts p.nodeIndex
  released_nodup : (past.filterMap EngineEvent.releases).Nodup
  released_iff : ∀ k, k ∈ past.filterMap EngineEvent.releases ↔ TaskGroup.ReleasedAt s.fanOuts k

theorem books_init : Books t n maxPending [] (engineSystem num t n maxPending).init where
  config := rfl
  limit := rfl
  bound := Nat.zero_le _
  pending_eq := rfl
  tasks_eq _ hf := (by cases hf)
  attempted_eq _ _ := rfl
  balance _ _ := rfl
  released_nodup := List.nodup_nil
  released_iff k := by
    constructor
    · intro hk
      cases hk
    · rintro ⟨f, hf, -⟩
      cases hf

namespace Books

/-- The attempts of an accepted mutation. -/
theorem attempted_accept (h : Books t n maxPending past s) {p : ClusterNode} (hp : p ∈ t.nodes)
    (key : JsString) : (s.engine.accept key).stats.peer p.id =
      { s.engine.stats.peer p.id with
        attempted := (s.engine.stats.peer p.id).attempted +
          if p.nodeIndex ∈ s.engine.peers key then 1 else 0 } := by
  have hcount : ((s.engine.peers key).countP fun index => decide (s.engine.peerId index = p.id)) =
      if p.nodeIndex ∈ s.engine.peers key then 1 else 0 := by
    simp only [Topology.peerId_eq_iff h.config hp]
    rw [← (s.engine.nodup_peers key).count]
    exact List.countP_congr fun index _ => by simp
  rw [ReplicationEngine.accept, ReplicationStats.peer_recordAttempts, hcount]

theorem accept (h : Books t n maxPending past s) (hroom : s.engine.pending < s.engine.maxPending)
    (m : InnerCommand) : Books t n maxPending (.replicate m :: past)
      { engine := s.engine.accept m.key
        fanOuts :=
          s.fanOuts ++ [.start m.key (s.engine.peers m.key) (s.engine.nodup_peers m.key)] } where
  config := h.config
  limit := h.limit
  bound := h.limit ▸ hroom
  pending_eq := by
    rw [TaskGroup.unreleased_start, ← h.pending_eq]
    rfl
  tasks_eq := by
    intro f hf
    rcases List.mem_append.1 hf with hf | hf
    · exact h.tasks_eq f hf
    · rw [List.mem_singleton.1 hf]
      rfl
  attempted_eq p hp := by
    rw [h.attempted_accept hp, TaskGroup.started_start, h.attempted_eq p hp]
  balance p hp := by
    rw [h.attempted_accept hp, TaskGroup.running_start]
    have hbalance := h.balance p hp
    simp only [PeerStats.settled] at hbalance ⊢
    omega
  released_nodup := h.released_nodup
  released_iff k := (h.released_iff k).trans (TaskGroup.releasedAt_start _ _).symm

theorem drop (h : Books t n maxPending past s) (m : InnerCommand) :
    Books t n maxPending (.replicate m :: past)
      { s with engine := { s.engine with stats := s.engine.stats.recordDropped } } := { h with }

theorem ignore (h : Books t n maxPending past s) (m : InnerCommand) :
    Books t n maxPending (.replicate m :: past) s := { h with }

/-- A mutation keeps its peers. -/
theorem tasks_set (h : Books t n maxPending past s) {number : ℕ} {f : TaskGroup JsString ℕ}
    (hf : s.fanOuts[number]? = some f) (f' : TaskGroup JsString ℕ)
    (hsubject : f'.subject = f.subject) (htasks : f'.tasks = f.tasks) :
    ∀ g ∈ s.fanOuts.set number f', g.tasks = s.engine.peers g.subject := by
  intro g hg
  rcases List.mem_or_eq_of_mem_set hg with hg | rfl
  · exact h.tasks_eq g hg
  · rw [htasks, hsubject]
    exact h.tasks_eq f (List.mem_of_getElem? hf)

/-- An answer or a failure moves one attempt of its peer from the unsettled to the settled ones. -/
theorem settle (h : Books t n maxPending past s) {number index : ℕ} {f : TaskGroup JsString ℕ}
    (hf : s.fanOuts[number]? = some f) (hindex : index ∈ f.unsettled)
    (result : Except JsString JsString) :
    Books t n maxPending (.settle number index result :: past)
      ⟨s.engine.settle index result, s.fanOuts.set number (f.settle index)⟩ where
  config := (s.engine.settle_config index result).1.trans h.config
  limit := (s.engine.settle_config index result).2.1.trans h.limit
  bound := (s.engine.settle_config index result).2.2.1.trans_le h.bound
  pending_eq := by
    rw [TaskGroup.unreleased_set_settle hf, ← h.pending_eq]
    exact (s.engine.settle_config index result).2.2.1
  tasks_eq f' hf' := by
    rw [ReplicationEngine.peers_congr (s.engine.settle_config index result).1]
    exact h.tasks_set hf (f.settle index) rfl rfl f' hf'
  attempted_eq p hp := by
    rw [TaskGroup.started_set_settle hf, ← h.attempted_eq p hp]
    exact (s.engine.peer_settle index result p.id).1
  balance p hp := by
    obtain ⟨hattempted, hsettled⟩ := s.engine.peer_settle index result p.id
    have hrunning := TaskGroup.running_set_settle (j := p.nodeIndex) hf hindex
    have hpeer : p.id = s.engine.peerId index ↔ p.nodeIndex = index := by
      rw [eq_comm, Topology.peerId_eq_iff h.config hp, eq_comm]
    have hbalance := h.balance p hp
    simp only [hpeer] at hsettled
    show ((s.engine.settle index result).stats.peer p.id).attempted =
      ((s.engine.settle index result).stats.peer p.id).settled +
        TaskGroup.running (s.fanOuts.set number (f.settle index)) p.nodeIndex
    rw [hattempted, hsettled]
    omega
  released_nodup := h.released_nodup
  released_iff k := by
    refine (h.released_iff k).trans ?_
    rw [TaskGroup.releasedAt_set hf]
    split_ifs with hk
    · subst hk
      show TaskGroup.ReleasedAt s.fanOuts k ↔ f.released = true
      simp [TaskGroup.ReleasedAt, hf]
    · rfl

/-- A mutation that is released was pending. -/
theorem release (h : Books t n maxPending past s) {number : ℕ} {f : TaskGroup JsString ℕ}
    (hf : s.fanOuts[number]? = some f) (hopen : f.released = false) (hall : f.unsettled = []) :
    Books t n maxPending (.release number :: past)
      ⟨s.engine.release, s.fanOuts.set number (f.release hall)⟩ where
  config := h.config
  limit := h.limit
  bound := (Nat.sub_le _ _).trans h.bound
  pending_eq := by
    have hless := TaskGroup.unreleased_set_release hf hopen hall
    rw [← h.pending_eq] at hless
    exact (Nat.eq_sub_of_add_eq hless).symm
  tasks_eq := h.tasks_set hf (f.release hall) rfl rfl
  attempted_eq p hp := by
    rw [TaskGroup.started_set_release hf hall]
    exact h.attempted_eq p hp
  balance p hp := by
    rw [TaskGroup.running_set_release hf hall]
    exact h.balance p hp
  released_nodup := by
    refine List.nodup_cons.2 ⟨fun hmem => ?_, h.released_nodup⟩
    obtain ⟨f', hf', hreleased⟩ := (h.released_iff number).1 hmem
    obtain rfl : f = f' := Option.some.inj (hf.symm.trans hf')
    rw [hopen] at hreleased
    cases hreleased
  released_iff k := by
    show k ∈ number :: past.filterMap EngineEvent.releases ↔ _
    rw [List.mem_cons, h.released_iff, TaskGroup.releasedAt_set hf]
    split_ifs with hk
    · exact iff_of_true (Or.inl hk) rfl
    · exact or_iff_right hk

theorem close (h : Books t n maxPending past s) :
    Books t n maxPending (.close :: past) { s with engine := s.engine.close } := { h with }

/-- **The step lemma.** -/
theorem step (h : Books t n maxPending past s) {event : EngineEvent} {s' : EngineState}
    (hstep : (engineSystem num t n maxPending).step s event s') :
    Books t n maxPending (event :: past) s' := by
  cases event with
  | replicate m =>
    obtain rfl : s' = s.replicate num m := hstep
    rcases s.replicate_cases num m with ⟨heq, -⟩ | ⟨heq, -⟩ | ⟨heq, -, hroom, -⟩
    · rw [heq]
      exact h.ignore m
    · rw [heq]
      exact h.drop m
    · rw [heq]
      exact h.accept hroom m
  | settle number index result =>
    obtain ⟨f, hf, hindex, rfl⟩ := hstep
    exact h.settle hf hindex result
  | release number =>
    obtain ⟨f, hall, hf, hopen, rfl⟩ := hstep
    exact h.release hf hopen hall
  | close =>
    obtain rfl : s' = _ := hstep
    exact h.close

end Books

/-- **The run lemma.** -/
theorem books_run (hrun : (engineSystem num t n maxPending).Run past s) :
    Books t n maxPending past s :=
  hrun.invariant books_init fun _ _ _ _ _ h hstep => h.step hstep

/-! ### Mutations come to an end -/

/-- An event that no caller has a part in: the client of a peer answers or fails as `result` says,
or a mutation is released. -/
def EngineEvent.Settles (result : ℕ → ℕ → Except JsString JsString) (event : EngineEvent) : Prop :=
  (∃ number index, event = .settle number index (result number index)) ∨
    ∃ number, event = .release number

/-- **No mutation stays pending for want of an event**: whatever the clients answer, the engine can
go on until nothing is pending. -/
theorem exists_drained (result : ℕ → ℕ → Except JsString JsString)
    (hrun : (engineSystem num t n maxPending).Run past s) :
    ∃ later s', (engineSystem num t n maxPending).Trace s later s' ∧
      (∀ event ∈ later, event.Settles result) ∧ s'.engine.pending = 0 := by
  -- every such event leaves less work
  induction hwork : TaskGroup.work s.fanOuts using Nat.strong_induction_on generalizing past s with
  | h work ih =>
    subst hwork
    by_cases hpending : TaskGroup.unreleased s.fanOuts = 0
    · exact ⟨[], s, .refl, fun _ hevent => (by cases hevent),
        (books_run hrun).pending_eq.trans hpending⟩
    · have next {event : EngineEvent} {s' : EngineState} (hevent : event.Settles result)
          (hstep : (engineSystem num t n maxPending).step s event s')
          (hless : TaskGroup.work s'.fanOuts < TaskGroup.work s.fanOuts) :
          ∃ later s', (engineSystem num t n maxPending).Trace s later s' ∧
            (∀ event ∈ later, event.Settles result) ∧ s'.engine.pending = 0 := by
        obtain ⟨later, u, htrace, hlater, hu⟩ := ih _ hless (hrun.snoc hstep) rfl
        refine ⟨later ++ [event], u, (System.Trace.refl.snoc hstep).append htrace, ?_, hu⟩
        intro ev hev
        rcases List.mem_append.1 hev with hev | hev
        · exact hlater ev hev
        · exact List.mem_singleton.1 hev ▸ hevent
      obtain ⟨number, f, hf, ⟨index, hindex⟩ | ⟨hopen, hall⟩⟩ := TaskGroup.exists_step hpending
      · exact next (Or.inl ⟨number, index, rfl⟩) ⟨f, hf, hindex, rfl⟩
          (TaskGroup.work_set_lt hf (TaskGroup.left_settle hindex))
      · exact next (Or.inr ⟨number, rfl⟩) ⟨f, hall, hf, hopen, rfl⟩
          (TaskGroup.work_set_lt hf (TaskGroup.left_release hopen hall))

/-! ### The books are exact -/

/-- A mutation of `key` has been accepted. -/
def EngineState.Accepted (s s' : EngineState) (key : JsString) : Prop :=
  s'.fanOuts = s.fanOuts ++ [.start key (s.engine.peers key) (s.engine.nodup_peers key)] ∧
    s'.engine.pending = s.engine.pending + 1 ∧ s'.engine.stats.dropped = s.engine.stats.dropped

/-- A mutation has been dropped. -/
def EngineState.Dropped (s s' : EngineState) : Prop :=
  s'.fanOuts = s.fanOuts ∧ s'.engine.pending = s.engine.pending ∧
    s'.engine.stats.dropped = s.engine.stats.dropped + 1

theorem Books.dropped_step (h : Books t n maxPending past s) {event : EngineEvent}
    {s' : EngineState} (hstep : (engineSystem num t n maxPending).step s event s')
    (hdropped : s'.engine.stats.dropped ≠ s.engine.stats.dropped) :
    (∃ m, event = .replicate m) ∧ s.Dropped s' ∧ s.engine.pending = maxPending := by
  cases event with
  | replicate m =>
    obtain rfl : s' = s.replicate num m := hstep
    rcases s.replicate_cases num m with ⟨heq, -⟩ | ⟨heq, -, hfull⟩ | ⟨heq, -⟩
    · rw [heq] at hdropped
      exact absurd rfl hdropped
    · rw [heq]
      exact ⟨⟨m, rfl⟩, ⟨rfl, rfl, rfl⟩, le_antisymm h.bound (h.limit ▸ hfull)⟩
    · rw [heq] at hdropped
      exact absurd (s.engine.stats.dropped_recordAttempts _ _) hdropped
  | settle number index result =>
    obtain ⟨f, -, -, rfl⟩ := hstep
    exact absurd (s.engine.settle_config index result).2.2.2 hdropped
  | release number =>
    obtain ⟨f, hall, -, -, rfl⟩ := hstep
    exact absurd rfl hdropped
  | close =>
    obtain rfl : s' = _ := hstep
    exact absurd rfl hdropped

/-- A release takes one from what is pending, which is not zero. -/
theorem Books.release_step (h : Books t n maxPending past s) {number : ℕ} {s' : EngineState}
    (hstep : (engineSystem num t n maxPending).step s (.release number) s') :
    s'.engine.pending + 1 = s.engine.pending := by
  obtain ⟨f, hall, hf, hopen, rfl⟩ := hstep
  rw [(h.release hf hopen hall).pending_eq, h.pending_eq]
  exact TaskGroup.unreleased_set_release hf hopen hall

/-- An open engine accepts a mutation that has peers, or drops it. -/
theorem Books.replicate_step (h : Books t n maxPending past s) (hopen : s.engine.closed = false)
    (hpeers : s.engine.peers m.key ≠ []) :
    s.Accepted (s.replicate num m) m.key ∨
      s.Dropped (s.replicate num m) ∧ s.engine.pending = maxPending := by
  rcases s.replicate_cases num m with ⟨-, hclosed | ⟨-, hnone⟩⟩ | ⟨heq, -, hfull⟩ | ⟨heq, -⟩
  · rw [hopen] at hclosed
    cases hclosed
  · exact absurd hnone hpeers
  · rw [heq]
    exact Or.inr ⟨⟨rfl, rfl, rfl⟩, le_antisymm h.bound (h.limit ▸ hfull)⟩
  · rw [heq]
    exact Or.inl ⟨rfl, rfl, s.engine.stats.dropped_recordAttempts _ _⟩

/-- **The replication engine keeps exact books**, whatever is replicated and in whatever order the
clients of the peers answer or fail. What is pending are the accepted mutations that have not been
released, each of which is released once, after all of its peers, and none is stuck. The attempts of
a peer are its successes, its failures and its unsettled attempts, one for each mutation that it is
a peer of; these are the other replicas of the key, and never the node itself. A mutation that has
peers is accepted or counted as dropped, and nothing is dropped unless the engine is full. -/
theorem bookkeeping_exact (hrun : (engineSystem num t n maxPending).Run past s) :
    (s.engine.pending ≤ maxPending ∧ s.engine.pending = TaskGroup.unreleased s.fanOuts ∧
      ∀ number s', (engineSystem num t n maxPending).step s (.release number) s' →
        s'.engine.pending + 1 = s.engine.pending) ∧
    ((past.filterMap EngineEvent.releases).Nodup ∧
      (∀ k, k ∈ past.filterMap EngineEvent.releases ↔ TaskGroup.ReleasedAt s.fanOuts k) ∧
      (∀ f ∈ s.fanOuts, f.released = true → f.unsettled = []) ∧
      ∀ result, ∃ later s', (engineSystem num t n maxPending).Trace s later s' ∧
        (∀ event ∈ later, event.Settles result) ∧ s'.engine.pending = 0) ∧
    (∀ p ∈ t.nodes,
      (s.engine.stats.peer p.id).attempted = (s.engine.stats.peer p.id).succeeded +
        (s.engine.stats.peer p.id).failed + TaskGroup.running s.fanOuts p.nodeIndex ∧
      (s.engine.stats.peer p.id).attempted = TaskGroup.started s.fanOuts p.nodeIndex) ∧
    (∀ f ∈ s.fanOuts, f.tasks.Nodup ∧
      (∀ i ∈ f.tasks, i < t.nodes.length ∧
        i ∈ t.ring.lookupReplicaIndices f.subject t.factor ∧ i ≠ n.nodeIndex) ∧
      (n.nodeIndex ∈ t.ring.lookupReplicaIndices f.subject t.factor →
        f.tasks.length = min (t.requestedFactor : ℕ) t.nodes.length - 1)) ∧
    (∀ m, s.engine.closed = false → s.engine.peers m.key ≠ [] →
      s.Accepted (s.replicate num m) m.key ∨
        s.Dropped (s.replicate num m) ∧ s.engine.pending = maxPending) ∧
    ∀ event s', (engineSystem num t n maxPending).step s event s' →
      s'.engine.stats.dropped ≠ s.engine.stats.dropped →
        (∃ m, event = .replicate m) ∧ s.Dropped s' ∧ s.engine.pending = maxPending := by
  have h := books_run hrun
  refine ⟨⟨h.bound, h.pending_eq, fun number s' => h.release_step⟩, ⟨h.released_nodup,
    h.released_iff, fun f _ => f.settled_of_released, fun result => exists_drained result hrun⟩,
    fun p hp => ⟨h.balance p hp, h.attempted_eq p hp⟩, fun f hf => ?_,
    fun m hopen hpeers => h.replicate_step hopen hpeers, fun event s' => h.dropped_step⟩
  refine ⟨f.nodup, fun i hi => ?_, fun hmem => ?_⟩
  · rw [h.tasks_eq f hf, ReplicationEngine.mem_peers, h.config] at hi
    exact ⟨t.replica_lt hi.1, hi⟩
  · rw [h.tasks_eq f hf]
    exact Topology.length_peers hmem h.config

/-- A mutation is accepted, a second one dropped while it is pending, and the client of its peer
fails. -/
theorem bookkeeping_exact_example : ∃ past s,
    (engineSystem decimalNumerals twoNodes ⟨js "a:7000", js "a", 7000, 0⟩ 1).Run past s ∧
      past.length = 3 ∧ s.engine.stats.dropped = 1 ∧ s.engine.pending = 1 ∧
      (s.engine.stats.peer (js "b:7000")).succeeded +
        (s.engine.stats.peer (js "b:7000")).failed = 1 := by
  let sys := engineSystem decimalNumerals twoNodes ⟨js "a:7000", js "a", 7000, 0⟩ 1
  let s₁ := sys.init.replicate decimalNumerals (.del (js "k"))
  let s₂ := s₁.replicate decimalNumerals (.del (js "k"))
  have h₁ : sys.Run [.replicate (.del (js "k"))] s₁ := System.Run.start.snoc rfl
  have h₂ : sys.Run [.replicate (.del (js "k")), .replicate (.del (js "k"))] s₂ := h₁.snoc rfl
  have hunsettled : s₂.fanOuts.map TaskGroup.unsettled = [[1]] := by decide
  obtain ⟨f, hfanOuts, hf⟩ := List.map_eq_singleton_iff.1 hunsettled
  have hnumber : s₂.fanOuts[0]? = some f := by rw [hfanOuts]; rfl
  have hindex : 1 ∈ f.unsettled := by rw [hf]; exact List.mem_cons_self
  let s₃ : EngineState :=
    ⟨s₂.engine.settle 1 (.error (js "timeout")), s₂.fanOuts.set 0 (f.settle 1)⟩
  have h₃ : sys.Run (.settle 0 1 (.error (js "timeout")) :: _) s₃ :=
    h₂.snoc ⟨f, hnumber, hindex, rfl⟩
  obtain ⟨-, -, hpeers, -⟩ := bookkeeping_exact h₃
  obtain ⟨hbalance, hattempted⟩ := hpeers ⟨js "b:7000", js "b", 7000, 1⟩ (by decide)
  obtain ⟨-, -, hpending, hdropped⟩ := s₂.engine.settle_config 1 (.error (js "timeout"))
  refine ⟨_, s₃, h₃, rfl, hdropped.trans (by decide), hpending.trans (by decide), ?_⟩
  have hstarted : TaskGroup.started s₃.fanOuts 1 = 1 :=
    (TaskGroup.started_set_settle hnumber).trans (by decide)
  have hrunning : TaskGroup.running s₃.fanOuts 1 + 1 = 1 :=
    (TaskGroup.running_set_settle hnumber hindex).trans (by decide)
  simp only at hbalance hattempted
  omega

end Books

end DistributedCache
