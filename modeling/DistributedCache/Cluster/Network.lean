import DistributedCache.Client.Linearizable
import DistributedCache.Client.Pool
import DistributedCache.Cluster.Provenance
import DistributedCache.Cluster.Paired

/-!
# The whole cluster

Every node is a `CacheServer` with all that is connected to it, as in `Client.Service`: the
`CacheClient`s that the cluster clients have for it, and those of the engines of the other nodes.
A call of a cluster client submits its command to the `CacheClient` for the node of its key; a line
that a server has handed to its engine is submitted to the `CacheClient` of the engine for that
peer, at any time and once, or not at all, as its `connect` fails. All else happens by itself.

* `Network`, `NetworkStep`, `networkSystem`; `Network.history` has the commands that were served;
* `data_spec`, `quiet_spec`: what a step of a server does;
* `NodeStep`: what a step of a node with its clients does.

Calls are admissible (`ClientOp.Admissible`), their keys and values text (`ClientOp.Unicode`). A
server that is given another engine is given one with the same node list. The stores of the nodes
have limits of their own. All cluster clients route in the same way
(`ClusterClient.resolveNodeIndex`), which may be by the ring of the nodes, by any other one, modulo
or with a lookup function.
-/

namespace DistributedCache

open CacheStore

/-! ### The system -/

/-- Whose a `CacheClient` is: that of a cluster client, or of an engine of a node. A server that is
given another engine starts the clients of that one; `g` counts them. -/
inductive Caller (ι : Type)
  | cluster (j : ι)
  | engine (p g : ℕ)
  deriving DecidableEq

/-- A command that a node has served: whose it is, by node, client and number, the clock readings
offered for it, its line, and its reply. -/
structure Taken (ι : Type) where
  node : ℕ
  client : Caller ι
  id : ℕ
  clock : Clock
  text : JsString
  reply : Option JsString

/-- Whose command it is. -/
def Taken.key {ι : Type} (x : Taken ι) : ℕ × Caller ι × ℕ := (x.node, x.client, x.id)

/-- The command whose line is served as `e`. -/
def Taken.of {ι : Type} (i : ℕ) (c : Caller ι) (e : LogEntry (Caller ι × ℕ)) (item : QueueItem) :
    Taken ι := ⟨i, c, item.id, e.clock, e.text, e.reply⟩

/-- The line in a place of those that a server has handed to its engines, which became command `id`
of the client for its peer. -/
structure Handover where
  server : ℕ
  place : ℕ
  engine : ℕ
  peer : ℕ
  id : ℕ

/-- The nodes, each with the `CacheClient`s that the callers have for it. `calls` has the calls of a
cluster client at a node, `handed` what the clients of the engines were given, and `history` the
commands that were served, newest first. -/
structure Network (ι : Type) where
  service : ℕ → Service (Caller ι)
  calls : ι → ℕ → List ClusterOp
  handed : List Handover
  history : List (Taken ι)

/-- What can happen. -/
inductive NetworkEvent (ι : Type)
  | call (j : ι) (op : ClusterOp) (i : ℕ)
  | fanOut (p g k : ℕ)
  | service (i : ℕ) (ev : ServiceEvent (Caller ι))

/-- The key and the value of the operation, if it has any, are admissible and arrive as they are. -/
def ClusterOp.Admissible (num : Numerals) : ClusterOp → Prop
  | .keyed o => o.Admissible num ∧ o.Unicode
  | .ping => True

/-- A node that has just been started. -/
def Topology.startNode (t : Topology) (limits : ℕ → StoreLimits) (i : ℕ) : CacheNode :=
  .new (CacheStore.new (limits i).maxEntries (limits i).maxMemoryBytes) (t.configAt i)

theorem inv_startNode (t : Topology) (limits : ℕ → StoreLimits) (i : ℕ) :
    Inv (t.startNode limits i).store :=
  inv_new _ _

variable {ι : Type} [DecidableEq ι]

/-- The commands served in a step, newest first: lines that are new in the log are those of the next
requests on the connection. -/
def Service.taken (i : ℕ) (s s' : Service (Caller ι)) : ServiceEvent (Caller ι) → List (Taken ι)
  | .server (.data (c, sid) _ _) =>
      (List.zipWith (.of i c) (s'.server.log.drop s.server.log.length)
        (((s.client c).links sid).requests.drop (s.server.entries (c, sid)).length)).reverse
  | _ => []

namespace Network

/-- A command is submitted to a client of node `i`. -/
def submit (w : Network ι) (i : ℕ) (c : Caller ι) (line : JsString) (throwOnServerErr : Bool) :
    Network ι :=
  { w with
    service := Function.update w.service i
      { w.service i with
        client := Function.update (w.service i).client c
          (((w.service i).client c).commandLine line throwOnServerErr) } }

/-- A call of cluster client `j` becomes a command of its `CacheClient` for node `i`. -/
def call (num : Numerals) (w : Network ι) (j : ι) (op : ClusterOp) (i : ℕ) : Network ι :=
  { w.submit i (.cluster j) (op.request num) true with
    calls := Function.update w.calls j (Function.update (w.calls j) i (w.calls j i ++ [op])) }

/-- `executeRaw` of the line in place `k` of those that server `p` has handed to its engines. -/
def fanOut (w : Network ι) (p g k q : ℕ) (line : JsString) : Network ι :=
  { w.submit q (.engine p g) (trim line ++ newline) false with
    handed := ⟨p, k, g, q, ((w.service q).client (.engine p g)).commands.length⟩ :: w.handed }

/-- What may happen at a node by itself. -/
def Allows (t : Topology) (i : ℕ) : ServiceEvent (Caller ι) → Prop
  | .client _ (.submit _ _) => False
  | .server (.enableReplication options) =>
      buildClusterReplicationConfig t.hashKey options.nodeId options.nodes
        (.number options.replicationFactor) (.number options.virtualNodesPerNode) =
          .ok (t.configAt i)
  | _ => True

end Network

/-- The steps. A call goes to the node that the cluster client picks. -/
inductive NetworkStep (num : Numerals) (t : Topology) (cluster : ClusterClient) :
    Network ι → NetworkEvent ι → Network ι → Prop
  | call (w : Network ι) {j : ι} {op : ClusterOp} {i : ℕ} (hop : op.Admissible num)
      (hi : ∀ key, op.key = some key → cluster.resolveNodeIndex key = .ok i) :
      NetworkStep num t cluster w (.call j op i) (w.call num j op i)
  | fanOut (w : Network ι) {p g k q : ℕ} {line : JsString}
      (hsent : (w.service p).server.sent[k]? = some (q, line))
      (hnew : (p, k) ∉ w.handed.map fun x => (x.server, x.place)) :
      NetworkStep num t cluster w (.fanOut p g k) (w.fanOut p g k q line)
  | service (w : Network ι) {i : ℕ} {ev : ServiceEvent (Caller ι)} {s' : Service (Caller ι)}
      (hev : Network.Allows t i ev) (h : ServiceStep num t.hashKey (w.service i) ev s') :
      NetworkStep num t cluster w (.service i ev)
        { w with
          service := Function.update w.service i s'
          history := (w.service i).taken i s' ev ++ w.history }

/-- The cluster of a topology with its clients, nothing having happened yet. -/
def networkSystem (num : Numerals) (t : Topology) (cluster : ClusterClient)
    (limits : ℕ → StoreLimits) (ι : Type) [DecidableEq ι] (autoReconnect : Caller ι → Bool)
    (maxReconnectAttempts : Caller ι → ℕ) : System (Network ι) (NetworkEvent ι) where
  init :=
    { service := fun i =>
        ⟨fun c => .new (autoReconnect c) (maxReconnectAttempts c), .new _ (t.startNode limits i)⟩
      calls := fun _ _ => []
      handed := []
      history := [] }
  step := NetworkStep num t cluster

/-! ### What a server does -/

section Server

variable {κ : Type} [DecidableEq κ] {num : Numerals} {t : Topology} {hashKey : JsString → ℕ}
  {node : CacheNode} {s s' : CacheServer κ} {ev : ServerEvent κ} {peer : κ}
  {clocks : Stream' Clock} {chunk : JsString} {lines : List JsString} {batch : Batch} {i : ℕ}

/-- The mutation of a line that is served by node `i`, the primary of its key, in a line for another
node. -/
def Replicates (num : Numerals) (t : Topology) (i : ℕ) (text : JsString) (send : ℕ × JsString) :
    Prop :=
  ∃ command m, parseCommand num (dropCr text) = .ok command ∧ command.mutation = some m ∧
    m.WellFormed num ∧ t.primary m.key = i ∧ send.1 ≠ i ∧ trim send.2 = replLine num m

/-- Each line that was handed over replicates a line that was served, and no two of them the same
line for the same node; a line is known by its connection and its place there. -/
def Traced (num : Numerals) (t : Topology) (i : ℕ) (log : List (LogEntry κ))
    (sent : List (ℕ × JsString)) : Prop :=
  ∃ tagged : List ((κ × ℕ) × ℕ × JsString), tagged.map Prod.snd = sent ∧
    (tagged.map fun x => (x.1, x.2.1)).Nodup ∧
    ∀ x ∈ tagged, ∃ e, (log.filter fun e => e.peer = x.1.1)[x.1.2]? = some e ∧
      Replicates num t i e.text x.2

/-- One more line. -/
theorem Traced.line {log : List (LogEntry κ)} {sent sends : List (ℕ × JsString)} {e : LogEntry κ}
    (h : Traced num t i log sent) (hnodup : (sends.map Prod.fst).Nodup)
    (hsends : ∀ send ∈ sends, Replicates num t i e.text send) :
    Traced num t i (log ++ [e]) (sent ++ sends) := by
  obtain ⟨tagged, hsent, htags, htraced⟩ := h
  let tag : κ × ℕ := (e.peer, (log.filter fun e' => e'.peer = e.peer).length)
  refine ⟨tagged ++ sends.map fun send => (tag, send), ?_, ?_, fun x hx => ?_⟩
  · rw [List.map_append, hsent, List.map_map]
    exact congrArg _ (List.map_id sends)
  · rw [List.map_append, List.map_map]
    refine List.nodup_append.2 ⟨htags, ?_, ?_⟩
    · have hpairs := hnodup.map (f := fun q => (tag, q)) fun a b hab => (Prod.mk.inj hab).2
      rwa [List.map_map] at hpairs
    · rintro a ha b hb rfl
      obtain ⟨x, hx, rfl⟩ := List.mem_map.1 ha
      obtain ⟨send, -, hsame⟩ := List.mem_map.1 hb
      obtain ⟨e', he', -⟩ := htraced x hx
      have htag : x.1 = tag := (Prod.mk.inj hsame).1.symm
      rw [htag] at he'
      exact absurd (List.getElem?_eq_some_iff.1 he').1 (lt_irrefl _)
  · rw [List.filter_append]
    rcases List.mem_append.1 hx with hold | hnew
    · obtain ⟨e', he', hreplicates⟩ := htraced x hold
      exact ⟨e', CacheClient.getElem?_of_prefix (List.prefix_append _ _) he', hreplicates⟩
    · obtain ⟨send, hsend, rfl⟩ := List.mem_map.1 hnew
      refine ⟨e, ?_, hsends send hsend⟩
      have hself : [e].filter (fun e' => e'.peer = e.peer) = [e] :=
        List.filter_cons_of_pos (decide_eq_true rfl)
      rw [hself, List.getElem?_append_right (le_refl _), Nat.sub_self]
      rfl

omit [DecidableEq κ] in
/-- A line is handed over once for each peer. -/
theorem nodup_fanOut (node : CacheNode) (command : Command) :
    ((node.fanOut num command).2.map Prod.fst).Nodup := by
  have schedule (e : ReplicationEngine) (wireLine key : JsString) :
      ((e.schedule wireLine key).2.map Prod.fst).Nodup := by
    rcases e.schedule_cases wireLine key with ⟨hsame, -⟩ | ⟨hdropped, -⟩ | ⟨haccepted, -⟩
    · rw [hsame]
      exact List.nodup_nil
    · rw [hdropped]
      exact List.nodup_nil
    · rw [haccepted, List.map_map]
      exact (List.map_id _).symm ▸ e.nodup_peers key
  unfold CacheNode.fanOut
  split
  · rename_i e inner _ _
    split_ifs
    · cases inner <;> exact schedule e _ _
    · exact List.nodup_nil
  · exact List.nodup_nil

/-- The engine of node `i`, if there is one, has the configuration of its place in the list. -/
def Configured (t : Topology) (i : ℕ) (node : CacheNode) : Prop :=
  ∀ e, node.replication = some e → e.config = t.configAt i

omit [DecidableEq κ] in
/-- A served line leaves the configuration, and its mutation is what is handed over. -/
theorem serveLine_replicates {c : Clock} {text : JsString} {served : Served}
    (hconfig : Configured t i node) (h : serveLine num node c text = some served) :
    Configured t i served.node ∧ (served.sends.map Prod.fst).Nodup ∧
      ∀ send ∈ served.sends, Replicates num t i text send := by
  rcases serveLine_cases h with ⟨hnode, hsends, -⟩ | ⟨command, hparse, -, hdispatch⟩
  · rw [hnode, hsends]
    exact ⟨hconfig, List.nodup_nil, fun send hsend => absurd hsend List.not_mem_nil⟩
  · rcases dispatch_cases hdispatch with ⟨inner, line, s', rfl, -, -, hnode, hsends⟩ |
      ⟨-, line, s', -, -, hfan⟩
    · rw [hnode, hsends]
      exact ⟨hconfig, List.nodup_nil, fun send hsend => absurd hsend List.not_mem_nil⟩
    · have hnode : served.node = _ := congrArg Prod.fst hfan
      have hsends : served.sends = _ := congrArg Prod.snd hfan
      refine ⟨fun e he => ?_, hsends ▸ nodup_fanOut _ _, fun send hsend => ?_⟩
      · rw [hnode] at he
        cases hengine : node.replication with
        | none =>
          have hsame : CacheNode.fanOut num { node with store := s' } command =
              ({ node with store := s' }, []) := by
            simp only [CacheNode.fanOut, hengine]
          rw [hsame, hengine] at he
          cases he
        | some e₀ =>
          obtain ⟨e', he', hsame, -⟩ :=
            (fanOut_kept { node with store := s' } command).2.engine e₀ hengine
          obtain rfl : e' = e := Option.some.inj (he'.symm.trans he)
          exact hsame.trans (hconfig e₀ hengine)
      · rw [hsends] at hsend
        obtain ⟨m, e, hm, he, hprimary, hpeer, hline⟩ := mem_fanOut _ hsend
        have hi : e.config = t.configAt i := hconfig e he
        have hp : t.primary m.key = i := by
          rw [hi] at hprimary
          exact of_decide_eq_true hprimary
        have hw := wellFormed_of_mutation (wellFormed_of_parse hparse) hm
        exact ⟨command, m, hparse, hm, hw, hp, ((mem_peers hi).1 hpeer).2,
          by rw [replLine, ← hline]⟩

/-- The lines of a chunk. -/
theorem serveLines_replicates (peer : κ) (hconfig : Configured t i node)
    (hserve : serveLines num node clocks lines = some batch) :
    Configured t i batch.node ∧ ∀ log sent, Traced num t i log sent →
      Traced num t i (log ++ serveLog num peer node clocks lines) (sent ++ batch.sends) := by
  induction lines generalizing node clocks batch with
  | nil =>
    cases hserve
    refine ⟨hconfig, fun log sent h => ?_⟩
    simpa only [serveLog, List.append_nil] using h
  | cons text lines ih =>
    rw [serveLines] at hserve
    split at hserve
    · cases hserve
    · rename_i served hline
      obtain ⟨rest, hrest, rfl⟩ := Option.map_eq_some_iff.1 hserve
      obtain ⟨hnode, hnodup, hsends⟩ := serveLine_replicates hconfig hline
      obtain ⟨hlast, hmore⟩ := ih hnode hrest
      refine ⟨hlast, fun log sent h => ?_⟩
      have hnext := hmore _ _
        (h.line (e := ⟨peer, clocks.head, text, served.reply⟩) hnodup hsends)
      simpa only [serveLog, hline, Batch.cons, List.append_assoc, List.singleton_append] using hnext

/-- **A chunk.** The lines that are new in the log are those of its connection, served one after
the other by the sequential node. -/
theorem data_spec (init : CacheNode) (hconfig : Configured t i s.node)
    (hstep : ServerStep num hashKey s (.data peer clocks chunk) s') :
    ∃ more, s'.log = s.log ++ more ∧ (∀ e ∈ more, e.peer = peer) ∧
      (lineSystem num κ init).Trace s.node.alone more.reverse s'.node.alone ∧
      Configured t i s'.node ∧ s.sent <+: s'.sent ∧
      (Traced num t i s.log s.sent → Traced num t i s'.log s'.sent) := by
  cases hstep with
  | data hsocket hopen clocks chunk hdata =>
    rcases onData_cases hdata with ⟨-, rfl⟩ | ⟨-, batch, hbatch, rfl⟩
    · refine ⟨[], rfl, fun e he => absurd he List.not_mem_nil, System.Trace.refl, hconfig,
        List.prefix_append _ _, fun h => ?_⟩
      simpa only [CacheServer.absorb, List.append_nil] using h
    · obtain ⟨htrace, -, -, hpeer, -⟩ := serveLog_spec hbatch peer init
      obtain ⟨hnode, htraced⟩ := serveLines_replicates peer hconfig hbatch
      exact ⟨_, rfl, hpeer, htrace, hnode, List.prefix_append _ _, htraced _ _⟩

/-- **Any other step** serves nothing and hands nothing over. -/
theorem quiet_spec (hstep : ServerStep num hashKey s ev s')
    (hev : ∀ peer clocks chunk, ev ≠ .data peer clocks chunk) :
    s'.log = s.log ∧ s'.sent = s.sent ∧ s'.node.alone = s.node.alone ∧
      (Configured t i s.node →
        (∀ options, ev = .enableReplication options →
          buildClusterReplicationConfig hashKey options.nodeId options.nodes
            (.number options.replicationFactor) (.number options.virtualNodesPerNode) =
              .ok (t.configAt i)) → Configured t i s'.node) := by
  have mapped (f : ReplicationEngine → ReplicationEngine) (hf : ∀ e, (f e).config = e.config)
      (h : Configured t i s.node) : Configured t i (s.mapEngine f).node := by
    intro e he
    obtain ⟨e₀, he₀, rfl⟩ := Option.map_eq_some_iff.1 he
    exact (hf e₀).trans (h e₀ he₀)
  cases hstep with
  | listen =>
    unfold CacheServer.listen
    split_ifs <;> exact ⟨rfl, rfl, rfl, fun h _ => h⟩
  | close =>
    unfold CacheServer.close
    split_ifs
    · exact ⟨rfl, rfl, rfl, fun _ _ e he => by cases he⟩
    · exact ⟨rfl, rfl, rfl, fun h _ => h⟩
  | enableReplication hconfig =>
    obtain ⟨config, hbuild, rfl⟩ := map_eq_ok_iff.1 hconfig
    refine ⟨rfl, rfl, rfl, fun _ hallowed e he => ?_⟩
    cases he
    exact Except.ok.inj (hbuild.symm.trans (hallowed _ rfl))
  | connection hnone =>
    unfold CacheServer.onConnection
    split_ifs <;> exact ⟨rfl, rfl, rfl, fun h _ => h⟩
  | data _ _ clocks chunk _ => exact absurd rfl (hev _ clocks chunk)
  | timeout _ _ | peerEnds _ _ | gone _ | closeTimeout _ | serverClosed _ =>
    exact ⟨rfl, rfl, rfl, fun h _ => h⟩
  | settle index result =>
    refine ⟨rfl, rfl, rfl, fun h _ => mapped (·.settle index result) (fun e => ?_) h⟩
    rcases e.settle_cases index result with hsettle | ⟨message, hsettle⟩ <;> rw [hsettle]
  | release => exact ⟨rfl, rfl, rfl, fun h _ => mapped ReplicationEngine.release (fun _ => rfl) h⟩

end Server

/-! ### One node with its clients -/

section Node

variable {num : Numerals} {t : Topology} {limits : ℕ → StoreLimits} {hashKey : JsString → ℕ}
  {node : CacheNode} {s s' : Service (Caller ι)} {ev : ServiceEvent (Caller ι)} {i sid k : ℕ}
  {c : Caller ι} {item : QueueItem} {e : LogEntry (Caller ι × ℕ)}

/-- Only a submitted command joins the commands of a client. -/
theorem service_commands (h : Linked num node s) (hstep : ServiceStep num hashKey s ev s')
    (hev : ∀ c body flag, ev ≠ .client c (.submit body flag)) (c : Caller ι) :
    (s'.client c).commands = (s.client c).commands := by
  have respond (c₀ : Caller ι) (sid : ℕ) (server : CacheServer (Caller ι × ℕ)) :
      ((s.respond c₀ sid server).client c).commands = (s.client c).commands := by
    simp only [Service.respond, Function.update_apply]
    split_ifs with hc
    · rw [hc]
      rfl
    · rfl
  cases hstep with
  | client hown hclient =>
    rename_i c₀ ev c'
    simp only [Function.update_apply]
    split_ifs with hc
    · subst hc
      have hinternal : ev.Internal := by
        cases ev with
        | submit body flag => exact absurd rfl (hev c body flag)
        | answer _ _ => exact absurd hown id
        | _ => trivial
      have hs := h.sound c
      exact (CacheClient.step_effect hclient hinternal hs.control hs.plugged hs.talk).commands
    · rfl
  | data hnext hserver => exact respond _ _ _
  | timeout howed hserver => exact respond _ _ _
  | late howed =>
    rename_i c₀ sid
    simp only [Service.catchUp, Function.update_apply]
    split_ifs with hc
    · rw [hc]
      rfl
    · rfl
  | idle _ _ | server _ _ => rfl

/-- A line that was served before belongs to the same command as then. -/
theorem carries_old (h : Linked num node s) (hextends : Extends s s')
    (hcarries : s'.Carries c sid k item e) (hk : k < (s.server.entries (c, sid)).length) :
    s.Carries c sid k item e := by
  have hentry : (s.server.entries (c, sid))[k]? = some e := by
    have hget := List.getElem?_eq_getElem hk
    rw [hget]
    exact (CacheClient.getElem?_of_prefix (entries_mono hextends.log _) hget).symm.trans
      hcarries.entry
  obtain ⟨item', hold, -⟩ := h.carries hentry
  have hsame := CacheClient.getElem?_of_prefix (hextends.requests c sid) hold.request
  rw [hcarries.request] at hsame
  cases hsame
  exact hold

theorem Service.Carries.mono (h : s.Carries c sid k item e) (hextends : Extends s s') :
    s'.Carries c sid k item e :=
  ⟨CacheClient.getElem?_of_prefix (entries_mono hextends.log _) h.entry,
    CacheClient.getElem?_of_prefix (hextends.requests c sid) h.request⟩

theorem map_zipWith_prefix {α β γ δ : Type} {f : α → β → γ} {g : γ → δ} {h : β → δ}
    (hg : ∀ a b, g (f a b) = h b) (l : List α) (l' : List β) :
    (List.zipWith f l l').map g <+: l'.map h := by
  induction l generalizing l' with
  | nil => exact List.nil_prefix
  | cons a l ih =>
    cases l' with
    | nil => exact List.nil_prefix
    | cons b l' =>
      simp only [List.zipWith_cons_cons, List.map_cons, hg]
      exact (List.prefix_cons_inj _).2 (ih l')

/-- The lines that are served in a step are those of the commands it takes. -/
structure TakesNext (i : ℕ) (s : Service (Caller ι)) (ev : ServiceEvent (Caller ι))
    (s' : Service (Caller ι)) : Prop where
  recorded : ∀ c sid k item e, s'.Carries c sid k item e →
    s.Carries c sid k item e ∨ .of i c e item ∈ s.taken i s' ev
  taken : ∀ x ∈ s.taken i s' ev, ∃ sid k item e, s'.Carries x.client sid k item e ∧
    x = .of i x.client e item ∧ (s.server.entries (x.client, sid)).length ≤ k
  once : ((s.taken i s' ev).map Taken.key).Nodup

/-- A step that serves nothing takes no command. -/
theorem takes_quiet (h : Linked num node s) (hextends : Extends s s')
    (hlog : s'.server.log = s.server.log) (hnone : s.taken i s' ev = []) : TakesNext i s ev s' := by
  refine ⟨fun c sid k item e hcarries => Or.inl ?_, fun x hx => ?_, ?_⟩
  · have hk := (List.getElem?_eq_some_iff.1 hcarries.entry).1
    have hsame : s'.server.entries (c, sid) = s.server.entries (c, sid) := by
      unfold CacheServer.entries
      rw [hlog]
    exact carries_old h hextends hcarries (hsame ▸ hk)
  · rw [hnone] at hx
    exact absurd hx List.not_mem_nil
  · rw [hnone]
    exact List.nodup_nil

section Chunk

variable {c₀ : Caller ι} {sid₀ n : ℕ} {clocks : Stream' Clock} {chunk : JsString}
  {more : List (LogEntry (Caller ι × ℕ))}

/-- The requests on a socket whose lines have not been served. -/
def Service.unserved (s : Service (Caller ι)) (c : Caller ι) (sid : ℕ) : List QueueItem :=
  ((s.client c).links sid).requests.drop (s.server.entries (c, sid)).length

theorem taken_data (hlog : s'.server.log = s.server.log ++ more) :
    s.taken i s' (.server (.data (c₀, sid₀) clocks chunk)) =
      (List.zipWith (.of i c₀) more (s.unserved c₀ sid₀)).reverse := by
  simp only [Service.taken, Service.unserved, hlog, List.drop_left]

/-- The lines of a chunk are those of the next requests. -/
theorem carries_next (hlog : s'.server.log = s.server.log ++ more)
    (hpeer : ∀ e ∈ more, e.peer = (c₀, sid₀))
    (hrequests : ((s'.client c₀).links sid₀).requests = ((s.client c₀).links sid₀).requests)
    (hentry : more[n]? = some e) (hitem : (s.unserved c₀ sid₀)[n]? = some item) :
    s'.Carries c₀ sid₀ ((s.server.entries (c₀, sid₀)).length + n) item e := by
  constructor
  · rw [entries_append hlog hpeer, if_pos rfl, List.getElem?_append_right (Nat.le_add_right _ _),
      Nat.add_sub_cancel_left]
    exact hentry
  · rw [Service.unserved, List.getElem?_drop] at hitem
    rw [hrequests]
    exact hitem

/-- A chunk takes the next commands of its connection. -/
theorem takes_data (h : Linked num node s) (hextends : Extends s s')
    (hlog : s'.server.log = s.server.log ++ more) (hpeer : ∀ e ∈ more, e.peer = (c₀, sid₀))
    (hrequests : ((s'.client c₀).links sid₀).requests = ((s.client c₀).links sid₀).requests) :
    TakesNext i s (.server (.data (c₀, sid₀) clocks chunk)) s' := by
  refine ⟨fun c sid k item e hcarries => ?_, fun x hx => ?_, ?_⟩
  · rcases lt_or_ge k (s.server.entries (c, sid)).length with hk | hk
    · exact Or.inl (carries_old h hextends hcarries hk)
    · right
      have hentry := hcarries.entry
      rw [entries_append hlog hpeer, List.getElem?_append_right hk] at hentry
      split_ifs at hentry with hconn
      · cases hconn
        rw [taken_data hlog, List.mem_reverse]
        refine List.mem_of_getElem? (i := k - (s.server.entries (c₀, sid₀)).length) ?_
        have hrequest := hcarries.request
        rw [hrequests] at hrequest
        rw [List.getElem?_zipWith, hentry, Service.unserved, List.getElem?_drop,
          Nat.add_sub_cancel' hk, hrequest]
      · cases hentry
  · rw [taken_data hlog, List.mem_reverse] at hx
    obtain ⟨n, hn⟩ := List.mem_iff_getElem?.1 hx
    obtain ⟨e, item, hentry, hitem, rfl⟩ := List.getElem?_zipWith_eq_some.1 hn
    exact ⟨sid₀, _, item, e, carries_next hlog hpeer hrequests hentry hitem, rfl,
      Nat.le_add_right _ _⟩
  · rw [taken_data hlog, List.map_reverse]
    refine List.nodup_reverse.2 ?_
    have hkeys := map_zipWith_prefix (f := Taken.of i c₀) (g := Taken.key)
      (h := fun item => (i, c₀, item.id)) (fun _ _ => rfl) more (s.unserved c₀ sid₀)
    refine List.Nodup.sublist (hkeys.sublist.trans ((List.drop_sublist _ _).map _)) ?_
    have hids := (nodup_requests (h.sound c₀) sid₀).map (f := fun id => (i, c₀, id))
      fun a b hab => (Prod.mk.inj (Prod.mk.inj hab).2).2
    rwa [List.map_map] at hids

/-- No line is served that is not a request's. -/
theorem length_more (h' : Linked num node s') (hlog : s'.server.log = s.server.log ++ more)
    (hpeer : ∀ e ∈ more, e.peer = (c₀, sid₀))
    (hrequests : ((s'.client c₀).links sid₀).requests = ((s.client c₀).links sid₀).requests) :
    more.length ≤ (s.unserved c₀ sid₀).length := by
  have hle := (h'.entries c₀ sid₀).length_le
  rw [List.length_map, List.length_map, entries_append hlog hpeer, if_pos rfl, hrequests,
    List.length_append] at hle
  rw [Service.unserved, List.length_drop]
  omega

end Chunk

theorem forall₂_zipWith {α β γ : Type} {f : α → β → γ} {R : γ → α → Prop} {l : List α}
    {l' : List β} (hlen : l.length ≤ l'.length)
    (h : ∀ (n : ℕ) a b, l[n]? = some a → l'[n]? = some b → R (f a b) a) :
    List.Forall₂ R (List.zipWith f l l') l := by
  induction l generalizing l' with
  | nil => exact .nil
  | cons a l ih =>
    cases l' with
    | nil => exact absurd hlen (Nat.not_succ_le_zero _)
    | cons b l' =>
      exact .cons (h 0 a b rfl rfl) (ih (Nat.le_of_succ_le_succ hlen) fun n a b ha hb =>
        h (n + 1) a b ha hb)

/-- A command that was taken in a step, with its line. -/
def TakenFor (i : ℕ) (s' : Service (Caller ι)) (x : Taken ι) (e : LogEntry (Caller ι × ℕ)) : Prop :=
  ∃ sid k item, s'.Carries x.client sid k item e ∧ x = .of i x.client e item

/-- What a step of a node with its clients does. -/
structure NodeStep (num : Numerals) (t : Topology) (limits : ℕ → StoreLimits) (i : ℕ)
    (s : Service (Caller ι)) (ev : ServiceEvent (Caller ι)) (s' : Service (Caller ι)) : Prop where
  linked : Linked num (t.startNode limits i) s'
  grows : Extends s s'
  takes : TakesNext i s ev s'
  configured : Configured t i s'.server.node
  commands : ∀ c, (s'.client c).commands = (s.client c).commands
  sent : s.server.sent <+: s'.server.sent
  traced : Traced num t i s.server.log s.server.sent → Traced num t i s'.server.log s'.server.sent
  served : ∃ more, (lineSystem num (Caller ι × ℕ) (t.startNode limits i).alone).Trace
    s.server.node.alone more s'.server.node.alone ∧
      List.Forall₂ (TakenFor i s') (s.taken i s' ev) more

theorem respond_frame (s : Service (Caller ι)) (c₀ : Caller ι) (sid : ℕ)
    (server : CacheServer (Caller ι × ℕ)) (c : Caller ι) (sid' : ℕ) :
    (((s.respond c₀ sid server).client c).links sid').requests =
      ((s.client c).links sid').requests := by
  simp only [Service.respond, Function.update_apply]
  split_ifs with hc
  · subst hc
    simp only [CacheClient.receive, CacheClient.setLink, Function.update_apply]
    split_ifs with hs
    · rw [hs]
    · rfl
  · rfl

/-- A step of the server that serves nothing, or of a client. -/
theorem nodeStep_quiet (h : Linked num (t.startNode limits i) s)
    (hlinked : Linked num (t.startNode limits i) s') (hgrows : Extends s s')
    (hlog : s'.server.log = s.server.log) (hsent : s'.server.sent = s.server.sent)
    (hnode : s'.server.node.alone = s.server.node.alone) (hconfig : Configured t i s'.server.node)
    (hcommands : ∀ c, (s'.client c).commands = (s.client c).commands)
    (hnone : s.taken i s' ev = []) : NodeStep num t limits i s ev s' where
  linked := hlinked
  grows := hgrows
  takes := takes_quiet h hgrows hlog hnone
  configured := hconfig
  commands := hcommands
  sent := hsent ▸ List.prefix_refl _
  traced h := by rwa [hlog, hsent]
  served := ⟨[], hnode ▸ .refl, hnone ▸ .nil⟩

/-- **Every step of a node** with its clients, other than a submission, is one of these. -/
theorem nodeStep (h : Linked num (t.startNode limits i) s) (hconfig : Configured t i s.server.node)
    (hsubmit : ∀ c body flag, ev ≠ .client c (.submit body flag))
    (henable : ∀ options, ev = .server (.enableReplication options) →
      buildClusterReplicationConfig t.hashKey options.nodeId options.nodes
        (.number options.replicationFactor) (.number options.virtualNodesPerNode) =
          .ok (t.configAt i))
    (hstep : ServiceStep num t.hashKey s ev s') : NodeStep num t limits i s ev s' := by
  have hlinked := h.step (inv_startNode t limits i) hstep
  have hgrows := h.extends hstep
  have hcommands := service_commands h hstep hsubmit
  cases hstep with
  | client hown hclient =>
    exact nodeStep_quiet h hlinked hgrows rfl rfl rfl hconfig hcommands rfl
  | timeout _ hserver | idle _ hserver =>
    obtain ⟨hlog, hsent, hnode, hkept⟩ := quiet_spec hserver fun _ _ _ heq => by cases heq
    exact nodeStep_quiet h hlinked hgrows hlog hsent hnode
      (hkept hconfig fun _ heq => by cases heq) hcommands rfl
  | late howed => exact nodeStep_quiet h hlinked hgrows rfl rfl rfl hconfig hcommands rfl
  | server hwrites hserver =>
    rename_i ev server
    have hdata : ∀ peer clocks chunk, ev ≠ .data peer clocks chunk := by
      rintro peer clocks chunk rfl
      cases hwrites
    obtain ⟨hlog, hsent, hnode, hkept⟩ := quiet_spec hserver hdata
    have hnone : s.taken i { s with server := server } (.server ev) = [] := by
      cases ev with
      | data peer clocks chunk => exact absurd rfl (hdata peer clocks chunk)
      | _ => rfl
    refine nodeStep_quiet h hlinked hgrows hlog hsent hnode (hkept hconfig fun options heq => ?_)
      hcommands hnone
    exact henable options (congrArg _ heq)
  | data hnext hserver =>
    rename_i c₀ sid₀ clocks chunk server
    obtain ⟨more, hlog, hpeer, htrace, hconfig', hsent, htraced⟩ :=
      data_spec (t.startNode limits i).alone hconfig hserver
    have hlog : (s.respond c₀ sid₀ server).server.log = s.server.log ++ more := hlog
    have hrequests := respond_frame s c₀ sid₀ server c₀ sid₀
    refine ⟨hlinked, hgrows, takes_data h hgrows hlog hpeer hrequests, hconfig', hcommands, hsent,
      htraced, more.reverse, htrace, ?_⟩
    rw [taken_data hlog]
    refine List.forall₂_reverse_iff.2 (forall₂_zipWith
      (length_more hlinked hlog hpeer hrequests) fun n e item he hitem => ?_)
    exact ⟨sid₀, _, item, carries_next hlog hpeer hrequests he hitem, rfl⟩

end Node

end DistributedCache
