import DistributedCache.Cluster.Wiring

/-!
# The cluster is one cache

What the nodes hold, each for the keys whose calls go there, is what one single unlimited store
holds (`Sharded`), whatever the bytes, connections, timeouts and engines do. So the commands that
are served, in the order in which they are served, are a run of that store (`OneCache`), and the
whole cluster is linearizable: `cluster_linearizable`. The cluster clients agree on the routing, and
whether the nodes agree with it does not matter.
-/

namespace DistributedCache

open CacheStore

variable {num : Numerals} {t : Topology} {cluster : ClusterClient} {nodes : ℕ → CacheNode}
  {single : CacheStore} {i : ℕ}
  {o : ClientOp} {clock : Clock} {served : Served} {node' : CacheNode}

/-! ### What the nodes hold -/

/-- No store has a limit. -/
def unlimited : ℕ → StoreLimits := fun _ => ⟨none, none⟩

/-- The nodes, without their engines, hold the entries of one store. -/
structure Sharded (cluster : ClusterClient) (nodes : ℕ → CacheNode) (single : CacheStore) :
    Prop where
  free : ∀ i, Free (nodes i).store
  limit : ∀ i, (nodes i).maxLineBytes = DEFAULT_MAX_LINE_BYTES
  whole : Free single
  carried : AllCarried single
  home : ∀ k i, cluster.resolveNodeIndex k = .ok i →
    (nodes i).store.store.get? k = single.store.get? k

theorem sharded_start : Sharded cluster (fun i => (t.startNode unlimited i).alone)
    (CacheStore.new none none) where
  free _ := free_new
  limit _ := rfl
  whole := free_new
  carried _ _ h := by cases h
  home _ _ _ := rfl

/-- A node changes without touching the keys whose calls go there. -/
theorem Sharded.update (h : Sharded cluster nodes single) (hfree : Free node'.store)
    (hlimit : node'.maxLineBytes = DEFAULT_MAX_LINE_BYTES)
    (hget : ∀ k, cluster.resolveNodeIndex k = .ok i →
      node'.store.store.get? k = (nodes i).store.store.get? k) :
    Sharded cluster (Function.update nodes i node') single := by
  refine ⟨fun i' => ?_, fun i' => ?_, h.whole, h.carried, fun k i' hk => ?_⟩
  · by_cases hi : i' = i
    · rw [hi, Function.update_self]
      exact hfree
    · rw [Function.update_of_ne hi]
      exact h.free i'
  · by_cases hi : i' = i
    · rw [hi, Function.update_self]
      exact hlimit
    · rw [Function.update_of_ne hi]
      exact h.limit i'
  · by_cases hi : i' = i
    · subst hi
      rw [Function.update_self, hget k hk]
      exact h.home k i' hk
    · rw [Function.update_of_ne hi]
      exact h.home k i' hk

/-- An operation at the node of its key is the same operation of the single store. -/
theorem Sharded.keyed (h : Sharded cluster nodes single) (hop : o.Admissible num)
    (hunicode : o.Unicode) (hi : cluster.resolveNodeIndex o.key = .ok i)
    (hserve : serveLine num (nodes i) clock (firstLine (o.request num)) = some served) :
    ∃ r single' c' text, single.exec clock o.call = some (r, single', c') ∧
      served.reply = some text ∧ IsWellFormed text ∧
      (o.result num text).toOption = r.toOption.bind Reply.reported ∧
      Sharded cluster (Function.update nodes i served.node) single' := by
  have hsame : (nodes i).store.store.get? o.key = single.store.get? o.key := h.home o.key i hi
  by_cases hpos : o.Positive
  · obtain ⟨served', text, hserve', hreply, htext, hresult, hfree, hkept, hget, -⟩ :=
      serve_op (c := clock) (h.free i) (h.limit i) hop hpos
        fun e he => h.carried o.key e (hsame ▸ he)
    obtain rfl : served' = served := Option.some.inj (hserve'.symm.trans hserve)
    obtain ⟨single', c', hexec, hwhole, hget'⟩ :=
      exec_keyed h.whole clock (check_call hop hpos) o.op_key
    rw [hsame] at hresult
    refine ⟨_, single', c', text, hexec, hreply, htext, hresult, ?_, ?_, hwhole, ?_, ?_⟩
    · intro i'
      by_cases hi' : i' = i
      · rw [hi', Function.update_self]
        exact hfree
      · rw [Function.update_of_ne hi']
        exact h.free i'
    · intro i'
      by_cases hi' : i' = i
      · rw [hi', Function.update_self]
        exact hkept.limit.trans (h.limit i)
      · rw [Function.update_of_ne hi']
        exact h.limit i'
    · intro k e he
      rw [hget'] at he
      split_ifs at he
      · exact carried_entryStep hop hunicode (h.carried o.key) he
      · exact h.carried k e he
    · intro k i' hk
      rw [hget' k]
      -- the node of the key changes as the store does, and the other nodes have other keys
      by_cases hi' : i' = i
      · subst hi'
        rw [Function.update_self, hget k, hsame]
        split_ifs
        · rfl
        · exact h.home k i' hk
      · have hne : k ≠ o.key := by
          rintro rfl
          exact hi' (Except.ok.inj (hk.symm.trans hi))
        rw [Function.update_of_ne hi', if_neg hne]
        exact h.home k i' hk
  · obtain ⟨text, e, hserve', htext, hresult⟩ := serve_refused (h.limit i) hop hpos clock
    obtain rfl := Option.some.inj (hserve'.symm.trans hserve)
    obtain ⟨e', hexec⟩ := call_refused hpos single clock
    refine ⟨_, single, clock, text, hexec, rfl, htext, by rw [hresult]; rfl, ?_⟩
    rwa [Function.update_eq_self]

/-- A `PING` changes nothing. -/
theorem Sharded.ping (h : Sharded cluster nodes single)
    (hserve : serveLine num (nodes i) clock (js "PING") = some served) :
    Sharded cluster (Function.update nodes i served.node) single := by
  have hparse : parseCommand num (dropCr (js "PING")) = .ok .ping :=
    parseCommand_unwords (line_singleton (by decide))
  have hlen : byteLength (dropCr (js "PING")) ≤ (nodes i).maxLineBytes := by
    rw [h.limit]
    decide
  rw [serveLine_of_parse hlen hparse] at hserve
  have hstore : served.node.store = (nodes i).store ∧
      served.node.maxLineBytes = (nodes i).maxLineBytes := by
    cases hserve
    exact ⟨(fanOut_kept (nodes i) .ping).1, (fanOut_kept (nodes i) .ping).2.limit⟩
  refine h.update (hstore.1.symm ▸ h.free i) (hstore.2.trans (h.limit i)) fun k _ => ?_
  rw [hstore.1]

/-- The line of a replicated mutation changes no key whose calls go to this node. -/
theorem Sharded.relayed (h : Sharded cluster nodes single) {text : JsString}
    (hrelayed : Relayed num cluster i text)
    (hserve : serveLine num (nodes i) clock text = some served) :
    Sharded cluster (Function.update nodes i served.node) single := by
  obtain ⟨m, rfl, hw, hother⟩ := hrelayed
  obtain ⟨served', hserve', -, ⟨store', hnode⟩, hfree, hget⟩ :=
    serve_replLine (h.free i) (h.limit i) clock hw
  obtain rfl : served' = served := Option.some.inj (hserve'.symm.trans hserve)
  refine h.update hfree ?_ fun k hk => ?_
  · rw [hnode]
    exact h.limit i
  · have hne : k ≠ m.key := by
      rintro rfl
      exact hother hk
    rw [hget k, if_neg fun hall => hne hall.2]

/-! ### What is served -/

section Served

variable {ι : Type} {calls : ι → ℕ → List ClusterOp} {history xs : List (Taken ι)} {x : Taken ι}
  {e : LogEntry (Caller ι × ℕ)}

/-- The operation that a served command belongs to, unless it is a `PING` or an engine's. -/
def opOf (calls : ι → ℕ → List ClusterOp) (x : Taken ι) : Option ClientOp :=
  match x.client with
  | .cluster j =>
      match (calls j x.node)[x.id]? with
      | some (.keyed o) => some o
      | _ => none
  | .engine _ _ => none

/-- The operations that were served, newest first. -/
def operationsOf (calls : ι → ℕ → List ClusterOp) (history : List (Taken ι)) :
    List (Taken ι × ClientOp) :=
  history.filterMap fun x => (opOf calls x).map fun o => (x, o)

/-- A call of the single store at the readings of an operation, with the same result, as the reply
that arrives reports it; where both are errors, these need not be the same. -/
def AnsweredAs (num : Numerals) (x : Taken ι × ClientOp) (ev : CallEvent) : Prop :=
  ev.clock = x.1.clock ∧ ev.call = x.2.call ∧
    ∃ text, x.1.reply.map toWellFormed = some text ∧
      (x.2.result num text).toOption = ev.result.toOption.bind Reply.reported

/-- The operations are the history of one store, whose entries the nodes hold. -/
def OneCache (num : Numerals) (cluster : ClusterClient) (calls : ι → ℕ → List ClusterOp)
    (history : List (Taken ι)) (nodes : ℕ → CacheNode) : Prop :=
  ∃ past single, (CacheStore.system none none).Run past single ∧
    List.Forall₂ (AnsweredAs num) (operationsOf calls history) past ∧ Sharded cluster nodes single

/-- A line and the command it belongs to. -/
inductive Serves (num : Numerals) (cluster : ClusterClient) (calls : ι → ℕ → List ClusterOp)
    (i : ℕ) :
    Taken ι → LogEntry (Caller ι × ℕ) → Prop
  | call {j : ι} {id : ℕ} {op : ClusterOp} {e : LogEntry (Caller ι × ℕ)}
      (hop : (calls j i)[id]? = some op) (hadmissible : op.Admissible num)
      (hplace : ∀ key, op.key = some key → cluster.resolveNodeIndex key = .ok i)
      (htext : op.request num = e.text ++ newline) :
      Serves num cluster calls i ⟨i, .cluster j, id, e.clock, e.text, e.reply⟩ e
  | relayed {p g id : ℕ} {e : LogEntry (Caller ι × ℕ)} (h : Relayed num cluster i e.text) :
      Serves num cluster calls i ⟨i, .engine p g, id, e.clock, e.text, e.reply⟩ e

/-- **One line.** -/
theorem OneCache.line (h : OneCache num cluster calls history nodes)
    (hx : Serves num cluster calls i x e)
    (hserve : serveLine num (nodes i) e.clock e.text = some served)
    (hreply : served.reply = e.reply) :
    OneCache num cluster calls (x :: history) (Function.update nodes i served.node) := by
  obtain ⟨past, single, hrun, hsame, hsharded⟩ := h
  cases hx with
  | relayed hrelayed => exact ⟨past, single, hrun, hsame, hsharded.relayed hrelayed hserve⟩
  | call hop hadmissible hplace htext =>
    rename_i j id op
    cases op with
    | ping =>
      have hping : e.text = js "PING" := (List.append_cancel_right htext).symm
      rw [hping] at hserve
      have hnone : opOf calls (⟨i, .cluster j, id, e.clock, e.text, e.reply⟩ : Taken ι) = none := by
        simp only [opOf, hop]
      refine ⟨past, single, hrun, ?_, hsharded.ping hserve⟩
      rw [operationsOf, List.filterMap_cons_none (by rw [hnone]; rfl)]
      exact hsame
    | keyed o =>
      have hline : firstLine (o.request num) = e.text := by
        have hwords := (request_eq o).symm.trans htext
        rw [firstLine_request hadmissible.1]
        exact List.append_cancel_right hwords
      rw [← hline] at hserve
      obtain ⟨r, single', c', text, hexec, hserved, htext, hr, hnext⟩ :=
        hsharded.keyed hadmissible.1 hadmissible.2 (hplace o.key rfl) hserve
      have harrives : e.reply.map toWellFormed = some text := by
        rw [← hreply, hserved]
        exact congrArg some htext
      have hsome : opOf calls (⟨i, .cluster j, id, e.clock, e.text, e.reply⟩ : Taken ι) =
          some o := by
        simp only [opOf, hop]
      refine ⟨⟨e.clock, o.call, r⟩ :: past, single', hrun.snoc ⟨c', hexec⟩, ?_, hnext⟩
      rw [operationsOf, List.filterMap_cons_some (by rw [hsome]; rfl)]
      exact .cons ⟨rfl, rfl, text, harrives, hr⟩ hsame

/-- **The lines of a chunk**, served one after the other. -/
theorem OneCache.serve (h : OneCache num cluster calls history nodes) {init : CacheNode}
    {es : List (LogEntry (Caller ι × ℕ))}
    (htrace : (lineSystem num (Caller ι × ℕ) init).Trace (nodes i) es node')
    (hxs : List.Forall₂ (Serves num cluster calls i) xs es) :
    OneCache num cluster calls (xs ++ history) (Function.update nodes i node') := by
  induction htrace generalizing xs with
  | refl =>
    cases hxs
    rw [Function.update_eq_self]
    exact h
  | snoc htrace hstep ih =>
    rename_i es node₁ node₂ e
    cases hxs with
    | cons hx hrest =>
      have hmiddle := ih hrest
      obtain ⟨served, hserve, hreply, rfl⟩ := hstep
      rw [← Function.update_idem]
      refine hmiddle.line hx ?_ hreply
      rw [Function.update_self]
      exact hserve

end Served

/-! ### The whole cluster -/

section Cluster

variable {ι : Type} [DecidableEq ι] {limits : ℕ → StoreLimits} {w w' : Network ι} {j : ι}
  {op : ClusterOp}
  {ev : ServiceEvent (Caller ι)} {s' : Service (Caller ι)} {x : Taken ι}
  {e : LogEntry (Caller ι × ℕ)} {past later : List (NetworkEvent ι)}
  {autoReconnect : Caller ι → Bool} {maxReconnectAttempts : Caller ι → ℕ}

/-- The nodes without their engines. -/
def Network.backends (w : Network ι) (i : ℕ) : CacheNode := (w.service i).server.node.alone

theorem Network.submit_backends (w : Network ι) (i : ℕ) (c : Caller ι) (line : JsString)
    (flag : Bool) : (w.submit i c line flag).backends = w.backends := by
  funext i'
  rw [Network.backends, w.submit_server]
  rfl

/-- What was served had been called. -/
theorem Wired.known (h : Wired num t cluster limits w) (hx : x ∈ w.history)
    (hj : x.client = .cluster j) :
    x.id < (w.calls j x.node).length := by
  obtain ⟨sid, k, item, e, hcarries, hof⟩ := h.taken x hx
  have hid : x.id = item.id := by rw [hof]; rfl
  rw [hj] at hcarries
  obtain ⟨op, hop, -⟩ := h.called ((h.linked x.node).command hcarries).1
  rw [hid]
  exact (List.getElem?_eq_some_iff.1 hop).1

/-- A further call does not change what was served. -/
theorem Wired.operationsOf_call (h : Wired num t cluster limits w) :
    operationsOf (w.call num j op i).calls w.history = operationsOf w.calls w.history := by
  refine List.filterMap_congr fun x hx => congrArg _ ?_
  unfold opOf
  cases hc : x.client with
  | engine p g => rfl
  | cluster j' =>
    simp only [w.calls_call, List.getElem?_append_left (h.known hx hc)]

/-- What is taken in a step of a node is served there. -/
theorem Wired.serves (h : Wired num t cluster limits w)
    (hstep : NodeStep num t limits i (w.service i) ev s') (hx : TakenFor i s' x e) :
    Serves num cluster w.calls i x e := by
  obtain ⟨sid, k, item, hcarries, hof⟩ := hx
  have hnext := h.service hstep
  have hself : Function.update w.service i s' i = s' := Function.update_self i s' w.service
  obtain ⟨hitem, htext⟩ := hstep.linked.command hcarries
  rw [← hself] at hitem
  cases hc : x.client with
  | cluster j =>
    rw [hc] at hof hitem
    obtain ⟨op, hop, hsame⟩ := hnext.called hitem
    obtain ⟨hadmissible, hplace⟩ := h.admissible j i op (List.mem_of_getElem? hop)
    rw [hof]
    refine .call hop hadmissible hplace ?_
    rw [hsame, toWellFormed_request hadmissible] at htext
    exact htext
  | engine p g =>
    rw [hc] at hof hitem
    obtain ⟨y, -, -, -, -, -, line, hsent, hline⟩ := hnext.placed hitem
    rw [hof]
    refine .relayed ?_
    rw [hline, hnext.arrives hsent] at htext
    rw [← List.append_cancel_right htext]
    exact hnext.relayed hsent

/-- **Every step keeps it.** -/
theorem OneCache.step {event : NetworkEvent ι} (h : Wired num t cluster limits w)
    (hcache : OneCache num cluster w.calls w.history w.backends)
    (hstep : NetworkStep num t cluster w event w') :
    OneCache num cluster w'.calls w'.history w'.backends := by
  cases hstep with
  | call hop hi =>
    rename_i j op i
    obtain ⟨past, single, hrun, hsame, hsharded⟩ := hcache
    refine ⟨past, single, hrun, ?_, ?_⟩
    · have hops : operationsOf (w.call num j op i).calls w.history = _ := h.operationsOf_call
      exact hops.symm ▸ hsame
    · have hnodes := w.submit_backends i (.cluster j) (op.request num) true
      exact hnodes.symm ▸ hsharded
  | fanOut hsent hnew =>
    rename_i p g k q line
    have hnodes := w.submit_backends q (.engine p g) (trim line ++ newline) false
    exact hnodes.symm ▸ hcache
  | service hev hservice =>
    rename_i i ev s'
    have hnode := h.nodeStep hev hservice
    obtain ⟨more, htrace, hmore⟩ := hnode.served
    have hnext := hcache.serve htrace (hmore.imp fun _ _ => h.serves hnode)
    have hnodes : ({ w with
        service := Function.update w.service i s'
        history := (w.service i).taken i s' ev ++ w.history } : Network ι).backends =
          Function.update w.backends i s'.server.node.alone := by
      funext i'
      simp only [Network.backends, Function.update_apply]
      split_ifs <;> rfl
    exact hnodes.symm ▸ hnext

theorem run_oneCache
    (hrun : (networkSystem num t cluster unlimited ι autoReconnect maxReconnectAttempts).Run past
      w) :
    OneCache num cluster w.calls w.history w.backends :=
  hrun.invariant (P := fun _ w => OneCache num cluster w.calls w.history w.backends)
    ⟨[], _, .start, .nil, sharded_start⟩
    fun _ _ _ _ hrun h hstep => h.step (run_wired hrun) hstep

/-- Along a trace what was served before comes last. -/
theorem trace_history
    (htrace : (networkSystem num t cluster limits ι autoReconnect maxReconnectAttempts).Trace w
      later w') :
    w.history <:+ w'.history := by
  refine htrace.invariant (P := fun w' => w.history <:+ w'.history) (List.suffix_refl _) ?_
  intro w₁ event w₂ h hstep
  cases hstep with
  | call _ _ => exact h
  | fanOut _ _ => exact h
  | service _ _ => exact h.trans (List.suffix_append _ _)

/-- What a client makes of a notice is an error. -/
theorem dispatch_notice (num : Numerals) {reply : JsString} (h : [reply ++ newline] ∈ notices) :
    ∃ e, dispatchResponse num true (dropCr reply) = .error e := by
  have hhead : reply.head? = some (.char 'E') := by
    simp only [notices, List.mem_cons, List.cons.injEq, List.not_mem_nil, or_false, and_true,
      reduceCtorEq, false_or] at h
    rcases h with h | h
    · rw [List.append_cancel_right (h.trans (rfl : _ = js "ERR input too large" ++ newline))]
      rfl
    · rw [List.append_cancel_right (h.trans (rfl : _ = js "ERR idle timeout" ++ newline))]
      rfl
  unfold dispatchResponse
  rcases parseResponse_of_head hhead with ⟨message, hparse⟩ | ⟨e, hparse⟩
  · rw [hparse]
    exact ⟨_, rfl⟩
  · rw [hparse]
    exact ⟨_, rfl⟩

/-- How a call of cluster client `j` at node `i` is settled: by the client itself, by a notice in
place of a reply, or by what its method makes of the reply to a command that was served. -/
inductive SettledAs (num : Numerals) (w : Network ι) (j : ι) (i : ℕ) (o : ClientOp) (id : ℕ)
    (r : Except ClientError Response) : Prop
  | own (h : CacheClient.OwnError (id, r))
  | notice {reply : JsString} {e : ClientError} (h : [reply ++ newline] ∈ notices)
      (hreply : dispatchResponse num true (dropCr reply) = .error e) (hr : r = .error e)
  | served {x : Taken ι} {text : JsString} (hx : (x, o) ∈ operationsOf w.calls w.history)
      (hkey : x.key = (i, .cluster j, id)) (hreply : x.reply.map toWellFormed = some text)
      (hr : r.bind o.accept = o.result num text)

theorem Wired.settledAs (h : Wired num t cluster limits w) {o : ClientOp} {id : ℕ}
    {r : Except ClientError Response} (hop : (w.calls j i)[id]? = some (.keyed o))
    (hx : (id, r) ∈ ((w.service i).client (.cluster j)).outcomes) : SettledAs num w j i o id r := by
  rcases ((h.linked i).sound (.cluster j)).logged.outcomes _ hx with
    ⟨sid, k, item, reply, hrequest, hanswer, hid, hr⟩ | hown
  · have hitem := ((h.linked i).sound (.cluster j)).logged.requests sid item
      (List.mem_of_getElem? hrequest)
    obtain ⟨op, hsame, hcommand⟩ := h.called hitem
    have hid : item.id = id := hid
    obtain rfl : op = .keyed o := by
      rw [hid, hop] at hsame
      exact (Option.some.inj hsame).symm
    have hflag : item.throwOnServerErr = true := by rw [hcommand]
    have hr : r = dispatchResponse num true (dropCr reply) := hflag ▸ hr
    have hinv : Inv (t.startNode limits i).store := inv_startNode t limits i
    rcases (h.linked i).answer hinv hanswer with hnotice | ⟨e, hentry, hreply⟩
    · obtain ⟨e, he⟩ := dispatch_notice num hnotice
      exact .notice hnotice he (hr.trans he)
    · have hcarries : (w.service i).Carries (.cluster j) sid k item e := ⟨hentry, hrequest⟩
      have hserved := h.recorded i (.cluster j) sid k item e hcarries
      obtain ⟨-, -, -, hline⟩ := (h.linked i).answer_written hinv hanswer
      refine .served (x := .of i (.cluster j) e item) (List.mem_filterMap.2 ⟨_, hserved, ?_⟩) ?_
        hreply ?_
      · have hopOf : opOf w.calls (.of i (.cluster j) e item) = some o := by
          have hitem : (w.calls j i)[item.id]? = some (.keyed o) := hid.symm ▸ hop
          simp only [opOf, Taken.of, hitem]
        rw [hopOf]
        rfl
      · show (i, Caller.cluster j, item.id) = _
        rw [hid]
      · rw [hr, ClientOp.result, firstLine_append_newline hline]
  · exact .own hown

/-- **The cluster is linearizable.** Any number of cluster clients, with their pools of connections
and one way of routing, whichever it is, and with calls that a line can carry; any number of nodes
without limits, with the connections of their engines. Chunks arrive at any time, and connections
time out, break and are made again; servers are closed and started again; replicated lines are sent
late, in any order or never. `w` is any moment of a run and `w'` a later one. The operations that
the nodes have served, in the order in which they have served them, are the history of one unlimited
store with the same readings of the clock and the same results, as far as replies report them (a
time to live of `Infinity` is reported as an error), and the node of a key holds what this store
holds. No call is served twice. A call is settled with the result of its method for the reply that
it was served with, or else with an error. And the order agrees with time: what was settled with a
reply has been served by then, and calls made later are served later. -/
theorem cluster_linearizable
    (hrun : (networkSystem num t cluster unlimited ι autoReconnect maxReconnectAttempts).Run past
      w)
    (htrace : (networkSystem num t cluster unlimited ι autoReconnect maxReconnectAttempts).Trace w
      later w') :
    (∃ history single, (CacheStore.system none none).Run history single ∧
      List.Forall₂ (AnsweredAs num) (operationsOf w'.calls w'.history) history ∧
      ∀ k i, cluster.resolveNodeIndex k = .ok i →
        (w'.service i).server.node.store.store.get? k = single.store.get? k) ∧
    (w'.history.map Taken.key).Nodup ∧
    (∀ j i id o r, (w.calls j i)[id]? = some (.keyed o) →
      (id, r) ∈ ((w.service i).client (.cluster j)).outcomes → SettledAs num w j i o id r) ∧
    w.history <:+ w'.history ∧
    ∀ j, ∀ x ∈ w.history, x.client = .cluster j → x.id < (w.calls j x.node).length := by
  have h := run_wired hrun
  have hrun' := hrun.trace htrace
  obtain ⟨history, single, hsingle, hsame, hsharded⟩ := run_oneCache hrun'
  exact ⟨⟨history, single, hsingle, hsame, hsharded.home⟩,
    (run_wired hrun').once, fun j i id o r hop hx => h.settledAs hop hx, trace_history htrace,
    fun j x hx hj => h.known hx hj⟩

/-- Two nodes and the clients that share their list. -/
abbrev pairNetwork : System (Network ℕ) (NetworkEvent ℕ) :=
  networkSystem decimalNumerals twoNodes twoNodes.client unlimited ℕ (fun _ => true) fun _ => 3

/-- One client sets a key, and once it has been told so another client gets it; the line for the
replica is on its way. -/
theorem cluster_linearizable_example : ∃ past w later w',
    pairNetwork.Run past w ∧ pairNetwork.Trace w later w' ∧
    ((w.service 0).client (.cluster 0)).outcomes = [(0, .ok .ok)] ∧
    (operationsOf w'.calls w'.history).map (fun x => (x.1.key, x.1.reply, x.2)) =
      [((0, .cluster 1, 0), some (js "STR v\n"), .keyed .get (js "k")),
        ((0, .cluster 0, 0), some (js "OK\n"), .set ⟨js "k", js "v", none⟩)] ∧
    ∃ history single, (CacheStore.system none none).Run history single ∧
      List.Forall₂ (AnsweredAs decimalNumerals) (operationsOf w'.calls w'.history) history := by
  let S := pairNetwork
  let write : ClusterOp := .keyed (.set ⟨js "k", js "v", none⟩)
  let read : ClusterOp := .keyed (.keyed .get (js "k"))
  have hwrite : write.Admissible decimalNumerals :=
    ⟨⟨⟨by decide, by decide, fun n hn => by cases hn⟩, by decide, by decide⟩, by decide, by decide⟩
  have hread : read.Admissible decimalNumerals :=
    ⟨⟨by decide, by decide⟩, (by decide : IsWellFormed (js "k"))⟩
  have hplace (key : JsString) (hkey : some (js "k") = some key) :
      twoNodes.client.resolveNodeIndex key = .ok 0 := by
    cases hkey
    decide
  let clocks : Stream' Clock := Stream'.const (Stream'.const 0)
  have h₀ := System.Run.start (S := S)
  have h₁ := h₀.snoc (l := NetworkEvent.call 0 write 0)
    (.call _ hwrite hplace)
  have h₂ := h₁.snoc (l := NetworkEvent.service 0 (.client (.cluster 0) .connected))
    (.service _ trivial (.client _ trivial (.connected _ rfl)))
  have h₃ := h₂.snoc (l := NetworkEvent.service 0 (.client (.cluster 0) .resumeLoop))
    (.service _ trivial (.client _ trivial (.resumeReturned _ rfl)))
  have h₄ := h₃.snoc (l := NetworkEvent.service 0 (.server .listen))
    (.service _ trivial (.server _ rfl (.listen _)))
  have h₅ := h₄.snoc (l := NetworkEvent.service 0 (.server (.connection (.cluster 0, 0))))
    (.service _ trivial (.server _ rfl (.connection _ rfl)))
  have h₆ := h₅.snoc (l := NetworkEvent.service 0 (.server (.data (.cluster 0, 0) clocks
      (js "SET k v\n"))))
    (.service _ trivial (.data _ ⟨[], rfl⟩ (.data _ rfl rfl clocks _ rfl)))
  have h₇ := h₆.snoc (l := NetworkEvent.service 0 (.client (.cluster 0) (.data 0 (js "OK\n"))))
    (.service _ trivial (.client _ trivial (.data _ rfl rfl (rfl : _ = js "OK\n" ++ []))))
  have later {past : List (NetworkEvent ℕ)} {w : Network ℕ} (_ : S.Run past w) : S.Trace w [] w :=
    .refl
  have t₁ := (later h₇).snoc (l := NetworkEvent.fanOut 0 0 0) (.fanOut _ rfl List.not_mem_nil)
  have t₂ := t₁.snoc (l := NetworkEvent.call 1 read 0)
    (.call _ hread hplace)
  have t₃ := t₂.snoc (l := NetworkEvent.service 0 (.client (.cluster 1) .connected))
    (.service _ trivial (.client _ trivial (.connected _ rfl)))
  have t₄ := t₃.snoc (l := NetworkEvent.service 0 (.client (.cluster 1) .resumeLoop))
    (.service _ trivial (.client _ trivial (.resumeReturned _ rfl)))
  have t₅ := t₄.snoc (l := NetworkEvent.service 0 (.server (.connection (.cluster 1, 0))))
    (.service _ trivial (.server _ rfl (.connection _ rfl)))
  have t₆ := t₅.snoc (l := NetworkEvent.service 0 (.server (.data (.cluster 1, 0) clocks
      (js "GET k\n"))))
    (.service _ trivial (.data _ ⟨[], rfl⟩ (.data _ rfl rfl clocks _ rfl)))
  obtain ⟨history, single, hsingle, hsame, -⟩ := (cluster_linearizable h₇ t₆).1
  exact ⟨_, _, _, _, h₇, t₆, rfl, by decide +kernel, history, single, hsingle, hsame⟩

end Cluster

end DistributedCache
