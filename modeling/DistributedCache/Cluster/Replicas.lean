import DistributedCache.Cluster.OneCache

/-!
# What the replicas serve and hold

Lines for the replicas are handed over, sent and served in any order, late, or never, the stores may
have limits, and the cluster clients may route keys otherwise than the nodes do.

* `Replicated`: the line of an engine is the mutation of a call that the primary of its key served;
* `replicas_apply_once`: every line of an engine that is served is such a line, and none is served
  twice by a node;
* `values_were_set`: every value that any node holds was set by a call that the node of its key
  served, and only a primary's values are at other nodes too.
-/

namespace DistributedCache

open CacheStore

variable {ι : Type} [DecidableEq ι] {num : Numerals} {t : Topology} {cluster : ClusterClient}
  {limits : ℕ → StoreLimits} {w : Network ι} {x x' y : Taken ι} {i p g : ℕ} {o : ClientOp}

/-! ### Where a line of an engine comes from -/

/-- The line of `x` is that of mutation `m` of call `o`, served by the primary of its key as `y`. -/
structure Replicated (num : Numerals) (t : Topology) (calls : ι → ℕ → List ClusterOp)
    (x y : Taken ι) (o : ClientOp) (m : InnerCommand) : Prop where
  call : opOf calls y = some o
  mutation : o.command.mutation = some m
  proper : m.WellFormed num
  primary : t.primary m.key = y.node
  apart : x.node ≠ y.node
  line : x.text = replLine num m

/-- For each node the lines that it has handed over, with the lines that they were served for. -/
structure Tags (num : Numerals) (t : Topology) (w : Network ι)
    (tagged : ℕ → List (((Caller ι × ℕ) × ℕ) × ℕ × JsString)) : Prop where
  sent : ∀ p, (tagged p).map Prod.snd = (w.service p).server.sent
  once : ∀ p, ((tagged p).map fun x => (x.1, x.2.1)).Nodup
  line : ∀ p, ∀ x ∈ tagged p, ∃ e, ((w.service p).server.entries x.1.1)[x.1.2]? = some e ∧
    Replicates num t p e.text x.2

variable {tagged : ℕ → List (((Caller ι × ℕ) × ℕ) × ℕ × JsString)}

theorem Wired.tags (h : Wired num t cluster limits w) : ∃ tagged, Tags num t w tagged := by
  choose tagged hsent honce hline using h.traced
  exact ⟨tagged, hsent, honce, hline⟩

/-- `x` is served as a line that was handed over as `y` was served. -/
def Feeds (w : Network ι) (tagged : ℕ → List (((Caller ι × ℕ) × ℕ) × ℕ × JsString))
    (y x : Taken ι) : Prop :=
  ∃ z ∈ w.handed, ∃ c sid k line item e, x.client = .engine z.server z.engine ∧
    z.peer = x.node ∧ z.id = x.id ∧
    (tagged z.server)[z.place]? = some (((c, sid), k), x.node, line) ∧
    (w.service z.server).Carries c sid k item e ∧ y = .of z.server c e item

/-- A node serves one line only of those that were handed over as `y` was served. -/
theorem Feeds.once (h : Wired num t cluster limits w) (htags : Tags num t w tagged)
    (hx : Feeds w tagged y x) (hx' : Feeds w tagged y x') (hnode : x.node = x'.node) :
    x.key = x'.key := by
  obtain ⟨⟨p, place, g, q, id⟩, hz, c, sid, k, line, item, e, hclient, -, hid, htag, hcarries,
    hy⟩ := hx
  obtain ⟨⟨p', place', g', q', id'⟩, hz', c', sid', k', line', item', e', hclient', -, hid', htag',
    hcarries', hy'⟩ := hx'
  have hsame := hy.symm.trans hy'
  simp only [Taken.of, Taken.mk.injEq] at hsame
  obtain ⟨rfl, rfl, hitem, -⟩ := hsame
  obtain ⟨rfl, rfl⟩ := written_once ((h.linked p).sound c) hcarries.request hcarries'.request hitem
  -- the two were handed over for the same line and the same node, so as one
  have hplace : place = place' := by
    have hlt := (List.getElem?_eq_some_iff.1 htag).1
    refine (List.getElem?_inj (by rwa [List.length_map]) (htags.once p)).1 ?_
    rw [List.getElem?_map, List.getElem?_map, htag, htag', Option.map_some, Option.map_some, hnode]
  subst hplace
  have hone := List.inj_on_of_nodup_map h.places hz hz' rfl
  simp only [Handover.mk.injEq] at hone
  obtain ⟨-, -, rfl, -, rfl⟩ := hone
  rw [Taken.key, Taken.key, hnode, hclient, hclient', ← hid, ← hid']

/-- Every line of an engine was handed over for a call. -/
theorem Wired.feeds (h : Wired num t cluster limits w) (htags : Tags num t w tagged)
    (hx : x ∈ w.history) (hc : x.client = .engine p g) :
    ∃ y ∈ w.history, y.node = p ∧ Feeds w tagged y x ∧
      ∃ o m, Replicated num t w.calls x y o m := by
  obtain ⟨sid₀, k₀, item₀, e₀, hcarries₀, hof⟩ := h.taken x hx
  rw [hc] at hcarries₀
  obtain ⟨hitem, htext⟩ := (h.linked x.node).command hcarries₀
  obtain ⟨z, hz, rfl, rfl, hpeer, hid, line, hsent, hline⟩ := h.placed hitem
  rw [hline, h.arrives hsent] at htext
  rw [← htags.sent, List.getElem?_map] at hsent
  obtain ⟨⟨⟨⟨c, sid⟩, k⟩, send⟩, htag, rfl⟩ := Option.map_eq_some_iff.1 hsent
  obtain ⟨e, hentry, command, m, hparse, hm, hw, hprimary, hapart, hsame⟩ :=
    htags.line z.server _ (List.mem_of_getElem? htag)
  obtain ⟨item, hcarries, -⟩ := (h.linked z.server).carries hentry
  have hx_id : z.id = x.id := by
    rw [hid, hof]
    rfl
  refine ⟨_, h.recorded _ _ _ _ _ _ hcarries, rfl,
    ⟨z, hz, c, sid, k, line, item, e, hc, hpeer, hx_id, htag, hcarries, rfl⟩, ?_⟩
  have hx_text : x.text = replLine num m := by
    have hcut : e₀.text = trim line := (List.append_cancel_right htext).symm
    rw [hof]
    exact hcut.trans hsame
  rcases h.read hcarries hparse with rfl | ⟨j, o, rfl, hop, rfl, -⟩ | ⟨p, g, m, -, -, -, rfl⟩
  · cases hm
  · have hcall : opOf w.calls (.of z.server (.cluster j) e item) = some o := by
      simp only [opOf, Taken.of, hop]
    exact ⟨o, m, hcall, hm, hw, hprimary, hapart, hx_text⟩
  · cases hm

/-- A call sets a key, and the replica is told. -/
theorem replicated_run : ∃ past w, pairNetwork.Run past w ∧
    w.history.map (fun x => (x.key, x.text)) = [((1, .engine 0 0, 0), js "REPL SET k v"),
      ((0, .cluster 0, 0), js "SET k v")] ∧
    ∃ v, (w.service 1).server.node.store.store.get? (js "k") = some v ∧ v.value = js "v" := by
  let S := pairNetwork
  let write : ClusterOp := .keyed (.set ⟨js "k", js "v", none⟩)
  have hwrite : write.Admissible decimalNumerals :=
    ⟨⟨⟨by decide, by decide, fun n hn => by cases hn⟩, by decide, by decide⟩, by decide, by decide⟩
  have hplace (key : JsString) (hkey : some (js "k") = some key) :
      twoNodes.client.resolveNodeIndex key = .ok 0 := by
    cases hkey
    decide
  let clocks : Stream' Clock := Stream'.const (Stream'.const 0)
  have h₀ := System.Run.start (S := S)
  have h₁ := h₀.snoc (l := NetworkEvent.call 0 write 0) (.call _ hwrite hplace)
  have h₂ := h₁.snoc (l := NetworkEvent.service 0 (.client (.cluster 0) .connected))
    (.service _ trivial (.client _ trivial (.connected _ rfl)))
  have h₃ := h₂.snoc (l := NetworkEvent.service 0 (.client (.cluster 0) .resumeLoop))
    (.service _ trivial (.client _ trivial (.resumeReturned _ rfl)))
  have h₄ := h₃.snoc (l := NetworkEvent.service 0 (.server .listen))
    (.service _ trivial (.server _ rfl (.listen _)))
  have h₅ := h₄.snoc (l := NetworkEvent.service 0 (.server (.connection (.cluster 0, 0))))
    (.service _ trivial (.server _ rfl (.connection _ rfl)))
  have h₆ := h₅.snoc (l := NetworkEvent.service 0 (.server (.data (.cluster 0, 0) clocks
      (js "SET k v\n"))))
    (.service _ trivial (.data _ ⟨[], rfl⟩ (.data _ rfl rfl clocks _ rfl)))
  have h₇ := h₆.snoc (l := NetworkEvent.fanOut 0 0 0) (.fanOut _ rfl List.not_mem_nil)
  have h₈ := h₇.snoc (l := NetworkEvent.service 1 (.client (.engine 0 0) .connected))
    (.service _ trivial (.client _ trivial (.connected _ rfl)))
  have h₉ := h₈.snoc (l := NetworkEvent.service 1 (.client (.engine 0 0) .resumeLoop))
    (.service _ trivial (.client _ trivial (.resumeReturned _ rfl)))
  have h₁₀ := h₉.snoc (l := NetworkEvent.service 1 (.server .listen))
    (.service _ trivial (.server _ rfl (.listen _)))
  have h₁₁ := h₁₀.snoc (l := NetworkEvent.service 1 (.server (.connection (.engine 0 0, 0))))
    (.service _ trivial (.server _ rfl (.connection _ rfl)))
  have h₁₂ := h₁₁.snoc (l := NetworkEvent.service 1 (.server (.data (.engine 0 0, 0) clocks
      (js "REPL SET k v\n"))))
    (.service _ trivial (.data _ ⟨[], rfl⟩ (.data _ rfl rfl clocks _ rfl)))
  exact ⟨_, _, h₁₂, by decide +kernel, _, rfl, rfl⟩

variable {past : List (NetworkEvent ι)} {autoReconnect : Caller ι → Bool}
  {maxReconnectAttempts : Caller ι → ℕ}

/-- **A replica serves the mutation of a call at most once.** Every line of an engine that a node
has served is the mutation of a call that the primary of its key has served, and no two lines that
one node has served are those of the same call. -/
theorem replicas_apply_once
    (hrun : (networkSystem num t cluster limits ι autoReconnect maxReconnectAttempts).Run past w) :
    ∃ source : Taken ι → Taken ι,
      (∀ x ∈ w.history, ∀ p g, x.client = .engine p g → source x ∈ w.history ∧
        (source x).node = p ∧ ∃ o m, Replicated num t w.calls x (source x) o m) ∧
      ∀ x ∈ w.history, ∀ x' ∈ w.history, ∀ p g p' g', x.client = .engine p g →
        x'.client = .engine p' g' → x.node = x'.node → source x = source x' → x = x' := by
  have h := run_wired hrun
  obtain ⟨tagged, htags⟩ := h.tags
  have hsource (x : Taken ι) : ∃ y, x ∈ w.history → ∀ p g, x.client = .engine p g →
      y ∈ w.history ∧ y.node = p ∧ Feeds w tagged y x ∧
        ∃ o m, Replicated num t w.calls x y o m := by
    by_cases hx : x ∈ w.history ∧ ∃ p g, x.client = .engine p g
    · obtain ⟨hmem, p, g, hc⟩ := hx
      obtain ⟨y, hy, hall⟩ := h.feeds htags hmem hc
      refine ⟨y, fun _ p' g' hc' => ?_⟩
      rw [hc] at hc'
      cases hc'
      exact ⟨hy, hall⟩
    · exact ⟨x, fun hmem p g hc => absurd ⟨hmem, p, g, hc⟩ hx⟩
  choose source hsource using hsource
  refine ⟨source, fun x hx p g hc => ?_, fun x hx x' hx' p g p' g' hc hc' hnode hsame => ?_⟩
  · obtain ⟨hy, hp, -, hreplicated⟩ := hsource x hx p g hc
    exact ⟨hy, hp, hreplicated⟩
  · obtain ⟨-, -, hfeeds, -⟩ := hsource x hx p g hc
    obtain ⟨-, -, hfeeds', -⟩ := hsource x' hx' p' g' hc'
    rw [← hsame] at hfeeds'
    exact List.inj_on_of_nodup_map h.once hx hx' (hfeeds.once h htags hfeeds' hnode)

/-- The line that the replica serves is that of the call. -/
theorem replicas_apply_once_example : ∃ past w, ∃ source : Taken ℕ → Taken ℕ,
    pairNetwork.Run past w ∧
    (∃ x ∈ w.history, x.client = .engine 0 0) ∧
    ∀ x ∈ w.history, x.client = .engine 0 0 → (source x).key = (0, .cluster 0, 0) := by
  obtain ⟨past, w, hrun, hhistory, -⟩ := replicated_run
  obtain ⟨source, hsource, -⟩ := replicas_apply_once hrun
  have hkey {y : Taken ℕ} (hy : y ∈ w.history) :
      y.key = (1, .engine 0 0, 0) ∨ y.key = (0, .cluster 0, 0) := by
    have hmem : (y.key, y.text) ∈ w.history.map fun x => (x.key, x.text) :=
      List.mem_map.2 ⟨y, hy, rfl⟩
    simp only [hhistory, List.mem_cons, Prod.mk.injEq, List.not_mem_nil, or_false] at hmem
    exact hmem.imp And.left And.left
  refine ⟨past, w, source, hrun, ?_, fun x hx hc => ?_⟩
  · have hmem : ((1, .engine 0 0, 0), js "REPL SET k v") ∈
        w.history.map fun x => (x.key, x.text) := hhistory ▸ List.mem_cons_self
    obtain ⟨x, hx, hsame⟩ := List.mem_map.1 hmem
    exact ⟨x, hx, congrArg (fun z => z.1.2.1) hsame⟩
  · obtain ⟨hmem, hnode, -⟩ := hsource x hx 0 0 hc
    rcases hkey hmem with hone | hzero
    · have hnode' : (source x).node = 1 := congrArg Prod.fst hone
      rw [hnode'] at hnode
      cases hnode
    · exact hzero

/-! ### What a node holds -/

omit [DecidableEq ι] in
/-- What a node holds was set by one of the lines that it has served. -/
theorem run_values {κ : Type} {node node' : CacheNode} {log : List (LogEntry κ)}
    (hinv : Inv node.store) (hempty : ∀ key, node.store.store.get? key = none)
    (hrun : (lineSystem num κ node).Run log node') :
    Inv node'.store ∧ ∀ key v, node'.store.store.get? key = some v → ∃ e ∈ log, ∃ cmd : SetCommand,
      key = cmd.key ∧ v.value = cmd.value ∧ (parseCommand num (dropCr e.text) = .ok (.set cmd) ∨
        parseCommand num (dropCr e.text) = .ok (.repl (.set cmd))) := by
  induction hrun with
  | start =>
    refine ⟨hinv, fun key v hv => ?_⟩
    have hnone : node.store.store.get? key = some v := hv
    rw [hempty] at hnone
    cases hnone
  | snoc _ hstep ih =>
    obtain ⟨hold, hvalues⟩ := ih
    obtain ⟨served, hserve, -, rfl⟩ := hstep
    obtain ⟨hnew, -, hentries⟩ := serve_entries hold hserve
    refine ⟨hnew, fun key v hv => ?_⟩
    rcases hentries key v hv with hbefore | ⟨cmd, hkey, hvalue, hparse⟩
    · obtain ⟨e, he, hset⟩ := hvalues key v hbefore
      exact ⟨e, List.mem_cons_of_mem _ he, hset⟩
    · exact ⟨_, List.mem_cons_self, cmd, hkey, hvalue, hparse⟩

/-- Only a `SET` sets. -/
theorem eq_set_of_mutation {o : ClientOp} {cmd : SetCommand}
    (h : o.command.mutation = some (.set cmd)) : o = .set cmd := by
  cases o with
  | set cmd' =>
    cases h
    rfl
  | keyed name key => cases name <;> cases h

theorem eq_set_of_normal {m : InnerCommand} {cmd : SetCommand} (h : m.normal = .set cmd) :
    m = .set cmd := by
  cases m with
  | set cmd' => exact h
  | del key | delete key => cases h

/-- A call goes to the node that the clients pick. -/
theorem Wired.place (h : Wired num t cluster limits w) (hcall : opOf w.calls y = some o) :
    cluster.resolveNodeIndex o.key = .ok y.node := by
  unfold opOf at hcall
  cases hc : y.client with
  | engine p g =>
    rw [hc] at hcall
    cases hcall
  | cluster j =>
    rw [hc] at hcall
    simp only at hcall
    cases hop : (w.calls j y.node)[y.id]? with
    | none =>
      rw [hop] at hcall
      cases hcall
    | some op =>
      rw [hop] at hcall
      cases op with
      | ping => cases hcall
      | keyed o' =>
        cases hcall
        exact (h.admissible j y.node _ (List.mem_of_getElem? hop)).2 o.key rfl

/-- **What any node holds was set by a client.** Whatever a node holds under a key, the node that
the clients pick for the key has served a call that sets the key to this value. It is the same node,
or else the primary of the key: where the clients route a key otherwise than the nodes do, no other
node ever holds anything under it. -/
theorem values_were_set
    (hrun : (networkSystem num t cluster limits ι autoReconnect maxReconnectAttempts).Run past w)
    {key : JsString} {v : CacheEntry}
    (hv : (w.service i).server.node.store.store.get? key = some v) :
    ∃ y ∈ w.history, ∃ cmd : SetCommand, cluster.resolveNodeIndex key = .ok y.node ∧
      opOf w.calls y = some (.set cmd) ∧ cmd.key = key ∧ cmd.value = v.value ∧
      (y.node = i ∨ y.node = t.primary key) := by
  have h := run_wired hrun
  obtain ⟨-, hvalues⟩ := run_values (inv_new _ _) (fun _ => rfl) (h.linked i).serial.order
  obtain ⟨e, he, cmd, rfl, hvalue, hparse⟩ := hvalues key v hv
  have hmem : e ∈ (w.service i).server.entries (e.peer.1, e.peer.2) :=
    List.mem_filter.2 ⟨List.mem_reverse.1 he, decide_eq_true rfl⟩
  obtain ⟨k, hk⟩ := List.mem_iff_getElem?.1 hmem
  obtain ⟨item, hcarries, -⟩ := (h.linked i).carries hk
  have hx := h.recorded _ _ _ _ _ _ hcarries
  rcases hparse with hparse | hparse
  · -- a call that goes to this node
    rcases h.read hcarries hparse with hping | ⟨j, o, hc, hop, hcommand, hplace⟩ |
      ⟨p, g, m, -, -, -, hrepl⟩
    · cases hping
    · have hmutation : o.command.mutation = some (.set cmd) := by
        rw [← hcommand]
        rfl
      obtain rfl := eq_set_of_mutation hmutation
      refine ⟨_, hx, cmd, hplace, ?_, rfl, hvalue.symm, Or.inl rfl⟩
      simp only [opOf, Taken.of, hc, hop]
    · cases hrepl
  · -- a line of an engine, which has a call as its source
    rcases h.read hcarries hparse with hping | ⟨j, o, -, -, hcommand, -⟩ |
      ⟨p, g, m, hc, hw, hline, hrepl⟩
    · cases hping
    · cases o <;> cases hcommand
    · obtain ⟨tagged, htags⟩ := h.tags
      obtain ⟨y, hy, -, -, o, m', hsource⟩ := h.feeds htags hx hc
      have hsame : replLine num m = replLine num m' := hline.symm.trans hsource.line
      have hnormal : m.normal = m'.normal := by
        have hparse' := parse_replLine hw
        rw [hsame, parse_replLine hsource.proper] at hparse'
        exact (Command.repl.inj (Except.ok.inj hparse')).symm
      obtain rfl := eq_set_of_normal (hnormal.symm.trans (Command.repl.inj hrepl).symm)
      obtain rfl := eq_set_of_mutation hsource.mutation
      exact ⟨y, hy, cmd, h.place hsource.call, hsource.call, rfl, hvalue.symm,
        Or.inr hsource.primary.symm⟩

/-- What the replica holds was set by the call. -/
theorem values_were_set_example : ∃ past w,
    pairNetwork.Run past w ∧
    ∃ v, (w.service 1).server.node.store.store.get? (js "k") = some v ∧ v.value = js "v" ∧
      ∃ y ∈ w.history, ∃ cmd : SetCommand,
        twoNodes.client.resolveNodeIndex (js "k") = .ok y.node ∧
        opOf w.calls y = some (.set cmd) ∧ cmd.key = js "k" ∧ cmd.value = v.value ∧
        (y.node = 1 ∨ y.node = twoNodes.primary (js "k")) := by
  obtain ⟨past, w, hrun, -, v, hv, hvalue⟩ := replicated_run
  exact ⟨past, w, hrun, v, hv, hvalue, values_were_set hrun hv⟩

end DistributedCache
