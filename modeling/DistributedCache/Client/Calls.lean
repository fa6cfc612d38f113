import DistributedCache.Client.Pool

/-!
# The calls of a cluster client

What a run of `Client.Pool` promises to those who call: calls on a key keep their order
(`calls_in_order`), each reports the answer of the right node to its own line or an error under the
name of that node (`call_results`), and none is taken after `close` (`closed_for_good`).
-/

namespace DistributedCache

namespace ClusterPool

variable {num : Numerals} {cluster : ClusterClient} {autoReconnect : Bool}
  {maxReconnectAttempts : ℕ} {s s' t : ClusterPool} {past later : List PoolEvent} {b : ℕ}
  {c : CacheClient} {ev : ClientEvent} {call : ClusterCall}

/-! ### Two nodes -/

/-- Two nodes, and keys that are routed by their length. -/
def twoNodes : ClusterClientOptions where
  nodes := [⟨some (js "a"), js "h", .int 1⟩, ⟨some (js "b"), js "h", .int 2⟩]
  routing := .modulo
  virtualNodesPerNode := ⟨1, Nat.one_pos⟩
  hashKey := List.length
  lookupNodeIndex := none

/-- The client that these options give. -/
def twoNodesClient : ClusterClient where
  nodes := [⟨js "a", js "h", 1⟩, ⟨js "b", js "h", 2⟩]
  routing := .modulo
  hashFn := List.length
  lookupNodeIndex := none
  ring := .new _ (ClusterClient.ringNodes_ne_nil (List.cons_ne_nil ⟨js "a", js "h", 1⟩
    [⟨js "b", js "h", 2⟩])) ⟨1, Nat.one_pos⟩ List.length

theorem new_twoNodes : ClusterClient.new List.length twoNodes = .ok twoNodesClient := rfl

/-! ### Calls -/

/-- **Calls on a key keep their order.** In every run of a cluster client there is one `CacheClient`
for a node and ever, and it is in a run of its own. A call is a command of the one that belongs to
the node of its key; of two calls on one key the earlier is the earlier command of the same
`CacheClient`, and is settled before the later one is written. -/
theorem calls_in_order {hash : JsString → ℕ} {options : ClusterClientOptions}
    (hnew : ClusterClient.new hash options = .ok cluster)
    (hrun : (poolSystem num cluster autoReconnect maxReconnectAttempts).Run past s) :
    (s.created.Nodup ∧ ∀ i ∈ s.created, i < cluster.nodes.length) ∧
    (∀ b, ∃ past,
      (clientSystem num autoReconnect maxReconnectAttempts).Run past (s.backends b)) ∧
    (∀ call ∈ s.calls, ∀ b id, call.place = .ok (b, id) →
      (s.backends b).commands[id]? = some ⟨id, call.op.request num, true⟩ ∧
        ∃ i, s.created[b]? = some i ∧
          ∀ key, call.op.key = some key → cluster.resolveNodeIndex key = .ok i) ∧
    s.calls.Pairwise fun call call' => ∀ b id b' id' key, call.place = .ok (b, id) →
      call'.place = .ok (b', id') → call.op.key = some key → call'.op.key = some key →
        b = b' ∧ id < id' ∧ ∀ sid, (id', sid) ∈ (s.backends b).writes →
          id ∈ (s.backends b).outcomes.map Prod.fst := by
  have h := run_pooled hnew hrun
  refine ⟨⟨h.nodup, h.created_lt⟩, h.runs, h.placed, ?_⟩
  refine h.order.imp_of_mem fun {call call'} hcall hcall' horder b id b' id' key hplace hplace'
    hkey hkey' => ?_
  obtain ⟨-, i, hi, hresolve⟩ := h.placed call hcall b id hplace
  obtain ⟨-, i', hi', hresolve'⟩ := h.placed call' hcall' b' id' hplace'
  obtain rfl : i = i' := Except.ok.inj ((hresolve key hkey).symm.trans (hresolve' key hkey'))
  -- a node has one client
  have hlt := (List.getElem?_eq_some_iff.1 hi).1
  obtain rfl : b = b' := (List.getElem?_inj hlt h.nodup).1 (hi.trans hi'.symm)
  have hid := horder b id id' hplace hplace'
  exact ⟨rfl, hid, fun sid hwritten => (h.sound b).ordered.ended_of_lt hwritten hid⟩

/-- The second call on the key waits behind the first. -/
theorem calls_in_order_example : ∃ s : ClusterPool, s.created = [1, 0] ∧
    s.calls.map ClusterCall.place = [.ok (0, 0), .ok (1, 0), .ok (0, 1)] ∧ s.created.Nodup := by
  let S := poolSystem decimalNumerals twoNodesClient true 3
  have h₀ := System.Run.start (S := S)
  have h₁ := h₀.snoc (l := PoolEvent.call (.keyed .get (js "k"))) (.call _ _ (by decide))
  have h₂ := h₁.snoc (l := PoolEvent.call (.keyed .get (js "key0"))) (.call _ _ (by decide))
  have h₃ := h₂.snoc (l := PoolEvent.call (.keyed .ttl (js "k"))) (.call _ _ (by decide))
  exact ⟨_, rfl, rfl, (calls_in_order new_twoNodes h₃).1.1⟩

/-- **What a call reports.** Once a call is settled its result stays what it is. A call that was
refused reports why; any other one reports what its method makes of the answer of its node to its
own line, or an error of its `CacheClient`, under the name of the node: no call reports a bare
connection error. -/
theorem call_results {hash : JsString → ℕ} {options : ClusterClientOptions}
    (hnew : ClusterClient.new hash options = .ok cluster)
    (hrun : (poolSystem num cluster autoReconnect maxReconnectAttempts).Run past s)
    (hcall : call ∈ s.calls) {r : Except ClientError Reply}
    (hr : s.result cluster call = some r) :
    (∀ later t, (poolSystem num cluster autoReconnect maxReconnectAttempts).Trace s later t →
      call ∈ t.calls ∧ t.result cluster call = some r) ∧
    ((∃ err, call.place = .error err ∧ r = .error err) ∨
      ∃ b id i node, call.place = .ok (b, id) ∧ s.created[b]? = some i ∧
        cluster.nodes[i]? = some node ∧
        ((∃ (sid k : ℕ) (text : JsString),
            ((s.backends b).links sid).requests[k]? = some ⟨id, call.op.request num, true⟩ ∧
            ((s.backends b).links sid).answers[k]? = some text ∧
            r = ((dispatchResponse num true (dropCr text)).bind call.op.accept).mapError
              (ClusterClient.wrapBackendError node)) ∨
          ∃ err, err.code ≠ .serverError ∧
            r = .error (ClusterClient.wrapBackendError node err)) ∧
        ∀ err, r = .error err → err.code ∉ [ClientErrorCode.connectTimeout, .connectionError,
          .connectionClosed, .commandTimeout]) := by
  have h := run_pooled hnew hrun
  constructor
  · intro later t htrace
    obtain ⟨ht, hgrows⟩ := trace_grows hnew h htrace
    refine ⟨hgrows.calls.subset hcall, ?_⟩
    unfold result at hr ⊢
    split at hr
    · exact hr
    · rename_i b id hplace
      obtain ⟨-, i, hi, -⟩ := h.placed call hcall b id hplace
      obtain ⟨outcome, hlookup, rfl⟩ := Option.map_eq_some_iff.1 hr
      have hi' := CacheClient.getElem?_of_prefix hgrows.created hi
      rw [Ledger.lookup_of_suffix (hgrows.outcomes b) (ht.sound b).ordered.ended_nodup hlookup]
      simp only [Option.map_some, List.getD_eq_getElem?_getD, hi, hi']
  · unfold result at hr
    split at hr
    · rename_i err hplace
      exact Or.inl ⟨err, hplace, (Option.some.inj hr).symm⟩
    · rename_i b id hplace
      obtain ⟨hcommand, i, hi, -⟩ := h.placed call hcall b id hplace
      have hlt := h.created_lt i (List.mem_of_getElem? hi)
      have hnode := List.getElem?_eq_getElem hlt
      obtain ⟨outcome, hlookup, rfl⟩ := Option.map_eq_some_iff.1 hr
      have hsettle (r : Except ClientError Reply) : cluster.settle (s.created.getD b 0) r =
          r.mapError (ClusterClient.wrapBackendError cluster.nodes[i]) := by
        unfold ClusterClient.settle
        rw [List.getD_eq_getElem?_getD, hi, Option.getD_some, hnode]
      have hmem : (id, outcome) ∈ (s.backends b).outcomes := by
        obtain ⟨l₁, l₂, hl, -⟩ := List.lookup_eq_some_iff.1 hlookup
        rw [hl]
        simp
      refine Or.inr ⟨b, id, i, _, hplace, hi, hnode, ?_, fun err herr => ?_⟩
      · rw [hsettle]
        rcases (h.sound b).logged.outcomes _ hmem with
          ⟨sid, k, item, text, hrequest, hanswer, hid, hx⟩ | ⟨err, hx, hcode⟩
        · have hitem := (h.sound b).logged.requests sid item (List.mem_of_getElem? hrequest)
          rw [hid] at hitem
          cases hitem.symm.trans hcommand
          exact Or.inl ⟨sid, k, text, hrequest, hanswer, by rw [← hx]⟩
        · refine Or.inr ⟨err, hcode, ?_⟩
          have hx : outcome = .error err := hx
          rw [hx]
          rfl
      · rw [hsettle] at herr
        cases hbind : outcome.bind call.op.accept with
        | ok reply => rw [hbind] at herr; cases herr
        | error e =>
          rw [hbind] at herr
          obtain rfl := Except.error.inj herr
          unfold ClusterClient.wrapBackendError
          cases hcode : e.code <;> simp [hcode]

/-- A node that refuses the connection. -/
theorem call_results_example : ∃ (s : ClusterPool) (call : ClusterCall)
    (r : Except ClientError Reply),
    r = .error ⟨.nodeUnavailable, js "node b unavailable: refused"⟩ ∧
    s.result twoNodesClient call = some r ∧
    ∀ later t, (poolSystem decimalNumerals twoNodesClient true 1).Trace s later t →
      call ∈ t.calls ∧ t.result twoNodesClient call = some r := by
  let S := poolSystem decimalNumerals twoNodesClient true 1
  have h₀ := System.Run.start (S := S)
  have h₁ := h₀.snoc (l := PoolEvent.call (.keyed .get (js "k"))) (.call _ _ (by decide))
  have h₂ := h₁.snoc (l := PoolEvent.backend 0 (.connectError (js "refused")))
    (.backend _ Nat.one_pos trivial (.connectError _ rfl _))
  have h₃ := h₂.snoc (l := PoolEvent.backend 0 .resumeLoop)
    (.backend _ Nat.one_pos trivial (.resumeFailed _ rfl))
  have h₄ := h₃.snoc (l := PoolEvent.backend 0 .resumeLoop)
    (.backend _ Nat.one_pos trivial (.resumeThrew _ rfl))
  exact ⟨_, ⟨.keyed (.keyed .get (js "k")), .ok (0, 0)⟩, _, rfl, rfl,
    (call_results new_twoNodes h₄ (List.mem_singleton.2 rfl) rfl).1⟩

/-! ### After `close` -/

/-- Since `s` no client has been created and no command submitted: every call has been refused. -/
structure Retired (s t : ClusterPool) : Prop where
  closed : t.closed = true
  created : t.created = s.created
  commands : ∀ b, (t.backends b).commands = (s.backends b).commands
  refused : ∃ more, t.calls = s.calls ++ more ∧ ∀ call ∈ more, ∃ err, call.place = .error err

theorem Retired.refuse (h : Retired s t) (op : ClusterOp) (err : ClientError) :
    Retired s (t.refuse op err) := by
  obtain ⟨more, hcalls, hmore⟩ := h.refused
  refine ⟨h.closed, h.created, h.commands, more ++ [⟨op, .error err⟩], ?_, fun call hcall => ?_⟩
  · rw [← List.append_assoc, ← hcalls]
    rfl
  · rcases List.mem_append.1 hcall with hcall | hcall
    · exact hmore call hcall
    · exact ⟨err, by rw [List.mem_singleton.1 hcall]⟩

/-- Nothing but a call of the user gives a `CacheClient` a command. -/
theorem commands_of_unprompted {c' : CacheClient} (hs : CacheClient.Sound num c)
    (hev : ev.Unprompted) (h : ClientStep num c ev c') : c'.commands = c.commands := by
  by_cases hinternal : ev.Internal
  · exact (CacheClient.step_effect h hinternal hs.control hs.plugged hs.talk).commands
  · cases h with
    | submit throwOnServerErr _ => exact absurd hev id
    | answer _ _ => rfl
    | _ => exact absurd trivial hinternal

theorem Retired.step {e : PoolEvent} (h : Retired s t)
    (ht : Pooled num cluster autoReconnect maxReconnectAttempts t)
    (hstep : PoolStep num cluster t e s') : Retired s s' := by
  cases hstep with
  | call op _ =>
    unfold routeKeyed
    split
    · exact h.refuse _ _
    · rw [ClusterPool.withClient, if_pos h.closed]
      exact h.refuse _ _
  | ping =>
    rw [ping, if_pos h.closed]
    exact h.refuse _ _
  | connect =>
    rw [connect, if_pos h.closed]
    exact h
  | close =>
    refine ⟨rfl, h.created, fun b => ?_, h.refused⟩
    rw [← h.commands b]
    simp only [ClusterPool.close]
    split_ifs
    · have hstep : ClientStep num (t.backends b) .close (t.backends b).close := .close _
      have hs := ht.sound b
      exact (CacheClient.step_effect hstep trivial hs.control hs.plugged hs.talk).commands
    · rfl
  | forget _ => exact ⟨h.closed, h.created, h.commands, h.refused⟩
  | backend hb hev hclient =>
    rename_i b ev c
    refine ⟨h.closed, h.created, fun b' => ?_, h.refused⟩
    show (Function.update t.backends b c b').commands = _
    by_cases hne : b' = b
    · subst hne
      rw [Function.update_self, commands_of_unprompted (ht.sound b') hev hclient, h.commands b']
    · rw [Function.update_of_ne hne, h.commands b']

/-- **A closed cluster client takes no more calls.** Whatever happens after `close`, also while its
promise is pending and after the clients have been dropped: every call is refused, no `CacheClient`
is created, the ones there are stay closed and get no further command. -/
theorem closed_for_good {hash : JsString → ℕ} {options : ClusterClientOptions}
    (hnew : ClusterClient.new hash options = .ok cluster)
    (hrun : (poolSystem num cluster autoReconnect maxReconnectAttempts).Run past s)
    (hclosed : s.closed = true)
    (htrace : (poolSystem num cluster autoReconnect maxReconnectAttempts).Trace s later t) :
    t.closed = true ∧ t.created = s.created ∧
      (∀ b, (t.backends b).commands = (s.backends b).commands) ∧
      (∃ more, t.calls = s.calls ++ more ∧ ∀ call ∈ more, ∃ err, call.place = .error err) ∧
      ∀ b < t.created.length, (t.backends b).closed = true := by
  have h := run_pooled hnew hrun
  obtain ⟨hretired, ht⟩ := htrace.invariant
    (P := fun t => Retired s t ∧ Pooled num cluster autoReconnect maxReconnectAttempts t)
    ⟨⟨hclosed, rfl, fun _ => rfl, [], (List.append_nil _).symm,
      fun _ hcall => absurd hcall List.not_mem_nil⟩, h⟩
    fun u e u' hu hstep => ⟨hu.1.step hu.2 hstep, (step_pooled hnew hu.2 hstep).1⟩
  exact ⟨hretired.closed, hretired.created, hretired.commands, hretired.refused,
    ht.closed hretired.closed⟩

/-- A call before `close` and one after it. -/
theorem closed_for_good_example : ∃ s t : ClusterPool, s.closed = true ∧
    t.calls.length = s.calls.length + 1 ∧ t.created = s.created := by
  let S := poolSystem decimalNumerals twoNodesClient true 3
  have h₀ := System.Run.start (S := S)
  have h₁ := h₀.snoc (l := PoolEvent.call (.keyed .get (js "k"))) (.call _ _ (by decide))
  have h₂ := h₁.snoc (.close _)
  have later {past s} (_ : S.Run past s) : S.Trace s [] s := .refl
  have t₁ := (later h₂).snoc (.forget _ rfl)
  have t₂ := t₁.snoc (l := PoolEvent.call (.keyed .get (js "k"))) (.call _ _ (by decide))
  exact ⟨_, _, rfl, rfl, (closed_for_good new_twoNodes h₂ rfl t₂).2.1⟩

end ClusterPool

end DistributedCache
