import DistributedCache.Client.ClusterClient
import DistributedCache.Cluster.System
import DistributedCache.Node.Operations

/-!
# Sharding and replication are transparent

Operations go one after another through a cluster client that shares the node list. Between them any
line that was ever sent may reach its peer, whenever, as often and in whatever order it likes, or not
at all: the network is the set of all lines sent (`LossyCluster`).

A line for a key is never sent to the key's primary, so what the primaries hold, each for its own
keys, is what one single unlimited store holds (`Mirrors`). Two things show the wire between: an
`Infinity` that the single store answers is an error of the cluster, and a surrogate that is not
part of a pair arrives as U+FFFD (`lossy_mismatch`).

* `LossyCluster`, `LossyEvent`, `lossySystem`;
* `Mirrors`, and `mirrors_op`, `mirrors_deliver`, `mirrors_release`, which keep it;
* `lossy_transparent`, for operations with well-formed keys and values.
-/

namespace DistributedCache

open CacheStore

/-- The nodes, and every line that was ever sent, with the node it was sent to. -/
structure LossyCluster where
  node : ℕ → CacheNode
  sent : List (ℕ × JsString)

namespace LossyCluster

/-- Serving a line at node `p`. -/
def absorb (s : LossyCluster) (p : ℕ) (served : Served) : LossyCluster where
  node := Function.update s.node p served.node
  sent := s.sent ++ served.sends.map fun send => (send.1, trim send.2)

/-- All nodes start with empty unlimited stores, and nothing has been sent. -/
def start (t : Topology) : LossyCluster where
  node i := .new (CacheStore.new none none) (t.configAt i)
  sent := []

end LossyCluster

/-- An operation of the client with its result, the arrival of a line, or the release of a settled
mutation. -/
inductive LossyEvent
  | op (clock : Clock) (op : ClientOp) (result : Except ClientError Reply)
  | deliver (clock : Clock) (q : ℕ) (text : JsString)
  | release (p : ℕ)

/-- The key and the value of an operation are well formed. -/
def LossyEvent.Unicode : LossyEvent → Prop
  | .op _ o _ => o.Unicode
  | .deliver _ _ _ | .release _ => True

/-- The steps. The request of an operation is served by the node the client picks, and the client
settles the operation with the response. -/
def LossyStep (num : Numerals) (t : Topology) (s : LossyCluster) :
    LossyEvent → LossyCluster → Prop
  | .op clock o result, s' =>
      o.Admissible num ∧
      ∃ p served text, t.client.resolveNodeIndex o.key = .ok p ∧
        serveLine num (s.node p) clock (firstLine (toWellFormed (o.request num))) = some served ∧
        served.reply = some text ∧
        result = t.client.settle p (o.result num (toWellFormed text)) ∧ s' = s.absorb p served
  | .deliver clock q text, s' =>
      (q, text) ∈ s.sent ∧ ∃ served, serveLine num (s.node q) clock text = some served ∧
        s' = s.absorb q served
  | .release p, s' => s' = { s with node := Function.update s.node p (s.node p).release }

/-- The cluster and its client as a transition system. -/
def lossySystem (num : Numerals) (t : Topology) : System LossyCluster LossyEvent where
  init := .start t
  step := LossyStep num t

/-- The cluster mirrors a single store: each primary holds what the single store holds for its keys,
and every line that was sent goes from a primary to another replica. -/
structure Mirrors (num : Numerals) (t : Topology) (s : LossyCluster) (single : CacheStore) :
    Prop where
  sound : ∀ i, Sound t i (s.node i)
  free : Free single
  carried : AllCarried single
  primary : ∀ k, (s.node (t.primary k)).store.store.get? k = single.store.get? k
  routed : ∀ q text, (q, text) ∈ s.sent → ∃ m, text = replLine num m ∧ m.WellFormed num ∧
    q ≠ t.primary m.key

variable {num : Numerals} {t : Topology} {s s' : LossyCluster} {single : CacheStore}
  {clock : Clock} {o : ClientOp} {result : Except ClientError Reply} {p q : ℕ} {text : JsString}
  {past : List LossyEvent}

theorem mirrors_start : Mirrors num t (.start t) (CacheStore.new none none) where
  sound _ := ⟨free_new, rfl, _, rfl, rfl, rfl⟩
  free := free_new
  carried _ _ h := (nomatch h)
  primary _ := rfl
  routed _ _ h := (nomatch h)

theorem Sound.kept {i : ℕ} {node node' : CacheNode} (h : Sound t i node) (hfree : Free node'.store)
    (hkept : Kept node node') : Sound t i node' := by
  obtain ⟨e, he, hconfig, hopen⟩ := h.engine
  obtain ⟨e', he', hconfig', hopen'⟩ := hkept.engine e he
  exact ⟨hfree, hkept.limit.trans h.limit, e', he', hconfig'.trans hconfig, hopen'.trans hopen⟩

theorem CacheNode.release_kept (node : CacheNode) : Kept node node.release := by
  refine ⟨rfl, fun e he => ⟨e.release, ?_, rfl, rfl⟩⟩
  simp only [CacheNode.release, he, Option.map_some]

/-- Replacing a node by a sound one leaves all nodes sound. -/
theorem sound_update (h : ∀ i, Sound t i (s.node i)) {node : CacheNode} (hnode : Sound t p node)
    (i : ℕ) : Sound t i (Function.update s.node p node i) := by
  by_cases hi : i = p
  · subst hi
    rw [Function.update_self]
    exact hnode
  · rw [Function.update_of_ne hi]
    exact h i

/-- An operation whose seconds are positive does on its primary what it does on the single store. -/
theorem mirrors_op (h : Mirrors num t s single) (hop : o.Admissible num) (hunicode : o.Unicode)
    (hpos : o.Positive) (clock : Clock) :
    ∃ served text single' c' reply,
      serveLine num (s.node (t.primary o.key)) clock (firstLine (o.request num)) = some served ∧
      served.reply = some text ∧ IsWellFormed text ∧
      (o.result num text).toOption = reply.reported ∧
      single.exec clock o.call = some (.ok reply, single', c') ∧
      Mirrors num t (s.absorb (t.primary o.key) served) single' := by
  have hsame := h.primary o.key
  have hsound := h.sound (t.primary o.key)
  obtain ⟨served, text, hserve, hreply, htext, hresult, hfree, hkept, hget, hsends⟩ :=
    serve_op (c := clock) hsound.free hsound.limit hop hpos
      fun e he => h.carried o.key e (hsame ▸ he)
  obtain ⟨single', c', hexec, hfree', hget'⟩ :=
    exec_keyed h.free clock (check_call hop hpos) o.op_key
  refine ⟨served, text, single', c', _, hserve, hreply, htext, hresult, hsame ▸ hexec, ?_⟩
  refine ⟨sound_update h.sound (hsound.kept hfree hkept), hfree', fun k e he => ?_, fun k => ?_,
    fun q text htext => ?_⟩
  · rw [hget'] at he
    split_ifs at he with hk
    · exact carried_entryStep hop hunicode (h.carried o.key) he
    · exact h.carried k e he
  · simp only [LossyCluster.absorb]
    rw [hget' k]
    -- the keys of the same primary change together, and no others
    by_cases hp : t.primary k = t.primary o.key
    · rw [hp, Function.update_self, hget k, hsame, ← hp, h.primary k]
    · rw [Function.update_of_ne hp, if_neg fun hk => hp (by rw [hk]), h.primary k]
  · rcases List.mem_append.1 htext with hold | hnew
    · exact h.routed q text hold
    · obtain ⟨send, hsend, heq⟩ := List.mem_map.1 hnew
      cases heq
      obtain ⟨m, e, hm, he, hprimary, hpeer, hline⟩ := hsends send hsend
      obtain ⟨e', he', hconfig, -⟩ := hsound.engine
      obtain rfl : e = e' := Option.some.inj (he.symm.trans he')
      have hp : t.primary m.key = t.primary o.key := by
        rw [hconfig] at hprimary
        exact of_decide_eq_true hprimary
      refine ⟨m, by rw [replLine, ← hline], wellFormed_of_mutation ?_ hm, ?_⟩
      · exact wellFormed_of_parse (parse_words hop hpos)
      · rw [hp]
        exact ((mem_peers hconfig).1 hpeer).2

/-- The arrival of a line changes no primary's own keys. -/
theorem mirrors_deliver (h : Mirrors num t s single)
    (hstep : LossyStep num t s (.deliver clock q text) s') : Mirrors num t s' single := by
  obtain ⟨hsent, served, hserve, rfl⟩ := hstep
  obtain ⟨m, rfl, hw, hq⟩ := h.routed q text hsent
  obtain ⟨served', hserve', hnil, ⟨store', hnode⟩, hfree, hget⟩ :=
    serve_replLine (h.sound q).free (h.sound q).limit clock hw
  obtain rfl : served = served' := Option.some.inj (hserve.symm.trans hserve')
  have hkept : Kept (s.node q) served.node := by
    rw [hnode]
    exact ⟨rfl, fun e he => ⟨e, he, rfl, rfl⟩⟩
  refine ⟨sound_update h.sound ((h.sound q).kept hfree hkept), h.free, h.carried, fun k => ?_,
    fun q' text' htext => ?_⟩
  · simp only [LossyCluster.absorb]
    by_cases hk : t.primary k = q
    · -- this node is not the primary of the line's key, so the line is about another one
      have hne : k ≠ m.key := fun heq => hq (by rw [← hk, heq])
      rw [hk, Function.update_self, hget k, if_neg fun hall => hne hall.2, ← hk, h.primary k]
    · rw [Function.update_of_ne hk, h.primary k]
  · simp only [LossyCluster.absorb, hnil, List.map_nil, List.append_nil] at htext
    exact h.routed q' text' htext

theorem mirrors_release (h : Mirrors num t s single) (hstep : LossyStep num t s (.release p) s') :
    Mirrors num t s' single := by
  obtain rfl := hstep
  have hsound : Sound t p (s.node p).release :=
    (h.sound p).kept (h.sound p).free (s.node p).release_kept
  refine ⟨sound_update h.sound hsound, h.free, h.carried, fun k => ?_, h.routed⟩
  by_cases hk : t.primary k = p
  · simp only [hk, Function.update_self]
    exact hk ▸ h.primary k
  · simp only [Function.update_of_ne hk]
    exact h.primary k

/-- An answer that leaves the node as it was and sends nothing leaves the cluster as it was. -/
theorem LossyCluster.absorb_same (s : LossyCluster) (p : ℕ) (reply : Option JsString)
    (c : Clock) : s.absorb p ⟨reply, s.node p, [], c⟩ = s := by
  simp [absorb]

/-! ### Runs -/

/-- The operations of a history with their results, newest first. -/
def operations : List LossyEvent → List (Clock × ClientOp × Except ClientError Reply)
  | [] => []
  | .op clock o result :: past => (clock, o, result) :: operations past
  | .deliver _ _ _ :: past => operations past
  | .release _ :: past => operations past

/-- A call of the single store at the readings of an operation, with the same result; where both are
errors, these need not be the same. -/
def SameResult (x : Clock × ClientOp × Except ClientError Reply) (ev : CallEvent) : Prop :=
  ev.clock = x.1 ∧ ev.call = x.2.1.call ∧ x.2.2.toOption = ev.result.toOption

/-- As `SameResult`, but `Infinity` is reported as an error. -/
def SameAnswer (x : Clock × ClientOp × Except ClientError Reply) (ev : CallEvent) : Prop :=
  ev.clock = x.1 ∧ ev.call = x.2.1.call ∧ x.2.2.toOption = ev.result.toOption.bind Reply.reported

/-- The client reports a result as it is, and an error as an error. -/
theorem settle_toOption (c : ClusterClient) (p : ℕ) (r : Except ClientError Reply) :
    (c.settle p r).toOption = r.toOption := by
  unfold ClusterClient.settle
  cases c.nodes[p]? with
  | none => rfl
  | some node => cases r <;> rfl

/-- What the single store does when the cluster serves an operation. -/
theorem mirrors_step (h : Mirrors num t s single) (hunicode : o.Unicode)
    (hstep : LossyStep num t s (.op clock o result) s') :
    ∃ r single' c', single.exec clock o.call = some (r, single', c') ∧
      result.toOption = r.toOption.bind Reply.reported ∧ Mirrors num t s' single' := by
  obtain ⟨hop, p, served, text, hp, hserve, hreply, rfl, rfl⟩ := hstep
  obtain rfl : t.primary o.key = p := Except.ok.inj hp
  rw [request_isWellFormed hop.ex hunicode] at hserve
  rw [settle_toOption]
  by_cases hpos : o.Positive
  · obtain ⟨served', text', single', c', reply, hserve', hreply', htext, hresult, hexec,
      hmirrors⟩ := mirrors_op h hop hunicode hpos clock
    obtain rfl : served = served' := Option.some.inj (hserve.symm.trans hserve')
    obtain rfl : text = text' := Option.some.inj (hreply.symm.trans hreply')
    exact ⟨_, single', c', hexec, by rw [htext]; exact hresult, hmirrors⟩
  · obtain ⟨text', e, hserve', htext, hresult⟩ :=
      serve_refused (h.sound (t.primary o.key)).limit hop hpos clock
    obtain rfl := Option.some.inj (hserve'.symm.trans hserve)
    obtain rfl : text' = text := Option.some.inj hreply
    obtain ⟨e', hexec⟩ := call_refused hpos single clock
    exact ⟨_, single, clock, hexec, by rw [htext, hresult]; rfl, by rwa [s.absorb_same]⟩

/-- Every operation is answered. -/
theorem op_enabled (h : Mirrors num t s single) (hop : o.Admissible num) (hunicode : o.Unicode)
    (clock : Clock) : ∃ result s', LossyStep num t s (.op clock o result) s' := by
  have hrequest : toWellFormed (o.request num) = o.request num :=
    request_isWellFormed hop.ex hunicode
  by_cases hpos : o.Positive
  · obtain ⟨served, text, -, -, -, hserve, hreply, -⟩ := mirrors_op h hop hunicode hpos clock
    exact ⟨_, _, hop, _, served, text, rfl, by rw [hrequest]; exact hserve, hreply, rfl, rfl⟩
  · obtain ⟨text, e, hserve, -⟩ := serve_refused (h.sound (t.primary o.key)).limit hop hpos clock
    exact ⟨_, _, hop, _, _, text, rfl, by rw [hrequest]; exact hserve, rfl, rfl, rfl⟩

/-- The single store of a run. -/
theorem reachable_mirrors
    (hrun : ((lossySystem num t).restrict fun _ ev => ev.Unicode).Run past s) :
    ∃ history single, (CacheStore.system none none).Run history single ∧
      List.Forall₂ SameAnswer (operations past) history ∧ Mirrors num t s single := by
  refine hrun.invariant (P := fun past s => ∃ history single,
    (CacheStore.system none none).Run history single ∧
      List.Forall₂ SameAnswer (operations past) history ∧ Mirrors num t s single)
    ⟨[], _, .start, .nil, mirrors_start⟩ ?_
  rintro past s ev s' - ⟨history, single, hsingle, hsame, hmirrors⟩ hstep
  cases ev with
  | op clock o result =>
    obtain ⟨r, single', c', hexec, hr, hmirrors'⟩ := mirrors_step hmirrors hstep.2 hstep.1
    exact ⟨⟨clock, o.call, r⟩ :: history, single', .snoc hsingle ⟨c', hexec⟩,
      .cons ⟨rfl, rfl, hr⟩ hsame, hmirrors'⟩
  | deliver clock q text =>
    exact ⟨history, single, hsingle, hsame, mirrors_deliver hmirrors hstep.1⟩
  | release p => exact ⟨history, single, hsingle, hsame, mirrors_release hmirrors hstep.1⟩

/-- **The cluster is transparent.** The client of a topology is what the constructor makes of the
nodes' list. Whatever lines arrive when between the operations of a run, if all keys and values are
well formed, the operations and their results are a history of one single unlimited store, except
that `Infinity` is reported as an error; and an operation is always answered. -/
theorem lossy_transparent
    (hrun : ((lossySystem num t).restrict fun _ ev => ev.Unicode).Run past s) :
    ClusterClient.new t.hashKey t.clientOptions = .ok t.client ∧
    (∃ history single, (CacheStore.system none none).Run history single ∧
      List.Forall₂ SameAnswer (operations past) history) ∧
    ∀ clock (o : ClientOp), o.Admissible num → o.Unicode →
      ∃ result s', (lossySystem num t).step s (.op clock o result) s' := by
  obtain ⟨history, single, hsingle, hsame, hmirrors⟩ := reachable_mirrors hrun
  exact ⟨t.new_client, ⟨history, single, hsingle, hsame⟩,
    fun clock o hop hunicode => op_enabled hmirrors hop hunicode clock⟩

/-- A `SET` with an expiry and a `GET` of the same key. -/
theorem lossy_transparent_example : ∃ past s,
    ((lossySystem decimalNumerals twoNodes).restrict fun _ ev => ev.Unicode).Run past s ∧
      (operations past).map (fun x => x.2.1) =
        [.keyed .get (js "k"), .set ⟨js "k", js "v", some 5⟩] ∧
      ∃ history single, (CacheStore.system none none).Run history single ∧
        List.Forall₂ SameAnswer (operations past) history := by
  let clock : Clock := fun _ => 0
  let write : ClientOp := .set ⟨js "k", js "v", some 5⟩
  let read : ClientOp := .keyed .get (js "k")
  have hnum : ∀ n, some (5 : ℤ) = some n → decimalNumerals.IsNumber n := by
    intro n hn
    cases hn
    exact decimalNumerals.isNumber_of_natAbs (by decide)
  have hwrite : write.Admissible decimalNumerals :=
    ⟨⟨by decide, by decide, hnum⟩, by decide, by decide⟩
  have hread : read.Admissible decimalNumerals := ⟨by decide, by decide⟩
  have hwritten : write.Unicode := ⟨by decide, by decide⟩
  have hasked : read.Unicode := (by decide : IsWellFormed (js "k"))
  obtain ⟨r₁, s₁, hstep₁⟩ := (lossy_transparent .start).2.2 clock write hwrite hwritten
  have hrun₁ := System.Run.start.snoc (S := (lossySystem decimalNumerals twoNodes).restrict _)
    ⟨hstep₁, hwritten⟩
  obtain ⟨r₂, s₂, hstep₂⟩ := (lossy_transparent hrun₁).2.2 clock read hread hasked
  have hrun₂ := hrun₁.snoc (l := LossyEvent.op clock read r₂) ⟨hstep₂, hasked⟩
  exact ⟨_, s₂, hrun₂, rfl, (lossy_transparent hrun₂).2.1⟩

/-! ### Where the wire shows -/

/-- Two calls one after the other on a single unlimited store. -/
theorem two_calls {e e' : CallEvent} {op op' : Op} {key key' : JsString}
    (hrun : (CacheStore.system none none).Run [e', e] single) (hcheck : e.call.check = .ok op)
    (hcheck' : e'.call.check = .ok op') (hkey : op.key = some key) (hkey' : op'.key = some key') :
    e'.result = .ok (entryStep e'.clock
      (if key' = key then (entryStep e.clock none op).2 else none) op').1 := by
  cases hrun with
  | snoc hrun hstep' =>
    cases hrun with
    | snoc hrun hstep =>
      cases hrun
      obtain ⟨clock, call, result⟩ := e
      obtain ⟨clock', call', result'⟩ := e'
      obtain ⟨c₁, hexec⟩ := hstep
      obtain ⟨c₂, hexec'⟩ := hstep'
      obtain ⟨s₁, c, hexec₁, hfree, hget⟩ := exec_keyed free_new clock hcheck hkey
      cases hexec₁.symm.trans hexec
      obtain ⟨s₂, c', hexec₂, -⟩ := exec_keyed hfree clock' hcheck' hkey'
      cases hexec₂.symm.trans hexec'
      rw [hget]
      rfl

theorem two_events {history : List CallEvent} {x y : Clock × ClientOp × Except ClientError Reply}
    {R : Clock × ClientOp × Except ClientError Reply → CallEvent → Prop}
    (h : List.Forall₂ R [y, x] history) : ∃ e' e, history = [e', e] ∧ R y e' ∧ R x e := by
  cases h with
  | cons hlast hrest =>
    cases hrest with
    | cons hfirst hnil =>
      cases hnil
      exact ⟨_, _, rfl, hlast, hfirst⟩

theorem reported_ne_infinity (r : Option Reply) :
    r.bind Reply.reported ≠ some (.seconds .infinity) := by
  cases r with
  | none => exact fun h => nomatch h
  | some reply =>
    cases reply with
    | seconds x => cases x <;> exact fun h => nomatch h
    | done | value _ | flag _ | purged _ => exact fun h => nomatch h

/-- What arrives of two operations is the same. -/
theorem lossyStep_of_request (o' : ClientOp) (hop : o.Admissible num)
    (hkey : t.client.resolveNodeIndex o.key = t.client.resolveNodeIndex o'.key)
    (hrequest : toWellFormed (o.request num) = toWellFormed (o'.request num))
    (haccept : ∀ res, o.accept res = o'.accept res)
    (hstep : LossyStep num t s (.op clock o' result) s') :
    LossyStep num t s (.op clock o result) s' := by
  obtain ⟨-, p, served, text, hp, hserve, hreply, hresult, hs⟩ := hstep
  refine ⟨hop, p, served, text, hkey.trans hp, by rw [hrequest]; exact hserve, hreply, ?_, hs⟩
  rw [ClientOp.result, funext haccept]
  exact hresult

/-- A deadline of `Infinity` is not reported. -/
theorem infinity_refused (num : Numerals) : ∃ past s, (lossySystem num twoNodes).Run past s ∧
    (operations past).map (fun x => x.2.1) =
      [.keyed .ttl (js "k"), .set ⟨js "k", js "v", some (2 ^ (DOUBLE_DIGITS - 1))⟩] ∧
    ¬ ∃ history single, (CacheStore.system none none).Run history single ∧
      List.Forall₂ SameResult (operations past) history := by
  let clock : Clock := fun _ => 0
  let write : ClientOp := .set ⟨js "k", js "v", some (2 ^ (DOUBLE_DIGITS - 1))⟩
  let read : ClientOp := .keyed .ttl (js "k")
  have hdouble : IsDouble (2 ^ (DOUBLE_DIGITS - 1)) := isDouble_two_pow (by decide)
  have hnum (n : ℤ) (hn : some (2 ^ (DOUBLE_DIGITS - 1)) = some n) : num.IsNumber n :=
    Option.some.inj hn ▸ num.isNumber_of_isDouble _ hdouble
  have hwrite : write.Admissible num := ⟨⟨by decide, by decide, hnum⟩, by decide, by decide⟩
  have hread : read.Admissible num := ⟨by decide, by decide⟩
  have hwritten : write.Unicode := ⟨by decide, by decide⟩
  have hasked : read.Unicode := (by decide : IsWellFormed (js "k"))
  have hpositive : write.Positive := fun n hn => Option.some.inj hn ▸ by positivity
  obtain ⟨r₁, s₁, hstep₁⟩ := op_enabled (t := twoNodes) mirrors_start hwrite hwritten clock
  obtain ⟨-, single, -, -, -, hmirrors⟩ := mirrors_step mirrors_start hwritten hstep₁
  obtain ⟨r₂, s₂, hstep₂⟩ := op_enabled hmirrors hread hasked clock
  obtain ⟨r, -, -, -, hr, -⟩ := mirrors_step hmirrors hasked hstep₂
  have hrun₁ := System.Run.start.snoc (S := lossySystem num twoNodes)
    (l := LossyEvent.op clock write r₁) hstep₁
  have hrun₂ := hrun₁.snoc (l := LossyEvent.op clock read r₂) hstep₂
  refine ⟨_, s₂, hrun₂, rfl, ?_⟩
  rintro ⟨history, single', hrun, hsame⟩
  obtain ⟨e', e, rfl, ⟨hclock', hcall', hresult'⟩, hclock, hcall, -⟩ := two_events hsame
  have hlast := two_calls hrun (hcall ▸ check_call hwrite hpositive)
    (hcall' ▸ check_call hread trivial) rfl rfl
  have hnever : expiryOf clock.head (2 ^ (DOUBLE_DIGITS - 1)) = ⊤ := by
    refine expiryOf_eq_top ?_
    have hpow : (2 : ℤ) ^ DOUBLE_DIGITS = 2 ^ (DOUBLE_DIGITS - 1) * 2 := (pow_succ _ _)
    have hpos : (0 : ℤ) < 2 ^ (DOUBLE_DIGITS - 1) := by positivity
    rw [hpow]
    omega
  have hanswer : e'.result = .ok (.seconds .infinity) := by
    have hentry : (entryStep e.clock none write.op).2 =
        some ⟨js "v", some ⊤, entrySizeBytes (js "k") (js "v")⟩ := by
      rw [hclock, ← hnever]
      rfl
    rw [hlast, if_pos rfl, hentry]
    rfl
  rw [hanswer] at hresult'
  exact reported_ne_infinity _ (hr.symm.trans hresult')

/-- Two different surrogates become the same key. -/
theorem surrogates_replaced (num : Numerals) : ∃ past s, (lossySystem num twoNodes).Run past s ∧
    (operations past).map (fun x => x.2.1) =
      [.keyed .get [.surrogate 1], .set ⟨[.surrogate 0], js "v", none⟩] ∧
    ¬ ∃ history single, (CacheStore.system none none).Run history single ∧
      List.Forall₂ SameResult (operations past) history := by
  let clock : Clock := fun _ => 0
  let write : ClientOp := .set ⟨[.surrogate 0], js "v", none⟩
  let read : ClientOp := .keyed .get [.surrogate 1]
  -- what arrives of them
  let write' : ClientOp := .set ⟨[.char '\uFFFD'], js "v", none⟩
  let read' : ClientOp := .keyed .get [.char '\uFFFD']
  have hnone (n : ℤ) (hn : none = some n) : num.IsNumber n := nomatch hn
  have hwrite : write.Admissible num := ⟨⟨by decide, by decide, hnone⟩, by decide, by decide⟩
  have hwrite' : write'.Admissible num := ⟨⟨by decide, by decide, hnone⟩, by decide, by decide⟩
  have hread : read.Admissible num := ⟨by decide, by decide⟩
  have hread' : read'.Admissible num := ⟨by decide, by decide⟩
  have hwritten : write'.Unicode := ⟨by decide, by decide⟩
  have hasked : read'.Unicode := (by decide : IsWellFormed [.char '\uFFFD'])
  have hpositive (n : ℤ) (hn : none = some n) : 0 < n := nomatch hn
  obtain ⟨r₁, s₁, hstep₁⟩ := op_enabled (t := twoNodes) mirrors_start hwrite' hwritten clock
  obtain ⟨-, single, -, -, -, hmirrors⟩ := mirrors_step mirrors_start hwritten hstep₁
  obtain ⟨r₂, s₂, hstep₂⟩ := op_enabled hmirrors hread' hasked clock
  have hsent₁ := System.Run.start.snoc
    (S := (lossySystem num twoNodes).restrict fun _ ev => ev.Unicode)
    (l := LossyEvent.op clock write' r₁) ⟨hstep₁, hwritten⟩
  have hsent₂ := hsent₁.snoc (l := LossyEvent.op clock read' r₂) ⟨hstep₂, hasked⟩
  have hdone₁ : LossyStep num twoNodes (.start twoNodes) (.op clock write r₁) s₁ :=
    lossyStep_of_request write' hwrite rfl rfl (fun res => by cases res <;> rfl) hstep₁
  have hdone₂ : LossyStep num twoNodes s₁ (.op clock read r₂) s₂ :=
    lossyStep_of_request read' hread rfl rfl (fun res => by cases res <;> rfl) hstep₂
  have hrun₁ := System.Run.start.snoc (S := lossySystem num twoNodes)
    (l := LossyEvent.op clock write r₁) hdone₁
  have hrun₂ := hrun₁.snoc (l := LossyEvent.op clock read r₂) hdone₂
  refine ⟨_, s₂, hrun₂, rfl, ?_⟩
  rintro ⟨history, single', hrun, hsame⟩
  obtain ⟨history', single'', hrun', hsame', -⟩ := reachable_mirrors hsent₂
  obtain ⟨e', e, rfl, ⟨hclock', hcall', hresult'⟩, hclock, hcall, -⟩ := two_events hsame
  obtain ⟨f', f, rfl, ⟨hclockf', hcallf', hresultf'⟩, hclockf, hcallf, -⟩ := two_events hsame'
  have hlost : e'.result = .ok (.value none) := by
    rw [two_calls hrun (hcall ▸ check_call hwrite hpositive)
      (hcall' ▸ check_call hread trivial) rfl rfl, hclock, hclock']
    rfl
  have hfound : f'.result = .ok (.value (some (js "v"))) := by
    rw [two_calls hrun' (hcallf ▸ check_call hwrite' hpositive)
      (hcallf' ▸ check_call hread' trivial) rfl rfl, hclockf, hclockf']
    rfl
  rw [hresult', hlost, hfound] at hresultf'
  cases hresultf'

/-- **Two things that a client sees of the wire.** -/
theorem lossy_mismatch :
    (∀ num, ∃ past s, (lossySystem num twoNodes).Run past s ∧
      (operations past).map (fun x => x.2.1) =
        [.keyed .ttl (js "k"), .set ⟨js "k", js "v", some (2 ^ (DOUBLE_DIGITS - 1))⟩] ∧
      ¬ ∃ history single, (CacheStore.system none none).Run history single ∧
        List.Forall₂ SameResult (operations past) history) ∧
    ∀ num, ∃ past s, (lossySystem num twoNodes).Run past s ∧
      (operations past).map (fun x => x.2.1) =
        [.keyed .get [.surrogate 1], .set ⟨[.surrogate 0], js "v", none⟩] ∧
      ¬ ∃ history single, (CacheStore.system none none).Run history single ∧
        List.Forall₂ SameResult (operations past) history :=
  ⟨infinity_refused, surrogates_replaced⟩

end DistributedCache
