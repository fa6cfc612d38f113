import DistributedCache.Cluster.Pair
import DistributedCache.Cluster.Transparent
import DistributedCache.Node.Refusal

/-!
# What every run of a pair keeps

Whatever the order in which the lines arrive: the commands of the client are the scheduled mutations,
each at most once (`Numbered`); an answer of the replica to a mutation's line was given after that
mutation was processed, and is an error if the mutation is not accepted; both stores hold what the
last accepted mutation of each key left (`Processed`); and the mutations of the primary are scheduled
in the order in which it serves them (`Recorded`).

* `latest`: the value that the newest accepted mutation of a key left;
* `serve_mutation`: what a client's mutation does to its primary;
* `Paired` and `run_paired`.
-/

namespace DistributedCache

open CacheStore

/-- The value that a mutation stores. -/
def InnerCommand.value : InnerCommand → Option JsString
  | .set cmd => some cmd.value
  | .del _ | .delete _ => none

/-- The value under `k` after these mutations, newest first. -/
def latest (k : JsString) : List InnerCommand → Option JsString
  | [] => none
  | m :: ms => if m.Accepted ∧ k = m.key then m.value else latest k ms

/-- The value that a node's store has under a key. -/
def CacheNode.valueOf (node : CacheNode) (k : JsString) : Option JsString :=
  (node.store.store.get? k).map CacheEntry.value

/-- The commands of the client and the calls of `#fanOut` belong to different scheduled mutations. -/
structure Numbered (num : Numerals) (s : ReplicaPair) : Prop where
  wellFormed : ∀ m ∈ s.scheduled, m.WellFormed num
  nodup : (s.submitted ++ s.calls.map FanOutCall.number).Nodup
  length : s.submitted.length = s.client.commands.length
  calls : ∀ call ∈ s.calls, ∃ m, s.scheduled[call.number]? = some m ∧
    call.commandLine = trimEnd (formatReplCommand num m)
  commands : ∀ (i : ℕ) item, s.client.commands[i]? = some item →
    ∃ m, s.scheduled[s.number i]? = some m ∧ item.line = replLine num m ++ newline

/-- The mutation of the command has been processed, and the reply is an error if it is refused. -/
def Replied (s : ReplicaPair) (item : QueueItem) (reply : JsString) : Prop :=
  ∃ m, s.scheduled[s.number item.id]? = some m ∧ s.number item.id ∈ s.applied ∧
    (¬ m.Accepted → IsErr (reply ++ newline))

/-- The answers and the stores agree with the mutations that were processed. -/
structure Processed (s : ReplicaPair) : Prop where
  bounded : ∀ n ∈ s.applied, n < s.scheduled.length
  answered : ∀ (sid i : ℕ) reply, (s.client.links sid).answers[i]? = some reply →
    ∃ item, (s.client.links sid).requests[i]? = some item ∧ Replied s item reply
  primary : ∀ k, s.primary.valueOf k = latest k (s.history.map Prod.fst)
  replica : ∀ k, s.replica.valueOf k = latest k (s.applied.filterMap (s.scheduled[·]?))

/-- The history has the scheduled mutations under their numbers, which go up. -/
structure Recorded (s : ReplicaPair) : Prop where
  scheduled : ∀ m n, (m, some n) ∈ s.history ↔ s.scheduled[n]? = some m
  sorted : s.history.Pairwise fun x y => ∀ n n', x.2 = some n → y.2 = some n' → n' < n

/-- The invariant. -/
structure Paired (num : Numerals) (t : Topology) (p q : ℕ) (s : ReplicaPair) : Prop where
  primary : Sound t p s.primary
  replica : Sound t q s.replica
  client : CacheClient.Sound num s.client
  numbered : Numbered num s
  processed : Processed s
  recorded : Recorded s

variable {num : Numerals} {t : Topology} {p q : ℕ} {s s' : ReplicaPair} {m : InnerCommand}
  {node : CacheNode} {c : Clock} {line : JsString} {served : Served} {client : CacheClient}
  {calls : List FanOutCall} {call : FanOutCall} {item : QueueItem}

/-! ### On the nodes -/

theorem value_entry (m : InnerCommand) (now : ℤ) : (m.entry now).map CacheEntry.value = m.value := by
  cases m <;> rfl

/-- A mutation that is applied is the latest one. -/
theorem valueOf_step {node node' : CacheNode} {ms : List InnerCommand} {now : ℤ}
    (hold : ∀ k, node.valueOf k = latest k ms)
    (h : ∀ k, node'.store.store.get? k =
      if m.Accepted ∧ k = m.key then m.entry now else node.store.store.get? k) (k : JsString) :
    node'.valueOf k = latest k (m :: ms) := by
  rw [CacheNode.valueOf, h k, latest, ← hold k]
  split_ifs
  · exact value_entry m now
  · rfl

/-- **A client's mutation at its primary**, also when the engine drops it. -/
theorem serve_mutation (hs : Free node.store) (hm : lineMutation num line = some m)
    (hlen : byteLength (dropCr line) ≤ node.maxLineBytes)
    (h : serveLine num node c line = some served) :
    Free served.node.store ∧ Kept node served.node ∧
      (∀ k, served.node.store.store.get? k =
        if m.Accepted ∧ k = m.key then m.entry c.head else node.store.store.get? k) ∧
      ∀ send ∈ served.sends, send.2 = trimEnd (formatReplCommand num m) := by
  obtain ⟨hw, -⟩ := wellFormed_of_lineMutation hm
  unfold lineMutation at hm
  cases hparse : parseCommand num (dropCr line) with
  | error e =>
    rw [hparse] at hm
    cases hm
  | ok command =>
    rw [hparse] at hm
    rw [serveLine_of_parse hlen hparse] at h
    rcases dispatch_cases h with ⟨inner, -, -, rfl, -⟩ | ⟨-, reply, s', hrun, -, hfan⟩
    · cases hm
    · obtain ⟨line', s'', c', hrun', hfree, hget⟩ := executeRepl_spec hs c hw
      rw [executeCommand_eq_repl hm, hrun'] at hrun
      obtain rfl : s'' = s' := by
        have heq := Option.some.inj hrun
        exact congrArg (fun r => r.2.1) heq
      obtain ⟨hstore, hkept⟩ := fanOut_kept { node with store := s'' } command
      have hnode : served.node = _ := congrArg Prod.fst hfan
      have hsends : served.sends = _ := congrArg Prod.snd hfan
      refine ⟨?_, ?_, fun k => ?_, fun send hsend => ?_⟩
      · rw [hnode, hstore]
        exact hfree
      · rw [hnode]
        exact ⟨hkept.limit, hkept.engine⟩
      · rw [hnode, hstore]
        exact hget k
      · rw [hsends] at hsend
        obtain ⟨m', e, hm', -, -, -, hline⟩ := mem_fanOut { node with store := s'' } hsend
        obtain rfl : m' = m := Option.some.inj (hm'.symm.trans hm)
        exact hline

theorem newline_notMem_replLine (hw : m.WellFormed num) : .char '\n' ∉ replLine num m := by
  rw [replLine_eq hw]
  exact newline_notMem_unwords (replWords_line hw)

theorem replLine_ne_nil (hw : m.WellFormed num) : replLine num m ≠ [] := by
  rw [replLine_eq hw]
  exact unwords_ne_nil (replWords_line hw)

/-! ### The client goes on -/

/-- The calls that remain are some of those before. -/
theorem settleCalls_spec (before after : Option Ensure) (calls : List FanOutCall) :
    ((settleCalls before after calls).map FanOutCall.number).Sublist
        (calls.map FanOutCall.number) ∧
      ∀ call ∈ settleCalls before after calls, ∃ old ∈ calls, old.number = call.number ∧
        old.commandLine = call.commandLine := by
  unfold settleCalls
  split
  · refine ⟨?_, fun call hcall => ?_⟩
    · rw [List.map_map]
      exact List.Sublist.refl _
    · obtain ⟨old, hold, rfl⟩ := List.mem_map.1 hcall
      exact ⟨old, hold, rfl, rfl⟩
  · exact ⟨List.filter_sublist.map _, fun call hcall => ⟨call, (List.mem_filter.1 hcall).1, rfl, rfl⟩⟩
  · exact ⟨List.Sublist.refl _, fun call hcall => ⟨call, hcall, rfl, rfl⟩⟩

theorem Numbered.congr (h : Numbered num s) (hscheduled : s'.scheduled = s.scheduled)
    (hsubmitted : s'.submitted = s.submitted) (hcalls : s'.calls = s.calls)
    (hcommands : s'.client.commands = s.client.commands) : Numbered num s' := by
  obtain ⟨hwellFormed, hnodup, hlength, hold, hlines⟩ := h
  unfold ReplicaPair.number at hlines
  constructor
  · rwa [hscheduled]
  · rwa [hsubmitted, hcalls]
  · rwa [hsubmitted, hcommands]
  · rwa [hcalls, hscheduled]
  · unfold ReplicaPair.number
    rwa [hcommands, hscheduled, hsubmitted]

theorem Numbered.withClient (h : Numbered num s) (hcommands : client.commands = s.client.commands)
    (hnumbers : (calls.map FanOutCall.number).Sublist (s.calls.map FanOutCall.number))
    (hcalls : ∀ call ∈ calls, ∃ old ∈ s.calls, old.number = call.number ∧
      old.commandLine = call.commandLine) :
    Numbered num { s with client := client, calls := calls } where
  wellFormed := h.wellFormed
  nodup := h.nodup.sublist (hnumbers.append_left _)
  length := h.length.trans (congrArg List.length hcommands.symm)
  calls call hcall := by
    obtain ⟨old, hold, hnumber, hline⟩ := hcalls call hcall
    exact hnumber ▸ hline ▸ h.calls old hold
  commands i item hitem := h.commands i item (hcommands ▸ hitem)

theorem Processed.withClient (h : Processed s) (heffect : CacheClient.Effect num s.client client) :
    Processed { s with client := client, calls := calls } where
  bounded := h.bounded
  answered sid i reply hreply := by
    obtain ⟨item, hitem, hreplied⟩ := h.answered sid i reply (heffect.answers sid ▸ hreply)
    exact ⟨item, CacheClient.getElem?_of_prefix (heffect.requests sid) hitem, hreplied⟩
  primary := h.primary
  replica := h.replica

/-- What the client does on its own. -/
theorem Paired.withClient {ev : ClientEvent} (h : Paired num t p q s) (hev : ev.Internal)
    (hstep : ClientStep num s.client ev client)
    (hnumbers : (calls.map FanOutCall.number).Sublist (s.calls.map FanOutCall.number))
    (hcalls : ∀ call ∈ calls, ∃ old ∈ s.calls, old.number = call.number ∧
      old.commandLine = call.commandLine) :
    Paired num t p q { s with client := client, calls := calls } := by
  have heffect :=
    CacheClient.step_effect hstep hev h.client.control h.client.plugged h.client.talk
  exact ⟨h.primary, h.replica, h.client.step hstep,
    h.numbered.withClient heffect.commands hnumbers hcalls, h.processed.withClient heffect,
    ⟨h.recorded.scheduled, h.recorded.sorted⟩⟩

/-! ### A mutation is scheduled -/

theorem getElem?_length_append {ms : List InnerCommand} : (ms ++ [m])[ms.length]? = some m :=
  List.getElem?_concat_length

/-- The number of a command stays when another one is submitted. -/
theorem number_append (s : ReplicaPair) {n id : ℕ} (h : id < s.submitted.length) :
    ((s.submitted ++ [n])[id]?).getD 0 = s.number id := by
  rw [List.getElem?_append_left h]
  rfl

/-- Submitted mutations have been scheduled. -/
theorem Numbered.bounded (h : Numbered num s) {n : ℕ}
    (hn : n ∈ s.submitted ++ s.calls.map FanOutCall.number) : n < s.scheduled.length := by
  have lt {n : ℕ} (hm : ∃ m, s.scheduled[n]? = some m) : n < s.scheduled.length := by
    obtain ⟨m, hm⟩ := hm
    exact (List.getElem?_eq_some_iff.1 hm).1
  rcases List.mem_append.1 hn with hn | hn
  · obtain ⟨i, hi, rfl⟩ := List.getElem_of_mem hn
    have hlt : i < s.client.commands.length := h.length ▸ hi
    obtain ⟨m, hm, -⟩ := h.commands i _ (List.getElem?_eq_getElem hlt)
    rw [ReplicaPair.number, List.getElem?_eq_getElem hi] at hm
    exact lt ⟨m, hm⟩
  · obtain ⟨call, hcall, rfl⟩ := List.mem_map.1 hn
    obtain ⟨m, hm, -⟩ := h.calls call hcall
    exact lt ⟨m, hm⟩

/-- A new call of `#fanOut`, unless the client rejects it. -/
theorem Numbered.schedule (h : Numbered num s) (hw : m.WellFormed num)
    (hcalls : calls = s.calls ∨ ∃ connected, calls =
      s.calls ++ [⟨s.scheduled.length, trimEnd (formatReplCommand num m), connected⟩])
    {primary : CacheNode} {history : List (InnerCommand × Option ℕ)} :
    Numbered num { s with
      primary := primary, calls := calls, scheduled := s.scheduled ++ [m], history := history } := by
  have old {n : ℕ} {m' : InnerCommand} (hget : s.scheduled[n]? = some m') :
      (s.scheduled ++ [m])[n]? = some m' :=
    CacheClient.getElem?_of_prefix (List.prefix_append _ _) hget
  have oldCall (call : FanOutCall) (hcall : call ∈ s.calls) : ∃ m',
      (s.scheduled ++ [m])[call.number]? = some m' ∧
        call.commandLine = trimEnd (formatReplCommand num m') := by
    obtain ⟨m', hm', hline⟩ := h.calls call hcall
    exact ⟨m', old hm', hline⟩
  refine ⟨fun m' hm' => ?_, ?_, h.length, fun call hcall => ?_, fun i item hitem => ?_⟩
  · rcases List.mem_append.1 hm' with hm' | hm'
    · exact h.wellFormed m' hm'
    · exact List.mem_singleton.1 hm' ▸ hw
  · rcases hcalls with rfl | ⟨connected, rfl⟩
    · exact h.nodup
    · show (s.submitted ++ (s.calls ++ [_]).map FanOutCall.number).Nodup
      rw [List.map_append, ← List.append_assoc]
      refine List.nodup_append.2 ⟨h.nodup, List.nodup_singleton _, fun n hn n' hn' => ?_⟩
      rw [List.mem_singleton.1 hn']
      exact Nat.ne_of_lt (h.bounded hn)
  · rcases hcalls with rfl | ⟨connected, rfl⟩
    · exact oldCall call hcall
    · rcases List.mem_append.1 hcall with hcall | hcall
      · exact oldCall call hcall
      · rw [List.mem_singleton.1 hcall]
        exact ⟨m, getElem?_length_append, rfl⟩
  · obtain ⟨m', hm', hline⟩ := h.commands i item hitem
    exact ⟨m', old hm', hline⟩

theorem Processed.schedule (h : Processed s) {primary : CacheNode} {now : ℤ} {number : Option ℕ}
    {scheduled : List InnerCommand} (hscheduled : s.scheduled <+: scheduled)
    (hget : ∀ k, primary.store.store.get? k =
      if m.Accepted ∧ k = m.key then m.entry now else s.primary.store.store.get? k) :
    Processed { s with
      primary := primary, calls := calls, scheduled := scheduled
      history := (m, number) :: s.history } := by
  have same (n : ℕ) (hn : n < s.scheduled.length) : scheduled[n]? = s.scheduled[n]? := by
    obtain ⟨rest, rfl⟩ := hscheduled
    exact List.getElem?_append_left hn
  refine ⟨fun n hn => (h.bounded n hn).trans_le hscheduled.length_le, fun sid i reply hreply => ?_,
    valueOf_step h.primary hget, fun k => ?_⟩
  · obtain ⟨item, hitem, m', hm', happlied, herr⟩ := h.answered sid i reply hreply
    exact ⟨item, hitem, m', CacheClient.getElem?_of_prefix hscheduled hm', happlied, herr⟩
  · show s.replica.valueOf k = latest k (s.applied.filterMap (scheduled[·]?))
    rw [h.replica k]
    congr 1
    exact List.filterMap_congr fun n hn => (same n (h.bounded n hn)).symm

theorem Recorded.schedule (h : Recorded s) {primary : CacheNode} :
    Recorded { s with
      primary := primary, calls := calls, scheduled := s.scheduled ++ [m]
      history := (m, some s.scheduled.length) :: s.history } where
  scheduled m' n := by
    have hlt : s.scheduled[n]? = some m' → n < s.scheduled.length :=
      fun hm' => (List.getElem?_eq_some_iff.1 hm').1
    rw [List.mem_cons, h.scheduled]
    rcases Nat.lt_trichotomy n s.scheduled.length with hn | rfl | hn
    · rw [List.getElem?_append_left hn]
      simp [Nat.ne_of_lt hn]
    · simp [eq_comm]
    · have hout : (s.scheduled ++ [m])[n]? = none := by
        rw [List.getElem?_eq_none_iff, List.length_append]
        exact hn
      have hold : s.scheduled[n]? = none := List.getElem?_eq_none_iff.2 hn.le
      simp [hout, hold, Nat.ne_of_gt hn]
  sorted := by
    refine List.pairwise_cons.2 ⟨fun x hx n n' hn hn' => ?_, h.sorted⟩
    obtain rfl := Option.some.inj hn
    obtain ⟨m', number⟩ := x
    obtain rfl : number = some n' := hn'
    exact (List.getElem?_eq_some_iff.1 ((h.scheduled m' n').1 hx)).1

/-- A mutation that is not scheduled. -/
theorem Recorded.drop (h : Recorded s) {primary : CacheNode} :
    Recorded { s with primary := primary, history := (m, none) :: s.history } where
  scheduled m' n := by
    rw [List.mem_cons, h.scheduled]
    simp
  sorted := List.pairwise_cons.2 ⟨fun _ _ _ _ hn => (nomatch hn), h.sorted⟩

theorem paired_mutate (h : Paired num t p q s) (hm : lineMutation num line = some m)
    (hlen : byteLength (dropCr line) ≤ s.primary.maxLineBytes)
    (hserve : serveLine num s.primary c line = some served) :
    Paired num t p q (s.mutate q m served) := by
  obtain ⟨hfree, hkept, hget, hsends⟩ := serve_mutation h.primary.free hm hlen hserve
  obtain ⟨hw, -⟩ := wellFormed_of_lineMutation hm
  have hprimary := h.primary.kept hfree hkept
  unfold ReplicaPair.mutate
  cases hfind : served.sends.find? (·.1 = q) with
  | none =>
    exact ⟨hprimary, h.replica, h.client, h.numbered.congr rfl rfl rfl rfl,
      h.processed.schedule (List.prefix_refl _) hget, h.recorded.drop⟩
  | some send =>
    have hline := hsends send (List.mem_of_find?_eq_some hfind)
    have hstep : ClientStep num s.client .connect s.client.connect := .connect s.client
    have hconnect := h.withClient (by trivial) hstep (List.Sublist.refl _) fun call hcall =>
      ⟨call, hcall, rfl, rfl⟩
    unfold ReplicaPair.fanOut
    refine ⟨hprimary, h.replica, hconnect.client, hconnect.numbered.schedule hw ?_,
      hconnect.processed.schedule (List.prefix_append _ _) hget, hconnect.recorded.schedule⟩
    split_ifs
    · exact Or.inl rfl
    · exact Or.inr ⟨_, by rw [hline]⟩

/-! ### A command is submitted -/

/-- What `executeRaw` submits is the line of the mutation. -/
theorem executeRaw_eq (h : Numbered num s) (hcall : call ∈ s.calls) :
    ∃ m, s.scheduled[call.number]? = some m ∧ m.WellFormed num ∧
      s.executeRaw call calls = { s with
        client := s.client.commandLine (replLine num m ++ newline) false
        calls := calls
        submitted := s.submitted ++ [call.number] } := by
  obtain ⟨m, hm, hline⟩ := h.calls call hcall
  have hw := h.wellFormed m (List.mem_of_getElem? hm)
  have htrim : trim call.commandLine = replLine num m := by rw [hline, replLine]
  refine ⟨m, hm, hw, ?_⟩
  rw [ReplicaPair.executeRaw, htrim, if_neg (replLine_ne_nil hw)]

theorem Numbered.executeRaw {before after : List FanOutCall} (h : Numbered num s)
    (hcalls : s.calls = before ++ call :: after) (hm : s.scheduled[call.number]? = some m) :
    Numbered num { s with
      client := s.client.commandLine (replLine num m ++ newline) false
      calls := before ++ after
      submitted := s.submitted ++ [call.number] } := by
  obtain ⟨hcommands, -⟩ := s.client.commandLine_spec (replLine num m ++ newline) false
  refine ⟨h.wellFormed, ?_, ?_, fun call' hcall' => h.calls call' ?_, fun i item hitem => ?_⟩
  · have hnodup := h.nodup
    rw [hcalls] at hnodup
    refine (List.Perm.nodup_iff ?_).1 hnodup
    show (s.submitted ++ (before ++ call :: after).map FanOutCall.number).Perm
      (s.submitted ++ [call.number] ++ (before ++ after).map FanOutCall.number)
    rw [List.append_assoc]
    exact List.Perm.append_left _ (List.perm_middle.map _)
  · simp only [hcommands, List.length_append, List.length_singleton, h.length]
  · rw [hcalls]
    rcases List.mem_append.1 hcall' with hin | hin
    · exact List.mem_append_left _ hin
    · exact List.mem_append_right _ (List.mem_cons_of_mem _ hin)
  · have hitem : (s.client.commands ++ [_])[i]? = some item := hcommands ▸ hitem
    show ∃ m', s.scheduled[((s.submitted ++ [call.number])[i]?).getD 0]? = some m' ∧ _
    rcases Nat.lt_trichotomy i s.client.commands.length with hi | rfl | hi
    · rw [List.getElem?_append_left hi] at hitem
      rw [number_append s (h.length ▸ hi)]
      exact h.commands i item hitem
    · rw [List.getElem?_concat_length] at hitem
      obtain rfl := Option.some.inj hitem
      rw [← h.length, List.getElem?_concat_length]
      exact ⟨m, hm, rfl⟩
    · rw [List.getElem?_eq_none_iff.2 (by simpa using hi)] at hitem
      cases hitem

/-- The requests on a link are commands that have been submitted. -/
theorem Paired.submitted (h : Paired num t p q s) {sid i : ℕ}
    (hitem : (s.client.links sid).requests[i]? = some item) :
    s.client.commands[item.id]? = some item ∧ item.id < s.submitted.length := by
  have hget := h.client.logged.requests sid item (List.mem_of_getElem? hitem)
  exact ⟨hget, h.numbered.length ▸ (List.getElem?_eq_some_iff.1 hget).1⟩

theorem paired_execute {before after : List FanOutCall} (h : Paired num t p q s)
    (hcalls : s.calls = before ++ call :: after) :
    Paired num t p q (s.executeRaw call (before ++ after)) := by
  obtain ⟨m, hm, hw, heq⟩ := executeRaw_eq h.numbered
    (hcalls ▸ List.mem_append_right _ List.mem_cons_self)
  obtain ⟨-, -, hlinks, -⟩ := s.client.commandLine_spec (replLine num m ++ newline) false
  rw [heq]
  refine ⟨h.primary, h.replica, h.client.step (.submit s.client false (newline_notMem_replLine hw)),
    h.numbered.executeRaw hcalls hm,
    ⟨h.processed.bounded, fun sid i reply hreply => ?_, h.processed.primary, h.processed.replica⟩,
    ⟨h.recorded.scheduled, h.recorded.sorted⟩⟩
  simp only [hlinks] at hreply ⊢
  obtain ⟨item, hitem, hreplied⟩ := h.processed.answered sid i reply hreply
  refine ⟨item, hitem, ?_⟩
  unfold Replied
  rw [ReplicaPair.number, number_append s (h.submitted hitem).2]
  exact hreplied

/-! ### The replica processes a line -/

/-- What the replica processes is the line of the mutation. -/
theorem Paired.nextLine (h : Paired num t p q s) {sid i : ℕ}
    (hitem : (s.client.links sid).requests[i]? = some item) :
    ∃ m, s.scheduled[s.number item.id]? = some m ∧ m.WellFormed num ∧
      firstLine item.line = replLine num m := by
  obtain ⟨m, hm, hline⟩ := h.numbered.commands _ _ (h.submitted hitem).1
  have hw := h.numbered.wellFormed m (List.mem_of_getElem? hm)
  exact ⟨m, hm, hw, by rw [hline, firstLine_append_newline (newline_notMem_replLine hw)]⟩

theorem paired_serve (h : Paired num t p q s) {sid : ℕ} {reply : JsString}
    (hitem : (s.client.links sid).requests[(s.client.links sid).answers.length]? = some item)
    (hserve : serveLine num s.replica c (firstLine item.line) = some served)
    (hreply : served.reply = some (reply ++ newline))
    (hstep : ClientStep num s.client (.answer sid reply) client) :
    Paired num t p q { s with
      replica := served.node
      client := client
      applied := s.number item.id :: s.applied } := by
  obtain ⟨m, hm, hw, hline⟩ := h.nextLine hitem
  rw [hline] at hserve
  obtain ⟨served', hserve', -, ⟨store', hnode⟩, hfree, hget⟩ :=
    serve_replLine h.replica.free h.replica.limit c hw
  obtain rfl := Option.some.inj (hserve.symm.trans hserve')
  have hclient := h.client.step hstep
  cases hstep with
  | answer hno hlt =>
  refine ⟨h.primary, h.replica.kept hfree (hnode ▸ ⟨rfl, fun e he => ⟨e, he, rfl, rfl⟩⟩), hclient,
    h.numbered.congr rfl rfl rfl rfl,
    ⟨fun n hn => ?_, fun sid' i reply' hreply' => ?_, h.processed.primary, fun k => ?_⟩,
    ⟨h.recorded.scheduled, h.recorded.sorted⟩⟩
  · rcases List.mem_cons.1 hn with rfl | hn
    · exact (List.getElem?_eq_some_iff.1 hm).1
    · exact h.processed.bounded n hn
  · have old (hreply' : (s.client.links sid').answers[i]? = some reply') :
        ∃ item', (s.client.links sid').requests[i]? = some item' ∧
          Replied { s with
            replica := served.node
            applied := s.number item.id :: s.applied } item' reply' := by
      obtain ⟨item', hitem', m', hm', happlied, herr⟩ := h.processed.answered sid' i reply' hreply'
      exact ⟨item', hitem', m', hm', List.mem_cons_of_mem _ happlied, herr⟩
    by_cases hsid : sid' = sid
    · subst hsid
      simp only [CacheClient.setLink, Function.update_self] at hreply' ⊢
      -- an answer given before, the new one, or none
      rcases Nat.lt_trichotomy i (s.client.links sid').answers.length with hi | rfl | hi
      · rw [List.getElem?_append_left hi] at hreply'
        exact old hreply'
      · rw [List.getElem?_concat_length] at hreply'
        obtain rfl := Option.some.inj hreply'
        refine ⟨item, hitem, m, hm, List.mem_cons_self, fun hrefused => ?_⟩
        obtain ⟨text, htext, herr⟩ := serve_replLine_refused h.replica.free.toInv hw hrefused hserve
        obtain rfl := Option.some.inj (hreply.symm.trans htext)
        exact herr
      · rw [List.getElem?_eq_none_iff.2 (by simpa using hi)] at hreply'
        cases hreply'
    · simp only [CacheClient.setLink, Function.update_of_ne hsid] at hreply' ⊢
      exact old hreply'
  · show served.node.valueOf k =
      latest k ((s.number item.id :: s.applied).filterMap (s.scheduled[·]?))
    rw [List.filterMap_cons_some hm]
    exact valueOf_step h.processed.replica hget k

/-! ### Runs -/

theorem paired_start (autoReconnect : Bool) (maxReconnectAttempts : ℕ) :
    Paired num t p q (.start t p q autoReconnect maxReconnectAttempts) where
  primary := ⟨free_new, rfl, _, rfl, rfl, rfl⟩
  replica := ⟨free_new, rfl, _, rfl, rfl, rfl⟩
  client := CacheClient.sound_new
  numbered :=
    ⟨fun _ h => (nomatch h), List.nodup_nil, rfl, fun _ h => (nomatch h), fun _ _ h => (nomatch h)⟩
  processed := ⟨fun _ h => (nomatch h), fun _ _ _ h => (nomatch h), fun _ => rfl, fun _ => rfl⟩
  recorded := ⟨fun _ _ => ⟨fun h => (nomatch h), fun h => (nomatch h)⟩, .nil⟩

theorem paired_step {ev : PairEvent} (h : Paired num t p q s) (hstep : PairStep num t p q s ev s') :
    Paired num t p q s' := by
  cases ev with
  | mutate clock line =>
    obtain ⟨m, served, hm, -, hlen, hserve, rfl⟩ := hstep
    exact paired_mutate h hm hlen hserve
  | execute number =>
    obtain ⟨before, call, after, hcalls, -, -, rfl⟩ := hstep
    exact paired_execute h hcalls
  | client ev =>
    obtain ⟨hev, -, client, hstep, rfl⟩ := hstep
    obtain ⟨hnumbers, hcalls⟩ := settleCalls_spec s.client.connectCall client.connectCall s.calls
    exact h.withClient hev hstep hnumbers hcalls
  | serve sid clock =>
    obtain ⟨item, served, reply, client, hitem, hserve, hreply, hstep, rfl⟩ := hstep
    exact paired_serve h hitem hserve hreply hstep
  | release =>
    obtain rfl := hstep
    exact ⟨h.primary.kept h.primary.free s.primary.release_kept, h.replica, h.client,
      h.numbered.congr rfl rfl rfl rfl,
      ⟨h.processed.bounded, h.processed.answered, h.processed.primary, h.processed.replica⟩,
      ⟨h.recorded.scheduled, h.recorded.sorted⟩⟩

end DistributedCache
