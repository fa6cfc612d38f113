import DistributedCache.Cluster.Paired
import DistributedCache.Lib.Channels

/-!
# Mutations that overtake each other

The line of a command that has timed out may still be in a connection that the client has given up,
and a line written on the next connection can reach the replica first. A `REPL` line carries no
number, so the replica then goes back to the older value (`replica_goes_back`).

* `Outstanding`, `WritesInTurn`: a line is written when no earlier mutation of its key is still to be
  written, or on its way in another connection;
* `ReplicaPair.channels`: a pair as numbered messages over the connections of its client, and
  `step_ordered`, that they stay `Ordered` where lines are written in turn;
* `never_back_in_time`: the replica then processes the mutations of a key in order, and holds what
  the primary holds once the last one has been acknowledged.
-/

namespace DistributedCache

open CacheStore

namespace ReplicaPair

/-- The key of a scheduled mutation. -/
def keyOf (s : ReplicaPair) (n : ℕ) : Option JsString := (s.scheduled[n]?).map InnerCommand.key

/-- The scheduled mutations that have not been written: those of the calls of `#fanOut`, and those of
the commands that wait in the client. -/
def unwritten (s : ReplicaPair) : List ℕ :=
  s.calls.map FanOutCall.number ++ s.client.waiting.map fun item => s.number item.id

/-- The mutations whose lines are in a connection and have not been processed, oldest first. -/
def unprocessed (s : ReplicaPair) (sid : ℕ) : List ℕ :=
  ((s.client.links sid).requests.drop (s.client.links sid).answers.length).map fun item =>
    s.number item.id

/-- The mutations of a key that the replica has processed, newest first. -/
def appliedTo (s : ReplicaPair) (k : JsString) : List ℕ :=
  s.applied.filter fun n => s.keyOf n = some k

/-- The last mutation of a key at the primary, and its number if it was scheduled. -/
def lastOf (s : ReplicaPair) (k : JsString) : Option (InnerCommand × Option ℕ) :=
  s.history.find? fun x => x.1.key = k

/-- `#fanOut` has got `OK` or `INT …` for the mutation. -/
def Acknowledged (s : ReplicaPair) (n : ℕ) : Prop :=
  ∃ (id : ℕ) (r : Response), s.submitted[id]? = some n ∧ (id, .ok r) ∈ s.client.outcomes ∧
    (r = .ok ∨ ∃ i, r = .int i)

/-- The mutation is still to be written, or unprocessed in a connection other than `sid`. -/
def Outstanding (s : ReplicaPair) (sid n : ℕ) : Prop :=
  n ∈ s.unwritten ∨ ∃ sid' < s.client.nextSocket, sid' ≠ sid ∧ n ∈ s.unprocessed sid'

instance (s : ReplicaPair) (sid n : ℕ) : Decidable (s.Outstanding sid n) := by
  unfold Outstanding
  infer_instance

/-- No earlier mutation with the key of `n` is outstanding. -/
def MayWrite (s : ReplicaPair) (sid n : ℕ) : Prop :=
  ∀ n' < n, s.keyOf n' = s.keyOf n → ¬ s.Outstanding sid n'

instance (s : ReplicaPair) (sid n : ℕ) : Decidable (s.MayWrite sid n) := by
  unfold MayWrite
  infer_instance

end ReplicaPair

/-- If the step writes the line of a mutation, it may be written. -/
def WritesInTurn (s : ReplicaPair) : PairEvent → Prop
  | .client .resumeLoop =>
      match s.client.loop, s.client.socket with
      | .ensuring item .returned, some sid => s.MayWrite sid (s.number item.id)
      | _, _ => True
  | _ => True

instance (s : ReplicaPair) (ev : PairEvent) : Decidable (WritesInTurn s ev) := by
  unfold WritesInTurn
  split
  · split <;> infer_instance
  · infer_instance

/-- The mutations as messages, the connections as channels. -/
def ReplicaPair.channels (s : ReplicaPair) : Channels JsString where
  keys := s.scheduled.map InnerCommand.key
  pending := {n | n ∈ s.unwritten}
  sent := {n | n ∈ s.client.writes.map fun w => s.number w.1}
  channel := s.unprocessed
  received := s.applied

variable {num : Numerals} {t : Topology} {p q : ℕ} {s s' : ReplicaPair} {m : InnerCommand}
  {client : CacheClient} {calls : List FanOutCall} {call : FanOutCall} {item : QueueItem}
  {sid n n' : ℕ} {k : JsString} {past : List PairEvent} {autoReconnect : Bool}
  {maxReconnectAttempts : ℕ}

theorem channels_keys (s : ReplicaPair) (n : ℕ) : s.channels.keys[n]? = s.keyOf n :=
  List.getElem?_map

theorem clear_of_writesInTurn (hplugged : s.client.Plugged)
    (hok : WritesInTurn s (.client .resumeLoop)) (hloop : s.client.loop = .ensuring item .returned)
    (hsocket : s.client.socket = some sid) : s.channels.Clear (s.number item.id) sid := by
  unfold WritesInTurn at hok
  rw [hloop, hsocket] at hok
  rintro n hlt ⟨k, hn, hn'⟩
  rw [channels_keys] at hn hn'
  have hno := hok n hlt (hn.trans hn'.symm)
  refine ⟨fun hunwritten => hno (Or.inl hunwritten), fun sid' hne => ?_⟩
  by_cases hsid : sid' < s.client.nextSocket
  · exact fun hin => hno (Or.inr ⟨sid', hsid, hne, hin⟩)
  · -- nothing is in a connection that has not been made
    have hnew := (hplugged.fresh sid' (not_lt.1 hsid)).2
    show n ∉ s.unprocessed sid'
    rw [ReplicaPair.unprocessed, hnew]
    exact List.not_mem_nil

/-! ### The client goes on -/

/-- There are no more answers than requests. -/
theorem Processed.answers_le (h : Processed s) (sid : ℕ) :
    (s.client.links sid).answers.length ≤ (s.client.links sid).requests.length := by
  by_contra hlt
  obtain ⟨item, hitem, -⟩ := h.answered sid (s.client.links sid).requests.length _
    (List.getElem?_eq_getElem (not_le.1 hlt))
  exact absurd (List.getElem?_eq_some_iff.1 hitem).1 (lt_irrefl _)

/-- Different commands have different mutations. -/
theorem Numbered.number_inj (h : Numbered num s) {i j : ℕ} (hi : i < s.client.commands.length)
    (hj : j < s.client.commands.length) (heq : s.number i = s.number j) : i = j := by
  rw [← h.length] at hi hj
  unfold ReplicaPair.number at heq
  rw [List.getElem?_eq_getElem hi, List.getElem?_eq_getElem hj] at heq
  exact (List.Nodup.getElem_inj_iff (List.nodup_append.1 h.nodup).1).1 heq

/-- The mutation of a command has no call of `#fanOut` any more. -/
theorem Numbered.number_notMem (h : Numbered num s) {i : ℕ} (hi : i < s.client.commands.length) :
    s.number i ∉ s.calls.map FanOutCall.number := by
  rw [← h.length] at hi
  intro hmem
  refine (List.nodup_append.1 h.nodup).2.2 (s.number i) ?_ _ hmem rfl
  unfold ReplicaPair.number
  rw [List.getElem?_eq_getElem hi]
  exact List.getElem_mem hi

/-- Nothing is written, processed or scheduled; mutations at most stop waiting. -/
theorem ordered_keep (hs : s.channels.Ordered) (hscheduled : s'.scheduled = s.scheduled)
    (hwrites : (s'.client.writes.map fun w => s'.number w.1) =
      s.client.writes.map fun w => s.number w.1)
    (hunprocessed : ∀ i, s'.unprocessed i = s.unprocessed i) (happlied : s'.applied = s.applied)
    (hunwritten : s'.unwritten ⊆ s.unwritten) : s'.channels.Ordered := by
  have heq : s'.channels = { s.channels with pending := {n | n ∈ s'.unwritten} } := by
    simp only [ReplicaPair.channels, hscheduled, hwrites, funext hunprocessed, happlied]
  rw [heq]
  exact hs.keep hunwritten

theorem ordered_quiet (hs : s.channels.Ordered)
    (heffect : CacheClient.Effect num s.client client) (hwrites : client.writes = s.client.writes)
    (hrequests : ∀ i, (client.links i).requests = (s.client.links i).requests)
    (hnumbers : (calls.map FanOutCall.number).Sublist (s.calls.map FanOutCall.number)) :
    ({ s with client := client, calls := calls } : ReplicaPair).channels.Ordered := by
  refine ordered_keep hs rfl (by rw [hwrites]; rfl) (fun i => ?_) rfl fun n hn => ?_
  · unfold ReplicaPair.unprocessed
    simp only [hrequests, heffect.answers]
    rfl
  · rcases List.mem_append.1 hn with hn | hn
    · exact List.mem_append_left _ (hnumbers.subset hn)
    · obtain ⟨item, hitem, rfl⟩ := List.mem_map.1 hn
      exact List.mem_append_right _ (List.mem_map.2 ⟨item, heffect.waiting hitem, rfl⟩)

/-- A line is written in turn. -/
theorem ordered_written (hs : s.channels.Ordered) (hpaired : Paired num t p q s)
    (heffect : CacheClient.Effect num s.client client) (hclient : CacheClient.Sound num client)
    (hloop : s.client.loop = .ensuring item .returned)
    (hclear : s.channels.Clear (s.number item.id) sid)
    (hwrites : client.writes = (item.id, sid) :: s.client.writes)
    (hrequests : (∀ i, (client.links i).requests = (s.client.links i).requests) ∨
      ∀ i, (client.links i).requests =
        if i = sid then (s.client.links i).requests ++ [item] else (s.client.links i).requests)
    (hnumbers : (calls.map FanOutCall.number).Sublist (s.calls.map FanOutCall.number)) :
    ({ s with client := client, calls := calls } : ReplicaPair).channels.Ordered := by
  have hwaiting : item ∈ s.client.waiting := by
    simp [CacheClient.waiting, hloop, CacheClient.held]
  have hid (item : QueueItem) (hitem : item ∈ s.client.waiting) :
      item.id < s.client.commands.length :=
    hpaired.client.ordered.waiting_lt item.id (List.mem_map_of_mem hitem)
  have hpending : {n | n ∈ ({ s with client := client, calls := calls } : ReplicaPair).unwritten} ⊆
      s.channels.pending \ {s.number item.id} := by
    intro n hn
    rcases List.mem_append.1 hn with hn | hn
    · refine ⟨List.mem_append_left _ (hnumbers.subset hn), fun heq => ?_⟩
      exact hpaired.numbered.number_notMem (hid item hwaiting) (heq ▸ hnumbers.subset hn)
    · obtain ⟨item', hitem', rfl⟩ := List.mem_map.1 hn
      have hold := heffect.waiting hitem'
      refine ⟨List.mem_append_right _ (List.mem_map.2 ⟨item', hold, rfl⟩), fun heq => ?_⟩
      -- what still waits comes after what has been written
      have hlt : item.id < item'.id := hclient.ordered.started_before (item.id, sid)
        (by rw [show client.ledger.started = _ from hwrites]; exact List.mem_cons_self) item'.id
        (List.mem_map_of_mem hitem')
      exact hlt.ne' (hpaired.numbered.number_inj (hid item' hold) (hid item hwaiting) heq)
  have hsent : {n | n ∈ client.writes.map fun w => s.number w.1} =
      insert (s.number item.id) s.channels.sent := by
    rw [hwrites, List.map_cons]
    ext n
    exact List.mem_cons
  have hchannel :
      ({ s with client := client, calls := calls } : ReplicaPair).unprocessed = s.unprocessed ∨
        ({ s with client := client, calls := calls } : ReplicaPair).unprocessed =
          Function.update s.unprocessed sid (s.unprocessed sid ++ [s.number item.id]) := by
    rcases hrequests with hsame | hmore
    · refine Or.inl (funext fun i => ?_)
      unfold ReplicaPair.unprocessed
      simp only [hsame, heffect.answers]
      rfl
    · refine Or.inr (funext fun i => ?_)
      unfold ReplicaPair.unprocessed
      simp only [hmore, heffect.answers]
      by_cases hi : i = sid
      · subst hi
        rw [if_pos rfl, Function.update_self,
          List.drop_append_of_le_length (hpaired.processed.answers_le i), List.map_append]
        rfl
      · rw [if_neg hi, Function.update_of_ne hi]
        rfl
  have hstep := Channels.Step.send s.channels
    (List.mem_append_right _ (List.mem_map.2 ⟨item, hwaiting, rfl⟩)) hclear hpending hchannel
  rw [← hsent] at hstep
  exact hstep.ordered hs

theorem ordered_client {ev : ClientEvent} (hs : s.channels.Ordered) (hpaired : Paired num t p q s)
    (hev : ev.Internal) (hok : WritesInTurn s (.client ev))
    (hstep : ClientStep num s.client ev client)
    (hnumbers : (calls.map FanOutCall.number).Sublist (s.calls.map FanOutCall.number)) :
    ({ s with client := client, calls := calls } : ReplicaPair).channels.Ordered := by
  have heffect := CacheClient.step_effect hstep hev hpaired.client.control hpaired.client.plugged
    hpaired.client.talk
  rcases heffect.written with ⟨hwrites, hrequests⟩ |
    ⟨item, sid, hloop, hsocket, hwrites, hrequests⟩
  · exact ordered_quiet hs heffect hwrites hrequests hnumbers
  · by_cases hresume : ev = .resumeLoop
    · subst hresume
      exact ordered_written hs hpaired heffect (hpaired.client.step hstep) hloop
        (clear_of_writesInTurn hpaired.client.plugged hok hloop hsocket) hwrites hrequests hnumbers
    · have hsame := CacheClient.step_writes hstep hresume
      rw [hsame] at hwrites
      exact absurd hwrites.symm (List.cons_ne_self _ _)

/-! ### A mutation is scheduled, and submitted -/

theorem ordered_schedule (hs : s.channels.Ordered) {primary : CacheNode}
    {history : List (InnerCommand × Option ℕ)}
    (hcalls : ∀ call ∈ calls, call ∈ s.calls ∨ call.number = s.scheduled.length) :
    ({ s with
      primary := primary, calls := calls, scheduled := s.scheduled ++ [m]
      history := history } : ReplicaPair).channels.Ordered := by
  have hpending : {n | n ∈ calls.map FanOutCall.number ++
      s.client.waiting.map fun item => s.number item.id} ⊆
        insert s.channels.keys.length s.channels.pending := by
    intro n hn
    rcases List.mem_append.1 hn with hn | hn
    · obtain ⟨call, hcall, rfl⟩ := List.mem_map.1 hn
      rcases hcalls call hcall with hold | hnew
      · exact Or.inr (List.mem_append_left _ (List.mem_map_of_mem hold))
      · exact Or.inl (by rw [hnew, ReplicaPair.channels, List.length_map])
    · exact Or.inr (List.mem_append_right _ hn)
  have hstep := hs.schedule m.key hpending
  rw [show s.channels.keys ++ [m.key] = (s.scheduled ++ [m]).map InnerCommand.key by
    rw [List.map_append]; rfl] at hstep
  exact hstep

theorem ordered_execute {before after : List FanOutCall} (hs : s.channels.Ordered)
    (hpaired : Paired num t p q s) (hcalls : s.calls = before ++ call :: after) :
    (s.executeRaw call (before ++ after)).channels.Ordered := by
  obtain ⟨m, -, -, heq⟩ := executeRaw_eq hpaired.numbered
    (hcalls ▸ List.mem_append_right _ List.mem_cons_self)
  obtain ⟨-, hwaiting, hlinks, hwrites, -⟩ :=
    s.client.commandLine_spec (replLine num m ++ newline) false
  rw [heq]
  -- the numbers of the commands before are the same
  have hnumber (i : ℕ) (hi : i < s.client.commands.length) :
      ((s.submitted ++ [call.number])[i]?).getD 0 = s.number i :=
    number_append s (hpaired.numbered.length ▸ hi)
  refine ordered_keep hs rfl ?_ (fun sid => ?_) rfl fun n hn => ?_
  · simp only [hwrites]
    exact List.map_congr_left fun w hw => hnumber w.1 (hpaired.client.ordered.started_lt w hw)
  · simp only [ReplicaPair.unprocessed, hlinks]
    refine List.map_congr_left fun item hitem => hnumber item.id ?_
    have hget := hpaired.client.logged.requests sid item (List.mem_of_mem_drop hitem)
    exact (List.getElem?_eq_some_iff.1 hget).1
  · have hold : s.unwritten = (before ++ call :: after).map FanOutCall.number ++
        s.client.waiting.map fun item => s.number item.id := by rw [ReplicaPair.unwritten, hcalls]
    rw [hold]
    rcases List.mem_append.1 hn with hn | hn
    · obtain ⟨call', hcall', rfl⟩ := List.mem_map.1 hn
      refine List.mem_append_left _ (List.mem_map_of_mem ?_)
      exact (List.sublist_cons_self call after).append_left before |>.subset hcall'
    · obtain ⟨item, hitem, rfl⟩ := List.mem_map.1 hn
      rcases List.mem_append.1 (hwaiting hitem) with hin | hnew
      · have hi := hpaired.client.ordered.waiting_lt item.id (List.mem_map_of_mem hin)
        exact List.mem_append_right _ (List.mem_map.2 ⟨item, hin, (hnumber item.id hi).symm⟩)
      · -- the new command has the number of its call
        have hid : ReplicaPair.number { s with
            client := s.client.commandLine (replLine num m ++ newline) false
            calls := before ++ after
            submitted := s.submitted ++ [call.number] } item.id = call.number := by
          rw [List.mem_singleton.1 hnew]
          simp only [ReplicaPair.number, ← hpaired.numbered.length, List.getElem?_concat_length,
            Option.getD_some]
        refine List.mem_append_left _ ?_
        rw [hid]
        exact List.mem_map_of_mem (List.mem_append_right _ List.mem_cons_self)

/-! ### The replica processes a line -/

theorem ordered_serve (hs : s.channels.Ordered) {node : CacheNode} {reply : JsString}
    (hitem : (s.client.links sid).requests[(s.client.links sid).answers.length]? = some item)
    (hstep : ClientStep num s.client (.answer sid reply) client) :
    ({ s with
      replica := node
      client := client
      applied := s.number item.id :: s.applied } : ReplicaPair).channels.Ordered := by
  obtain ⟨hlt, hget⟩ := List.getElem?_eq_some_iff.1 hitem
  have hhead : s.unprocessed sid = s.number item.id ::
      ((s.client.links sid).requests.drop ((s.client.links sid).answers.length + 1)).map fun item =>
        s.number item.id := by
    rw [ReplicaPair.unprocessed, List.drop_eq_getElem_cons hlt, hget, List.map_cons]
  have hreceive := hs.receive hhead
  cases hstep with
  | answer hno _ =>
  have hchannel : ({ s with
      replica := node
      client := s.client.setLink sid { s.client.links sid with
        answers := (s.client.links sid).answers ++ [reply]
        incoming := (s.client.links sid).incoming ++ (reply ++ newline) }
      applied := s.number item.id :: s.applied } : ReplicaPair).unprocessed =
      Function.update s.unprocessed sid
        (((s.client.links sid).requests.drop ((s.client.links sid).answers.length + 1)).map
          fun item => s.number item.id) := by
    funext i
    unfold ReplicaPair.unprocessed
    by_cases hi : i = sid
    · subst hi
      simp only [CacheClient.setLink, Function.update_self, List.length_append,
        List.length_singleton]
      rfl
    · simp only [CacheClient.setLink, Function.update_of_ne hi]
      rfl
  simp only [ReplicaPair.channels, hchannel]
  exact hreceive

/-- **Written in turn, the lines stay in order.** -/
theorem step_ordered {ev : PairEvent} (hs : s.channels.Ordered) (hpaired : Paired num t p q s)
    (hok : WritesInTurn s ev) (hstep : PairStep num t p q s ev s') : s'.channels.Ordered := by
  cases ev with
  | mutate clock line =>
    obtain ⟨m, served, -, -, -, -, rfl⟩ := hstep
    unfold ReplicaPair.mutate
    cases served.sends.find? (·.1 = q) with
    | none => exact hs
    | some send =>
      have hstep : ClientStep num s.client .connect s.client.connect := .connect s.client
      have hconnect := ordered_client hs hpaired (by trivial) (by trivial) hstep (.refl _)
      refine ordered_schedule (s := { s with client := s.client.connect, calls := s.calls }) hconnect
        fun call hcall => ?_
      simp only [ReplicaPair.fanOut] at hcall
      split_ifs at hcall
      · exact Or.inl hcall
      · rcases List.mem_append.1 hcall with hold | hnew
        · exact Or.inl hold
        · rw [List.mem_singleton.1 hnew]
          exact Or.inr rfl
  | execute number =>
    obtain ⟨before, call, after, hcalls, -, -, rfl⟩ := hstep
    exact ordered_execute hs hpaired hcalls
  | client ev =>
    obtain ⟨hev, -, client, hstep, rfl⟩ := hstep
    exact ordered_client hs hpaired hev hok hstep (settleCalls_spec _ _ s.calls).1
  | serve sid clock =>
    obtain ⟨item, served, reply, client, hitem, -, -, hstep, rfl⟩ := hstep
    exact ordered_serve hs hitem hstep
  | release =>
    obtain rfl := hstep
    exact hs

/-! ### The last mutation of a key -/

/-- The newest mutation of a key in the history left the primary's value. -/
theorem latest_of_find {history : List (InnerCommand × Option ℕ)} {number : Option ℕ}
    (h : (history.find? fun x => x.1.key = k) = some (m, number)) (hm : m.Accepted) :
    latest k (history.map Prod.fst) = m.value := by
  induction history with
  | nil => cases h
  | cons x history ih =>
    rw [List.map_cons, latest]
    by_cases hk : x.1.key = k
    · rw [List.find?_cons_of_pos (by simpa using hk)] at h
      obtain rfl := Option.some.inj h
      rw [if_pos ⟨hm, hk.symm⟩]
    · rw [List.find?_cons_of_neg (by simpa using hk)] at h
      rw [if_neg fun hall => hk hall.2.symm]
      exact ih h

/-- Processed in order, the mutation with the highest number left the replica's value. -/
theorem latest_of_max {scheduled : List InnerCommand} {applied : List ℕ}
    (hsorted : applied.Pairwise fun n n' => (∃ k, (scheduled[n']?).map InnerCommand.key = some k ∧
      (scheduled[n]?).map InnerCommand.key = some k) → n' < n)
    (hn : n ∈ applied) (hget : scheduled[n]? = some m) (hm : m.Accepted)
    (hmax : ∀ (n' : ℕ) m', scheduled[n']? = some m' → m'.key = m.key → n' ≤ n) :
    latest m.key (applied.filterMap (scheduled[·]?)) = m.value := by
  induction applied with
  | nil => cases hn
  | cons n₁ applied ih =>
    obtain ⟨hfirst, hrest⟩ := List.pairwise_cons.1 hsorted
    cases hget₁ : scheduled[n₁]? with
    | none =>
      rw [List.filterMap_cons_none hget₁]
      refine ih hrest ((List.mem_cons.1 hn).resolve_left fun heq => ?_)
      rw [heq, hget₁] at hget
      cases hget
    | some m₁ =>
      rw [List.filterMap_cons_some hget₁, latest]
      rcases List.mem_cons.1 hn with rfl | hn
      · obtain rfl := Option.some.inj (hget₁.symm.trans hget)
        rw [if_pos ⟨hm, rfl⟩]
      · by_cases hk : m₁.key = m.key
        · -- a mutation of the key that was processed later has a higher number
          have hlt : n < n₁ := hfirst n hn ⟨m.key, by rw [hget, Option.map_some],
            by rw [hget₁, Option.map_some, hk]⟩
          exact absurd (hmax n₁ m₁ hget₁ hk) (not_le.2 hlt)
        · rw [if_neg fun hall => hk hall.2.symm]
          exact ih hrest hn

/-- A mutation that was acknowledged has been processed, and accepted. -/
theorem acknowledged_applied (h : Paired num t p q s) (hack : s.Acknowledged n) :
    ∃ m, s.scheduled[n]? = some m ∧ n ∈ s.applied ∧ m.Accepted := by
  obtain ⟨id, r, hid, houtcome, hr⟩ := hack
  rcases h.client.logged.outcomes _ houtcome with
    ⟨sid, i, item, reply, hrequest, hanswer, heq, hresult⟩ | ⟨e, he, -⟩
  · obtain ⟨item', hitem', m, hm, happlied, herr⟩ := h.processed.answered sid i reply hanswer
    obtain rfl := Option.some.inj (hrequest.symm.trans hitem')
    have hn : s.number item.id = n := by rw [heq, ReplicaPair.number, hid, Option.getD_some]
    rw [hn] at hm happlied
    refine ⟨m, hm, happlied, ?_⟩
    by_contra hrefused
    obtain ⟨message, rfl⟩ := dispatchResponse_of_head (herr hrefused).head? _ hresult.symm
    rcases hr with hr | ⟨i, hr⟩
    · cases hr
    · cases hr
  · cases he

/-- The last mutation of a key has the highest number among those of the key. -/
theorem Recorded.last_max {x : InnerCommand × Option ℕ} (h : Recorded s)
    (hlast : s.lastOf k = some x) (hx : x.2 = some n) (hget : s.scheduled[n']? = some m)
    (hk : m.key = k) : n' ≤ n := by
  obtain ⟨-, before, after, hhistory, hbefore⟩ := List.find?_eq_some_iff_append.1 hlast
  have hmem : (m, some n') ∈ s.history := (h.scheduled m n').2 hget
  have hsorted := h.sorted
  rw [hhistory] at hmem hsorted
  rcases List.mem_append.1 hmem with hin | hin
  · exact absurd (hbefore _ hin) (by simp [hk])
  · rcases List.mem_cons.1 hin with rfl | hin
    · exact (Option.some.inj hx).le
    · have hcons := (List.pairwise_append.1 hsorted).2.1
      exact ((List.pairwise_cons.1 hcons).1 _ hin n n' hx rfl).le

/-! ### Runs -/

theorem run_in_turn
    (hrun : ((pairSystem num t p q autoReconnect maxReconnectAttempts).restrict
      WritesInTurn).Run past s) : Paired num t p q s ∧ s.channels.Ordered := by
  refine hrun.invariant (P := fun _ s => Paired num t p q s ∧ s.channels.Ordered)
    ⟨paired_start _ _, ?_⟩ fun past s ev s' _ hs hstep => ?_
  · have hempty : (ReplicaPair.start t p q autoReconnect maxReconnectAttempts).channels =
        Channels.empty := by
      simp [ReplicaPair.channels, ReplicaPair.start, Channels.empty, ReplicaPair.unwritten,
        CacheClient.new, CacheClient.waiting, CacheClient.held, Link.new]
      rfl
    exact hempty ▸ Channels.ordered_empty
  · exact ⟨paired_step hs.1 hstep.1, step_ordered hs.2 hs.1 hstep.2 hstep.1⟩

/-- **A replica does not go back in time** in a run in which every line is written in turn: it
processes the mutations of each key in the order in which they were scheduled, and once the last one
has been acknowledged it holds the primary's value. -/
theorem never_back_in_time
    (hrun : ((pairSystem num t p q autoReconnect maxReconnectAttempts).restrict
      WritesInTurn).Run past s) :
    (∀ k, (s.appliedTo k).Pairwise fun n n' => n' < n) ∧
    ∀ k m n, s.lastOf k = some (m, some n) → s.Acknowledged n →
      s.replica.valueOf k = s.primary.valueOf k := by
  obtain ⟨hpaired, hordered⟩ := run_in_turn hrun
  have hreceived : s.applied.Pairwise fun n n' =>
      (∃ k, s.keyOf n' = some k ∧ s.keyOf n = some k) → n' < n := by
    refine hordered.received.imp fun {n n'} hlt hsame => hlt ?_
    obtain ⟨k, hn', hn⟩ := hsame
    exact ⟨k, (channels_keys s n').trans hn', (channels_keys s n).trans hn⟩
  refine ⟨fun k => ?_, fun k m n hlast hack => ?_⟩
  · refine List.pairwise_filter.2 (hreceived.imp fun {n n'} hlt hn hn' => hlt ⟨k, ?_, ?_⟩)
    · exact of_decide_eq_true hn'
    · exact of_decide_eq_true hn
  · obtain ⟨m', hget, happlied, haccepted⟩ := acknowledged_applied hpaired hack
    have hmem : (m, some n) ∈ s.history := List.mem_of_find?_eq_some hlast
    obtain rfl := Option.some.inj (hget.symm.trans ((hpaired.recorded.scheduled m n).1 hmem))
    have hk : m'.key = k := by simpa using List.find?_some hlast
    subst hk
    rw [hpaired.processed.primary, hpaired.processed.replica, latest_of_find hlast haccepted]
    exact latest_of_max hreceived happlied hget haccepted fun n' m hget' hk' =>
      hpaired.recorded.last_max hlast rfl hget' hk'

/-- The first mutation times out and is processed on the old connection, then the second one is
written on a new connection. -/
theorem never_back_in_time_example : ∃ past s,
    ((pairSystem decimalNumerals twoNodes 0 1 true 3).restrict WritesInTurn).Run past s ∧
      s.appliedTo (js "k") = [1, 0] ∧ s.client.writes = [(1, 1), (0, 0)] ∧
      s.replica.valueOf (js "k") = s.primary.valueOf (js "k") ∧
      s.primary.valueOf (js "k") = some (js "2") := by
  let clock : Clock := fun _ => 0
  have h₀ := System.Run.start
    (S := (pairSystem decimalNumerals twoNodes 0 1 true 3).restrict WritesInTurn)
  have h₁ := h₀.snoc (l := PairEvent.mutate clock (js "SET k 1"))
    ⟨⟨_, _, rfl, by decide, by decide, rfl, rfl⟩, trivial⟩
  have h₂ := h₁.snoc (l := PairEvent.client .connected)
    ⟨⟨trivial, by decide, _, .connected _ rfl, rfl⟩, trivial⟩
  have h₃ := h₂.snoc (l := PairEvent.client .resumeConnect)
    ⟨⟨trivial, by decide, _, .connectSettled _ rfl (.inl rfl), rfl⟩, trivial⟩
  have h₄ := h₃.snoc (l := PairEvent.execute 0) ⟨⟨[], _, [], rfl, rfl, rfl, rfl⟩, trivial⟩
  have h₅ := h₄.snoc (l := PairEvent.client .resumeLoop)
    ⟨⟨trivial, by decide, _, .resumeReturned _ rfl, rfl⟩, by decide⟩
  have h₆ := h₅.snoc (l := PairEvent.client .commandTimeout)
    ⟨⟨trivial, by decide, _, .commandTimeout _ rfl, rfl⟩, trivial⟩
  have h₇ := h₆.snoc (l := PairEvent.serve 0 clock)
    ⟨⟨⟨0, js "REPL SET k 1" ++ newline, false⟩, _, js "OK", _, by decide, rfl, rfl,
      .answer _ (by decide) (by decide), rfl⟩, trivial⟩
  have h₈ := h₇.snoc (l := PairEvent.mutate clock (js "SET k 2"))
    ⟨⟨_, _, rfl, by decide, by decide, rfl, rfl⟩, trivial⟩
  have h₉ := h₈.snoc (l := PairEvent.client .connected)
    ⟨⟨trivial, by decide, _, .connected _ rfl, rfl⟩, trivial⟩
  have h₁₀ := h₉.snoc (l := PairEvent.client .resumeConnect)
    ⟨⟨trivial, by decide, _, .connectSettled _ rfl (.inl rfl), rfl⟩, trivial⟩
  have h₁₁ := h₁₀.snoc (l := PairEvent.execute 1) ⟨⟨[], _, [], rfl, rfl, rfl, rfl⟩, trivial⟩
  have h₁₂ := h₁₁.snoc (l := PairEvent.client .resumeLoop)
    ⟨⟨trivial, by decide, _, .resumeSettled _ rfl, rfl⟩, by decide⟩
  have h₁₃ := h₁₂.snoc (l := PairEvent.client .resumeLoop)
    ⟨⟨trivial, by decide, _, .resumeReturned _ rfl, rfl⟩, by decide⟩
  have h₁₄ := h₁₃.snoc (l := PairEvent.serve 1 clock)
    ⟨⟨⟨1, js "REPL SET k 2" ++ newline, false⟩, _, js "OK", _, by decide, rfl, rfl,
      .answer _ (by decide) (by decide), rfl⟩, trivial⟩
  have h₁₅ := h₁₄.snoc (l := PairEvent.client (.data 1 (js "OK" ++ newline)))
    ⟨⟨trivial, by decide, _, @ClientStep.data _ _ _ _ [] (by decide) (by decide) (by decide), rfl⟩,
      trivial⟩
  exact ⟨_, _, h₁₅, by decide, by decide, (never_back_in_time h₁₅).2 (js "k") _ 1 rfl
    ⟨1, .ok, by decide, by decide, .inl rfl⟩, by decide⟩

/-- The first mutation times out, the second one is written on a new connection and processed, and
then what was left on the old connection is processed. -/
theorem replica_goes_back : ∃ past s,
    (pairSystem decimalNumerals twoNodes 0 1 true 3).Run past s ∧
      s.appliedTo (js "k") = [0, 1] ∧
      s.unwritten = [] ∧ (∀ sid < s.client.nextSocket, s.unprocessed sid = []) ∧
      s.lastOf (js "k") = some (.set ⟨js "k", js "2", none⟩, some 1) ∧ s.Acknowledged 1 ∧
      s.primary.valueOf (js "k") = some (js "2") ∧ s.replica.valueOf (js "k") = some (js "1") := by
  let clock : Clock := fun _ => 0
  have h₀ := System.Run.start (S := pairSystem decimalNumerals twoNodes 0 1 true 3)
  have h₁ := h₀.snoc (l := PairEvent.mutate clock (js "SET k 1"))
    ⟨_, _, rfl, by decide, by decide, rfl, rfl⟩
  have h₂ := h₁.snoc (l := PairEvent.client .connected)
    ⟨trivial, by decide, _, .connected _ rfl, rfl⟩
  have h₃ := h₂.snoc (l := PairEvent.client .resumeConnect)
    ⟨trivial, by decide, _, .connectSettled _ rfl (.inl rfl), rfl⟩
  have h₄ := h₃.snoc (l := PairEvent.execute 0) ⟨[], _, [], rfl, rfl, rfl, rfl⟩
  have h₅ := h₄.snoc (l := PairEvent.client .resumeLoop)
    ⟨trivial, by decide, _, .resumeReturned _ rfl, rfl⟩
  have h₆ := h₅.snoc (l := PairEvent.client .commandTimeout)
    ⟨trivial, by decide, _, .commandTimeout _ rfl, rfl⟩
  have h₇ := h₆.snoc (l := PairEvent.mutate clock (js "SET k 2"))
    ⟨_, _, rfl, by decide, by decide, rfl, rfl⟩
  have h₈ := h₇.snoc (l := PairEvent.client .connected)
    ⟨trivial, by decide, _, .connected _ rfl, rfl⟩
  have h₉ := h₈.snoc (l := PairEvent.client .resumeConnect)
    ⟨trivial, by decide, _, .connectSettled _ rfl (.inl rfl), rfl⟩
  have h₁₀ := h₉.snoc (l := PairEvent.execute 1) ⟨[], _, [], rfl, rfl, rfl, rfl⟩
  have h₁₁ := h₁₀.snoc (l := PairEvent.client .resumeLoop)
    ⟨trivial, by decide, _, .resumeSettled _ rfl, rfl⟩
  have h₁₂ := h₁₁.snoc (l := PairEvent.client .resumeLoop)
    ⟨trivial, by decide, _, .resumeReturned _ rfl, rfl⟩
  have h₁₃ := h₁₂.snoc (l := PairEvent.serve 1 clock)
    ⟨⟨1, js "REPL SET k 2" ++ newline, false⟩, _, js "OK", _, by decide, rfl, rfl,
      .answer _ (by decide) (by decide), rfl⟩
  have h₁₄ := h₁₃.snoc (l := PairEvent.client (.data 1 (js "OK" ++ newline)))
    ⟨trivial, by decide, _, @ClientStep.data _ _ _ _ [] (by decide) (by decide) (by decide), rfl⟩
  have h₁₅ := h₁₄.snoc (l := PairEvent.serve 0 clock)
    ⟨⟨0, js "REPL SET k 1" ++ newline, false⟩, _, js "OK", _, by decide, rfl, rfl,
      .answer _ (by decide) (by decide), rfl⟩
  exact ⟨_, _, h₁₅, by decide, by decide, by decide, by decide,
    ⟨1, .ok, by decide, by decide, .inl rfl⟩, by decide, by decide⟩

end DistributedCache
