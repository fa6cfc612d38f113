import DistributedCache.Cluster.Network

/-!
# What the parts of a cluster know of each other

* `Wired`: the commands of a client are its calls, or lines that were handed to its engine; the
  lines of a log are those of commands; `Network.history` has each of them once;
* `Wired.step`: every step of the cluster keeps it.
-/

namespace DistributedCache

variable {ι : Type} [DecidableEq ι]

/-- What the parts of the cluster know of each other. -/
structure Wired (num : Numerals) (t : Topology) (cluster : ClusterClient)
    (limits : ℕ → StoreLimits) (w : Network ι) : Prop where
  linked : ∀ i, Linked num (t.startNode limits i) (w.service i)
  configured : ∀ i, Configured t i (w.service i).server.node
  calls : ∀ j i, ((w.service i).client (.cluster j)).commands =
    (w.calls j i).mapIdx fun id op => ⟨id, op.request num, true⟩
  admissible : ∀ j i, ∀ op ∈ w.calls j i, op.Admissible num ∧
    ∀ key, op.key = some key → cluster.resolveNodeIndex key = .ok i
  traced : ∀ p, Traced num t p (w.service p).server.log (w.service p).server.sent
  handed : ∀ x ∈ w.handed, ∃ line,
    (w.service x.server).server.sent[x.place]? = some (x.peer, line) ∧
      ((w.service x.peer).client (.engine x.server x.engine)).commands[x.id]? =
        some ⟨x.id, trim line ++ newline, false⟩
  origin : ∀ q p g id item, ((w.service q).client (.engine p g)).commands[id]? = some item →
    ∃ x ∈ w.handed, x.server = p ∧ x.engine = g ∧ x.peer = q ∧ x.id = id
  places : (w.handed.map fun x => (x.server, x.place)).Nodup
  recorded : ∀ i c sid k item e, (w.service i).Carries c sid k item e → .of i c e item ∈ w.history
  taken : ∀ x ∈ w.history, ∃ sid k item e, (w.service x.node).Carries x.client sid k item e ∧
    x = .of x.node x.client e item
  once : (w.history.map Taken.key).Nodup

variable {num : Numerals} {t : Topology} {cluster : ClusterClient} {limits : ℕ → StoreLimits}
  {w w' : Network ι} {item : QueueItem} {e : LogEntry (Caller ι × ℕ)} {command : Command}
  {i p g q k : ℕ} {j : ι} {c : Caller ι} {op : ClusterOp} {ev : ServiceEvent (Caller ι)}
  {s' : Service (Caller ι)}

theorem wired_start (autoReconnect : Caller ι → Bool) (maxReconnectAttempts : Caller ι → ℕ) :
    Wired num t cluster limits
      (networkSystem num t cluster limits ι autoReconnect maxReconnectAttempts).init where
  linked i := linked_new (t.startNode limits i) autoReconnect maxReconnectAttempts
  configured i e he := by
    cases he
    rfl
  calls _ _ := rfl
  admissible _ _ _ h := absurd h List.not_mem_nil
  traced _ := ⟨[], rfl, List.nodup_nil, fun _ h => absurd h List.not_mem_nil⟩
  handed _ h := absurd h List.not_mem_nil
  origin _ _ _ _ _ h := by cases h
  places := List.nodup_nil
  recorded _ _ _ _ _ _ h := by cases h.entry
  taken _ h := absurd h List.not_mem_nil
  once := List.nodup_nil

/-! ### What the lines are -/

/-- The line of a call arrives as it is. -/
theorem toWellFormed_request (hop : op.Admissible num) :
    toWellFormed (op.request num) = op.request num := by
  cases op with
  | ping => rfl
  | keyed o => exact request_isWellFormed hop.1.ex hop.2

/-- What a node reads in the line of a call is its command. -/
theorem parse_called (hop : op.Admissible num) {text : JsString}
    (htext : op.request num = text ++ newline)
    (hparse : parseCommand num (dropCr text) = .ok command) :
    command = .ping ∨ ∃ o, op = .keyed o ∧ command = o.command := by
  cases op with
  | ping =>
    left
    have hping : parseCommand num (dropCr (js "PING")) = .ok .ping :=
      parseCommand_unwords (line_singleton (by decide))
    have hsame : js "PING" = text := List.append_cancel_right htext
    rw [← hsame] at hparse
    exact Except.ok.inj (hparse.symm.trans hping)
  | keyed o =>
    right
    have hsame : unwords (o.words num) = text :=
      List.append_cancel_right ((request_eq o).symm.trans htext)
    rw [← hsame, dropCr_unwords (words_line hop.1)] at hparse
    by_cases hpos : o.Positive
    · exact ⟨o, rfl, Except.ok.inj (hparse.symm.trans (parse_words hop.1 hpos))⟩
    · cases o with
      | keyed name key => exact absurd trivial hpos
      | set cmd =>
        obtain ⟨n, hn, hle⟩ : ∃ n, cmd.ex = some n ∧ n ≤ 0 := by
          simpa [ClientOp.Positive] using hpos
        have hrefused : parseCommand num (unwords (ClientOp.words num (.set cmd))) = .error _ :=
          parse_set_refused hop.1.1 hn hle
        rw [hrefused] at hparse
        cases hparse

/-- A command of a cluster client is that of one of its calls. -/
theorem Wired.called (h : Wired num t cluster limits w) {id : ℕ}
    (hitem : ((w.service i).client (.cluster j)).commands[id]? = some item) :
    ∃ op, (w.calls j i)[id]? = some op ∧ item = ⟨id, op.request num, true⟩ := by
  rw [h.calls, List.getElem?_mapIdx] at hitem
  obtain ⟨op, hop, rfl⟩ := Option.map_eq_some_iff.1 hitem
  exact ⟨op, hop, rfl⟩

/-- A command of the client of an engine is a line that was handed over. -/
theorem Wired.placed (h : Wired num t cluster limits w) {id : ℕ}
    (hitem : ((w.service q).client (.engine p g)).commands[id]? = some item) :
    ∃ x ∈ w.handed, x.server = p ∧ x.engine = g ∧ x.peer = q ∧ x.id = id ∧
      ∃ line, (w.service p).server.sent[x.place]? = some (q, line) ∧
        item.line = trim line ++ newline := by
  obtain ⟨x, hx, rfl, rfl, rfl, rfl⟩ := h.origin q p g id item hitem
  obtain ⟨line, hsent, hcommand⟩ := h.handed x hx
  obtain rfl := Option.some.inj (hitem.symm.trans hcommand)
  exact ⟨x, hx, rfl, rfl, rfl, rfl, line, hsent, rfl⟩

/-- What was handed over is the mutation of a line that was served, as it arrived there. -/
theorem Wired.replicates (h : Wired num t cluster limits w) {line : JsString}
    (hsent : (w.service p).server.sent[k]? = some (q, line)) :
    ∃ c sid k item e, (w.service p).Carries c sid k item e ∧ IsWellFormed e.text ∧
      Replicates num t p e.text (q, line) := by
  obtain ⟨tagged, htagged, -, htraced⟩ := h.traced p
  have hmem := List.mem_of_getElem? hsent
  rw [← htagged] at hmem
  obtain ⟨x, hx, hsend⟩ := List.mem_map.1 hmem
  obtain ⟨e, hentry, hreplicates⟩ := htraced x hx
  rw [hsend] at hreplicates
  obtain ⟨item, hcarries, hbody, -⟩ := (h.linked p).carries hentry
  exact ⟨_, _, _, item, e, hcarries, hbody ▸ item.body_isWellFormed, hreplicates⟩

/-- It arrives at the peer as it is. -/
theorem Wired.arrives (h : Wired num t cluster limits w) {line : JsString}
    (hsent : (w.service p).server.sent[k]? = some (q, line)) :
    toWellFormed (trim line ++ newline) = trim line ++ newline := by
  obtain ⟨-, -, -, -, e, -, hunicode, command, m, hparse, hm, -, -, -, hline⟩ := h.replicates hsent
  have hmade : command.Made num IsWellFormed := unicode_of_parse hunicode.dropCr hparse
  rw [hline]
  exact (replLine_isWellFormed hmade hm).append (by decide)

/-- What a node reads in a line that it serves: the command of a call that goes there, or a
replicated mutation. -/
theorem Wired.read (h : Wired num t cluster limits w) {sid : ℕ}
    (hcarries : (w.service i).Carries c sid k item e)
    (hparse : parseCommand num (dropCr e.text) = .ok command) :
    command = .ping ∨
    (∃ j o, c = .cluster j ∧ (w.calls j i)[item.id]? = some (.keyed o) ∧ command = o.command ∧
      cluster.resolveNodeIndex o.key = .ok i) ∨
    ∃ p g m, c = .engine p g ∧ m.WellFormed num ∧ e.text = replLine num m ∧
      command = .repl m.normal := by
  obtain ⟨hitem, htext⟩ := (h.linked i).command hcarries
  cases c with
  | cluster j =>
    obtain ⟨op, hop, hsame⟩ := h.called hitem
    obtain ⟨hadmissible, hplace⟩ := h.admissible j i op (List.mem_of_getElem? hop)
    have hrequest : op.request num = e.text ++ newline := by
      rw [← htext, hsame, toWellFormed_request hadmissible]
    rcases parse_called hadmissible hrequest hparse with hping | ⟨o, rfl, hcommand⟩
    · exact Or.inl hping
    · exact Or.inr (Or.inl ⟨j, o, rfl, hop, hcommand, hplace o.key rfl⟩)
  | engine p g =>
    obtain ⟨z, -, -, -, -, -, line, hsent, hline⟩ := h.placed hitem
    obtain ⟨-, -, -, -, -, -, -, -, m, -, -, hw, -, -, hm⟩ := h.replicates hsent
    rw [hline, h.arrives hsent] at htext
    have hsame : e.text = replLine num m := hm ▸ (List.append_cancel_right htext).symm
    rw [hsame, dropCr_replLine hw, parse_replLine hw] at hparse
    exact Or.inr (Or.inr ⟨p, g, m, rfl, hw, hsame, (Except.ok.inj hparse).symm⟩)

/-- The line of a mutation on its way to a node other than that of the calls on its key. -/
def Relayed (num : Numerals) (cluster : ClusterClient) (q : ℕ) (text : JsString) : Prop :=
  ∃ m, text = replLine num m ∧ m.WellFormed num ∧ cluster.resolveNodeIndex m.key ≠ .ok q

/-- The key of a call's mutation. -/
theorem key_of_mutation {o : ClientOp} {m : InnerCommand} (h : o.command.mutation = some m) :
    m.key = o.key := by
  cases o with
  | set cmd =>
    cases h
    rfl
  | keyed name key => cases name <;> cases h <;> rfl

/-- What was handed over is the line of a mutation for another node. -/
theorem Wired.relayed (h : Wired num t cluster limits w) {line : JsString}
    (hsent : (w.service p).server.sent[k]? = some (q, line)) :
    Relayed num cluster q (trim line) := by
  obtain ⟨c, sid, k, item, e, hcarries, -, command, m, hparse, hm, hw, -, hapart, hline⟩ :=
    h.replicates hsent
  refine ⟨m, hline, hw, ?_⟩
  rcases h.read hcarries hparse with rfl | ⟨j, o, -, -, rfl, hplace⟩ | ⟨p, g, m, -, -, -, rfl⟩
  · cases hm
  · rw [key_of_mutation hm, hplace]
    exact fun heq => hapart (Except.ok.inj heq).symm
  · cases hm

/-! ### Submitting a command -/

theorem Network.submit_server (w : Network ι) (i : ℕ) (c : Caller ι) (line : JsString) (flag : Bool)
    (i' : ℕ) : ((w.submit i c line flag).service i').server = (w.service i').server := by
  simp only [Network.submit, Function.update_apply]
  split_ifs with hi
  · rw [hi]
  · rfl

theorem Network.submit_commands (w : Network ι) (i : ℕ) (c : Caller ι) (line : JsString)
    (flag : Bool) (i' : ℕ) (c' : Caller ι) :
    (((w.submit i c line flag).service i').client c').commands =
      ((w.service i').client c').commands ++ if i' = i ∧ c' = c then
        [⟨((w.service i).client c).commands.length, line, flag⟩] else [] := by
  simp only [Network.submit, Function.update_apply]
  by_cases hi : i' = i
  · subst hi
    by_cases hc : c' = c
    · subst hc
      simp only [if_true, and_self, Function.update_self]
      exact (CacheClient.commandLine_spec _ line flag).1
    · simp [hc]
  · simp [hi]

theorem Network.submit_links (w : Network ι) (i : ℕ) (c : Caller ι) (line : JsString) (flag : Bool)
    (i' : ℕ) (c' : Caller ι) : (((w.submit i c line flag).service i').client c').links =
      ((w.service i').client c').links := by
  simp only [Network.submit, Function.update_apply]
  by_cases hi : i' = i
  · subst hi
    by_cases hc : c' = c
    · subst hc
      simp only [if_true, Function.update_self]
      exact (CacheClient.commandLine_spec _ line flag).2.2.1
    · simp [hc]
  · simp [hi]

theorem Network.calls_call (w : Network ι) (j : ι) (op : ClusterOp) (i : ℕ) (j' : ι) (i' : ℕ) :
    (w.call num j op i).calls j' i' = w.calls j' i' ++ if i' = i ∧ j' = j then [op] else [] := by
  simp only [Network.call, Function.update_apply]
  by_cases hj : j' = j
  · subst hj
    by_cases hi : i' = i
    · simp [hi]
    · simp [hi]
  · simp [hj]

/-- Nothing is served when a command is submitted. -/
theorem Network.submit_carries (w : Network ι) (i : ℕ) (c : Caller ι) (line : JsString)
    (flag : Bool) {i' : ℕ} {c' : Caller ι} {sid k : ℕ} {item : QueueItem}
    {e : LogEntry (Caller ι × ℕ)} :
    ((w.submit i c line flag).service i').Carries c' sid k item e ↔
      (w.service i').Carries c' sid k item e := by
  constructor
  · rintro ⟨hentry, hrequest⟩
    rw [w.submit_server] at hentry
    rw [w.submit_links] at hrequest
    exact ⟨hentry, hrequest⟩
  · rintro ⟨hentry, hrequest⟩
    refine ⟨?_, ?_⟩
    · rwa [w.submit_server]
    · rwa [w.submit_links]

theorem Wired.submit_linked (h : Wired num t cluster limits w) {body : JsString}
    (hline : .char '\n' ∉ body) (hvisible : trim body ≠ []) (flag : Bool) (i' : ℕ) :
    Linked num (t.startNode limits i') ((w.submit i c (body ++ newline) flag).service i') := by
  simp only [Network.submit, Function.update_apply]
  split_ifs with hi
  · subst hi
    have hown : ClientEvent.Own (.submit body flag) := hvisible
    exact (h.linked i').client hown (.submit _ flag hline)
  · exact h.linked i'

/-- What a call sends is one line that is not blank. -/
theorem request_line (hop : op.Admissible num) : ∃ body, op.request num = body ++ newline ∧
    .char '\n' ∉ body ∧ trim body ≠ [] := by
  have words {ws : List JsString} (hline : Line ws) :
      .char '\n' ∉ unwords ws ∧ trim (unwords ws) ≠ [] := by
    rw [trim_unwords hline]
    exact ⟨newline_notMem_unwords hline, unwords_ne_nil hline⟩
  cases op with
  | ping => exact ⟨js "PING", rfl, by decide, by decide⟩
  | keyed o =>
    obtain ⟨hnew, hvisible⟩ := words (words_line hop.1)
    exact ⟨_, request_eq o, hnew, hvisible⟩

/-- So is what a server hands to its engine. -/
theorem Relayed.line {text : JsString} (h : Relayed num cluster q text) :
    .char '\n' ∉ text ∧ trim text ≠ [] := by
  obtain ⟨m, rfl, hw, -⟩ := h
  refine ⟨newline_notMem_replLine hw, ?_⟩
  rw [replLine_eq hw, trim_unwords (replWords_line hw)]
  exact unwords_ne_nil (replWords_line hw)

theorem Wired.call (h : Wired num t cluster limits w) (hop : op.Admissible num)
    (hi : ∀ key, op.key = some key → cluster.resolveNodeIndex key = .ok i) :
    Wired num t cluster limits (w.call num j op i) := by
  obtain ⟨body, hbody, hline, hvisible⟩ := request_line hop
  have hcommands (i' : ℕ) (c' : Caller ι) : (((w.call num j op i).service i').client c').commands =
      ((w.service i').client c').commands ++ if i' = i ∧ c' = .cluster j then
        [⟨((w.service i).client (.cluster j)).commands.length, op.request num, true⟩] else [] :=
    w.submit_commands i (.cluster j) (op.request num) true i' c'
  refine ⟨fun i' => ?_, fun i' e he => ?_, fun j' i' => ?_, fun j' i' op' hop' => ?_,
    fun p => ?_, fun x hx => ?_, fun q p g id item hitem => ?_, h.places,
    fun i' c sid k item e hcarries => ?_, fun x hx => ?_, h.once⟩
  · show Linked num (t.startNode limits i')
      ((w.submit i (.cluster j) (op.request num) true).service i')
    rw [hbody]
    exact h.submit_linked hline hvisible true i'
  · have he : ((w.submit i (.cluster j) (op.request num) true).service i').server.node.replication =
        some e := he
    rw [w.submit_server] at he
    exact h.configured i' e he
  · rw [hcommands, w.calls_call, h.calls]
    by_cases hij : i' = i ∧ j' = j
    · obtain ⟨rfl, rfl⟩ := hij
      simp [List.mapIdx_append, h.calls]
    · have hne : ¬ (i' = i ∧ (Caller.cluster j' : Caller ι) = .cluster j) := fun hall =>
        hij ⟨hall.1, Caller.cluster.inj hall.2⟩
      rw [if_neg hij, if_neg hne, List.append_nil, List.append_nil]
  · rw [w.calls_call] at hop'
    rcases List.mem_append.1 hop' with hold | hnew
    · exact h.admissible j' i' op' hold
    · split_ifs at hnew with hij
      · rw [List.mem_singleton.1 hnew, hij.1]
        exact ⟨hop, hi⟩
      · exact absurd hnew List.not_mem_nil
  · have hserver := w.submit_server i (.cluster j) (op.request num) true p
    exact hserver.symm ▸ h.traced p
  · obtain ⟨line, hsent, hcommand⟩ := h.handed x hx
    have hserver := w.submit_server i (.cluster j) (op.request num) true x.server
    refine ⟨line, hserver.symm ▸ hsent, ?_⟩
    rw [hcommands, if_neg (by simp), List.append_nil]
    exact hcommand
  · rw [hcommands, if_neg (by simp), List.append_nil] at hitem
    exact h.origin q p g id item hitem
  · exact h.recorded i' c sid k item e ((w.submit_carries i (.cluster j) _ true).1 hcarries)
  · obtain ⟨sid, k, item, e, hcarries, hof⟩ := h.taken x hx
    exact ⟨sid, k, item, e, (w.submit_carries i (.cluster j) _ true).2 hcarries, hof⟩

theorem Wired.fanOut (h : Wired num t cluster limits w) {line : JsString}
    (hsent : (w.service p).server.sent[k]? = some (q, line))
    (hnew : (p, k) ∉ w.handed.map fun x => (x.server, x.place)) :
    Wired num t cluster limits (w.fanOut p g k q line) := by
  have hrelayed := h.relayed hsent
  have hcommands (i' : ℕ) (c' : Caller ι) :
      (((w.fanOut p g k q line).service i').client c').commands =
        ((w.service i').client c').commands ++ if i' = q ∧ c' = .engine p g then
          [⟨((w.service q).client (.engine p g)).commands.length, trim line ++ newline, false⟩]
        else [] :=
    w.submit_commands q (.engine p g) (trim line ++ newline) false i' c'
  refine ⟨fun i' => ?_, fun i' e he => ?_, fun j' i' => ?_, h.admissible, fun p' => ?_,
    fun x hx => ?_, fun q' p' g' id item hitem => ?_, List.nodup_cons.2 ⟨hnew, h.places⟩,
    fun i' c sid k item e hcarries => ?_, fun x hx => ?_, h.once⟩
  · exact h.submit_linked hrelayed.line.1 hrelayed.line.2 false i'
  · have he : ((w.submit q (.engine p g) (trim line ++ newline) false).service
        i').server.node.replication = some e := he
    rw [w.submit_server] at he
    exact h.configured i' e he
  · rw [hcommands, if_neg (by simp), List.append_nil]
    exact h.calls j' i'
  · have hserver := w.submit_server q (.engine p g) (trim line ++ newline) false p'
    exact hserver.symm ▸ h.traced p'
  · have hserver (i' : ℕ) := w.submit_server q (.engine p g) (trim line ++ newline) false i'
    rcases List.mem_cons.1 hx with rfl | hold
    · refine ⟨line, (hserver p).symm ▸ hsent, ?_⟩
      rw [hcommands, if_pos ⟨rfl, rfl⟩, List.getElem?_append_right (le_refl _), Nat.sub_self]
      rfl
    · obtain ⟨line', hsent', hcommand⟩ := h.handed x hold
      refine ⟨line', (hserver x.server).symm ▸ hsent', ?_⟩
      rw [hcommands]
      exact CacheClient.getElem?_of_prefix (List.prefix_append _ _) hcommand
  · rw [hcommands] at hitem
    rcases lt_or_ge id ((w.service q').client (.engine p' g')).commands.length with hlt | hge
    · rw [List.getElem?_append_left hlt] at hitem
      obtain ⟨x, hx, hall⟩ := h.origin q' p' g' id item hitem
      exact ⟨x, List.mem_cons_of_mem _ hx, hall⟩
    · rw [List.getElem?_append_right hge] at hitem
      split_ifs at hitem with hqp
      · obtain ⟨rfl, hsame⟩ := hqp
        cases hsame
        have hid := (List.getElem?_eq_some_iff.1 hitem).1
        rw [List.length_singleton] at hid
        have hlast : ((w.service q').client (.engine p g)).commands.length = id := by omega
        exact ⟨_, List.mem_cons_self, rfl, rfl, rfl, hlast⟩
      · cases hitem
  · exact h.recorded i' c sid k item e ((w.submit_carries q (.engine p g) _ false).1 hcarries)
  · obtain ⟨sid, k, item, e, hcarries, hof⟩ := h.taken x hx
    exact ⟨sid, k, item, e, (w.submit_carries q (.engine p g) _ false).2 hcarries, hof⟩

/-! ### A node takes a step -/

theorem Wired.nodeStep (h : Wired num t cluster limits w) (hev : Network.Allows t i ev)
    (hstep : ServiceStep num t.hashKey (w.service i) ev s') :
    NodeStep num t limits i (w.service i) ev s' := by
  refine DistributedCache.nodeStep (h.linked i) (h.configured i) ?_ ?_ hstep
  · rintro c body flag rfl
    exact hev
  · rintro options rfl
    exact hev

theorem Wired.service (h : Wired num t cluster limits w)
    (hstep : NodeStep num t limits i (w.service i) ev s') :
    Wired num t cluster limits
      { w with
        service := Function.update w.service i s'
        history := (w.service i).taken i s' ev ++ w.history } := by
  have hself : Function.update w.service i s' i = s' := Function.update_self i s' w.service
  have hother {i' : ℕ} (hi : i' ≠ i) : Function.update w.service i s' i' = w.service i' :=
    Function.update_of_ne hi s' w.service
  have hcommands (i' : ℕ) (c : Caller ι) : ((Function.update w.service i s' i').client c).commands =
      ((w.service i').client c).commands := by
    by_cases hi : i' = i
    · rw [hi, hself]
      exact hstep.commands c
    · rw [hother hi]
  have hnode {x : Taken ι} (hx : x ∈ (w.service i).taken i s' ev) : x.node = i := by
    obtain ⟨_, _, item, e, -, hof, -⟩ := hstep.takes.taken x hx
    rw [hof]
    rfl
  have hkept {x : Taken ι} {sid k : ℕ} {item : QueueItem} {e : LogEntry (Caller ι × ℕ)}
      (hcarries : (w.service x.node).Carries x.client sid k item e) :
      (Function.update w.service i s' x.node).Carries x.client sid k item e := by
    by_cases hi : x.node = i
    · rw [hi] at hcarries ⊢
      rw [hself]
      exact hcarries.mono hstep.grows
    · rwa [hother hi]
  refine ⟨fun i' => ?_, fun i' => ?_, fun j i' => ?_, h.admissible, fun p => ?_, fun x hx => ?_,
    fun q p g id item hitem => ?_, h.places, fun i' c sid k item e hcarries => ?_, fun x hx => ?_,
    ?_⟩
  · show Linked num (t.startNode limits i') (Function.update w.service i s' i')
    by_cases hi : i' = i
    · subst hi
      rw [hself]
      exact hstep.linked
    · rw [hother hi]
      exact h.linked i'
  · show Configured t i' (Function.update w.service i s' i').server.node
    by_cases hi : i' = i
    · subst hi
      rw [hself]
      exact hstep.configured
    · rw [hother hi]
      exact h.configured i'
  · rw [hcommands]
    exact h.calls j i'
  · show Traced num t p (Function.update w.service i s' p).server.log
      (Function.update w.service i s' p).server.sent
    by_cases hp : p = i
    · subst hp
      rw [hself]
      exact hstep.traced (h.traced p)
    · rw [hother hp]
      exact h.traced p
  · obtain ⟨line, hsent, hcommand⟩ := h.handed x hx
    refine ⟨line, ?_, ?_⟩
    · show (Function.update w.service i s' x.server).server.sent[x.place]? = _
      by_cases hp : x.server = i
      · rw [hp] at hsent ⊢
        rw [hself]
        exact CacheClient.getElem?_of_prefix hstep.sent hsent
      · rwa [hother hp]
    · rw [hcommands]
      exact hcommand
  · rw [hcommands] at hitem
    exact h.origin q p g id item hitem
  · have hcarries : (Function.update w.service i s' i').Carries c sid k item e := hcarries
    by_cases hi : i' = i
    · subst hi
      rw [hself] at hcarries
      rcases hstep.takes.recorded c sid k item e hcarries with hold | hnew
      · exact List.mem_append_right _ (h.recorded i' c sid k item e hold)
      · exact List.mem_append_left _ hnew
    · rw [hother hi] at hcarries
      exact List.mem_append_right _ (h.recorded i' c sid k item e hcarries)
  · rcases List.mem_append.1 hx with hnew | hold
    · obtain ⟨sid, k, item, e, hcarries, hof, -⟩ := hstep.takes.taken x hnew
      have hi := hnode hnew
      refine ⟨sid, k, item, e, ?_, hi.symm ▸ hof⟩
      show (Function.update w.service i s' x.node).Carries x.client sid k item e
      rw [hi, hself]
      exact hcarries
    · obtain ⟨sid, k, item, e, hcarries, hof⟩ := h.taken x hold
      exact ⟨sid, k, item, e, hkept hcarries, hof⟩
  · rw [List.map_append]
    refine List.nodup_append.2 ⟨hstep.takes.once, h.once, ?_⟩
    rintro a ha b hb rfl
    obtain ⟨x, hx, hkey⟩ := List.mem_map.1 ha
    obtain ⟨y, hy, hsame⟩ := List.mem_map.1 hb
    obtain ⟨hi, hc, hid⟩ := Prod.mk.inj (hsame.trans hkey.symm) |>.imp_right Prod.mk.inj
    -- a command has one line only, and that of `x` was not served before
    obtain ⟨sid, k, item, e, hcarries, hof, hk⟩ := hstep.takes.taken x hx
    obtain ⟨sid', k', item', e', hcarries', hof'⟩ := h.taken y hy
    have hx_id : x.id = item.id := by rw [hof]; rfl
    have hy_id : y.id = item'.id := by rw [hof']; rfl
    rw [hi, hnode hx, hc] at hcarries'
    have hitems : item'.id = item.id := by rw [← hy_id, ← hx_id, hid]
    obtain ⟨rfl, rfl⟩ := written_once (hstep.linked.sound x.client)
      (hcarries'.mono hstep.grows).request hcarries.request hitems
    exact absurd (List.getElem?_eq_some_iff.1 hcarries'.entry).1 (not_lt.2 hk)

/-- **Every step keeps it.** -/
theorem Wired.step {event : NetworkEvent ι} (h : Wired num t cluster limits w)
    (hstep : NetworkStep num t cluster w event w') : Wired num t cluster limits w' := by
  cases hstep with
  | call hop hi => exact h.call hop hi
  | fanOut hsent hnew => exact h.fanOut hsent hnew
  | service hev hservice => exact h.service (h.nodeStep hev hservice)

theorem run_wired {past : List (NetworkEvent ι)} {autoReconnect : Caller ι → Bool}
    {maxReconnectAttempts : Caller ι → ℕ}
    (hrun : (networkSystem num t cluster limits ι autoReconnect maxReconnectAttempts).Run past w) :
    Wired num t cluster limits w :=
  hrun.invariant (P := fun _ w => Wired num t cluster limits w) (wired_start _ _)
    fun _ _ _ _ _ h hstep => h.step hstep

end DistributedCache
