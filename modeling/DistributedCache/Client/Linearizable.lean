import DistributedCache.Client.Service

/-!
# Commands take effect in one order

`Linked` is what the two sides of every connection know of each other. Every step keeps it, and
with what is known of a client (`CacheClient.Sound`) and of a server (`Serial`) it gives
`commands_linearizable`: the commands of all clients take effect one after the other, in an order
that agrees with the order in which they were submitted and settled.
-/

namespace DistributedCache

open CacheStore

variable {ι : Type} [DecidableEq ι] {num : Numerals} {hashKey : JsString → ℕ} {node : CacheNode}
  {s s' : Service ι} {i : ι} {sid : ℕ} {c c' : CacheClient} {ev : ClientEvent}
  {server : CacheServer (ι × ℕ)}

/-! ### The client's side -/

/-- What a step of its own changes in the logs of a client. -/
structure OwnStep (c c' : CacheClient) : Prop where
  commands : ∀ item ∈ c'.commands, item ∈ c.commands ∨ item.Proper
  requests : ∀ sid, (c.links sid).requests <+: (c'.links sid).requests
  answers : ∀ sid, (c'.links sid).answers = (c.links sid).answers

theorem own_step (hs : CacheClient.Sound num c) (hown : ev.Own) (hstep : ClientStep num c ev c') :
    OwnStep c c' := by
  by_cases hev : ev.Internal
  · have heffect := CacheClient.step_effect hstep hev hs.control hs.plugged hs.talk
    exact ⟨fun item hitem => Or.inl (heffect.commands ▸ hitem), heffect.requests, heffect.answers⟩
  · cases hstep with
    | submit throwOnServerErr hline =>
      rename_i body
      obtain ⟨hcommands, -, hlinks, -⟩ := c.commandLine_spec (body ++ newline) throwOnServerErr
      refine ⟨fun item hitem => ?_, fun sid => ?_, fun sid => by rw [hlinks]⟩
      · rw [hcommands] at hitem
        rcases List.mem_append.1 hitem with hitem | hitem
        · exact Or.inl hitem
        · rw [List.mem_singleton.1 hitem]
          exact Or.inr (QueueItem.proper_mk _ _ hline hown)
      · rw [hlinks]
    | answer _ _ => exact absurd hown id
    | _ => exact absurd trivial hev

omit [DecidableEq ι] in
theorem requestText_mono {requests requests' : List QueueItem} (h : requests <+: requests') :
    requestText requests <+: requestText requests' := by
  obtain ⟨more, rfl⟩ := h
  rw [requestText, requestText, List.map_append, List.flatten_append]
  exact List.prefix_append _ _

omit [DecidableEq ι] in
theorem receive_nil (c : CacheClient) (sid : ℕ) : c.receive sid [] = c := by
  simp only [CacheClient.receive, CacheClient.setLink, List.map_nil, List.flatten_nil,
    List.append_nil, Function.update_eq_self]

/-- Lines that are on their way to a client are answers to requests that it has written. -/
theorem sound_receive (hs : CacheClient.Sound num c) {lines : List JsString}
    (hframed : ∀ line ∈ lines, Framed line)
    (hcount : (c.links sid).answers.length + lines.length ≤ (c.links sid).requests.length) :
    CacheClient.Sound num (c.receive sid lines) := by
  induction lines generalizing c with
  | nil =>
    rw [receive_nil]
    exact hs
  | cons line lines ih =>
    obtain ⟨hline, hbody⟩ := (hframed line List.mem_cons_self).dropLast
    simp only [List.length_cons] at hcount
    have hstep : ClientStep num c (.answer sid line.dropLast) (c.receive sid [line]) := by
      have hanswer : ClientStep num c _ _ := .answer c hbody
        (by omega : (c.links sid).answers.length < (c.links sid).requests.length)
      rw [← hline] at hanswer
      simpa only [CacheClient.receive, List.map_cons, List.map_nil, List.flatten_cons,
        List.flatten_nil, List.append_nil] using hanswer
    have hrest := ih (hs.step hstep) (fun line' hmem => hframed line' (List.mem_cons_of_mem _ hmem))
      (by
        simp only [CacheClient.receive, CacheClient.setLink, Function.update_self,
          List.length_append, List.length_map, List.length_cons, List.length_nil]
        omega)
    have hall : (c.receive sid [line]).receive sid lines = c.receive sid (line :: lines) := by
      simp only [CacheClient.receive, CacheClient.setLink, Function.update_self,
        Function.update_idem, List.map_cons, List.map_nil, List.flatten_cons, List.flatten_nil,
        List.append_assoc, List.append_nil, List.cons_append, List.nil_append]
    rw [← hall]
    exact hrest

/-! ### The two sides together -/

/-- What the two sides of every connection know of each other. -/
structure Linked (num : Numerals) (node : CacheNode) (s : Service ι) : Prop where
  sound : ∀ i, CacheClient.Sound num (s.client i)
  serial : Serial num node s.server
  proper : ∀ i, ∀ item ∈ (s.client i).commands, item.Proper
  arrived : ∀ i sid, s.server.heard (i, sid) <+:
    requestText ((s.client i).links sid).requests
  answers : ∀ i sid, ((s.client i).links sid).answers <+:
    (s.server.written (i, sid)).map lineBody
  /-- One line at most is late, and nothing is written after it. -/
  late : ∀ i sid, (s.server.written (i, sid)).length = ((s.client i).links sid).answers.length ∨
    (s.server.written (i, sid)).length = ((s.client i).links sid).answers.length + 1 ∧
      s.server.ended (i, sid) = true
  bounded : ∀ i sid, ((s.client i).links sid).answers.length ≤
    ((s.client i).links sid).requests.length

theorem linked_new (node : CacheNode) (autoReconnect : ι → Bool) (maxReconnectAttempts : ι → ℕ) :
    Linked num node
      ⟨fun i => .new (autoReconnect i) (maxReconnectAttempts i), .new _ node⟩ where
  sound _ := CacheClient.sound_new
  serial := serial_new node
  proper _ _ h := absurd h List.not_mem_nil
  arrived _ _ := List.prefix_refl _
  answers _ _ := List.prefix_refl _
  late _ _ := Or.inl rfl
  bounded _ _ := le_refl _

theorem Linked.requests (h : Linked num node s) :
    ∀ item ∈ ((s.client i).links sid).requests, item.Proper := fun item hitem =>
  h.proper i item (List.mem_of_getElem? ((h.sound i).logged.requests sid item hitem))

/-- As long as a connection has not been ended, nothing is late. -/
theorem Linked.on_time (h : Linked num node s) (hended : s.server.ended (i, sid) = false) :
    (s.server.written (i, sid)).length = ((s.client i).links sid).answers.length := by
  refine (h.late i sid).resolve_right fun hlate => ?_
  rw [hended] at hlate
  cases hlate.2

theorem Linked.client (h : Linked num node s) (hown : ev.Own)
    (hstep : ClientStep num (s.client i) ev c) :
    Linked num node { s with client := Function.update s.client i c } := by
  have hframe := own_step (h.sound i) hown hstep
  refine ⟨fun j => ?_, h.serial, fun j item hitem => ?_, fun j sid => ?_, fun j sid => ?_,
    fun j sid => ?_, fun j sid => ?_⟩
  all_goals by_cases hj : j = i
  · subst hj
    simp only [Function.update_self]
    exact (h.sound j).step hstep
  · simp only [Function.update_of_ne hj]
    exact h.sound j
  · subst hj
    simp only [Function.update_self] at hitem
    rcases hframe.commands item hitem with hold | hnew
    · exact h.proper j item hold
    · exact hnew
  · simp only [Function.update_of_ne hj] at hitem
    exact h.proper j item hitem
  · subst hj
    simp only [Function.update_self]
    exact (h.arrived j sid).trans (requestText_mono (hframe.requests sid))
  · simp only [Function.update_of_ne hj]
    exact h.arrived j sid
  · subst hj
    simp only [Function.update_self, hframe.answers]
    exact h.answers j sid
  · simp only [Function.update_of_ne hj]
    exact h.answers j sid
  · subst hj
    simp only [Function.update_self, hframe.answers]
    exact h.late j sid
  · simp only [Function.update_of_ne hj]
    exact h.late j sid
  · subst hj
    simp only [Function.update_self, hframe.answers]
    exact (h.bounded j sid).trans (hframe.requests sid).length_le
  · simp only [Function.update_of_ne hj]
    exact h.bounded j sid

/-- Lines of the server go to one socket of a client. -/
theorem Linked.deliver (h : Linked num node s) (hserial : Serial num node server)
    (hother : ∀ peer, peer ≠ (i, sid) → server.written peer = s.server.written peer)
    (hended : ∀ peer, s.server.ended peer = true → server.ended peer = true)
    (harrived : ∀ j sid, server.heard (j, sid) <+: requestText ((s.client j).links sid).requests)
    {lines : List JsString} (hframed : ∀ line ∈ lines, Framed line)
    (hlines : ((s.client i).links sid).answers ++ lines.map lineBody <+:
      (server.written (i, sid)).map lineBody)
    (hlate : (server.written (i, sid)).length =
        ((s.client i).links sid).answers.length + lines.length ∨
      (server.written (i, sid)).length =
          ((s.client i).links sid).answers.length + lines.length + 1 ∧
        server.ended (i, sid) = true)
    (hcount : ((s.client i).links sid).answers.length + lines.length ≤
      ((s.client i).links sid).requests.length) :
    Linked num node
      ⟨Function.update s.client i ((s.client i).receive sid (lines.map toWellFormed)), server⟩ := by
  have hbodies : (lines.map toWellFormed).map List.dropLast = lines.map lineBody := List.map_map
  have hlinks (j : ι) (t : ℕ) :
      ((Function.update s.client i ((s.client i).receive sid (lines.map toWellFormed)) j).links
          t).requests = ((s.client j).links t).requests ∧
      ((Function.update s.client i ((s.client i).receive sid (lines.map toWellFormed)) j).links
          t).answers =
        ((s.client j).links t).answers ++ if (j, t) = (i, sid) then lines.map lineBody else [] := by
    by_cases hj : j = i
    · subst hj
      by_cases ht : t = sid
      · subst ht
        simp [CacheClient.receive, CacheClient.setLink, hbodies]
      · simp [CacheClient.receive, CacheClient.setLink, ht]
    · simp [hj]
  refine ⟨fun j => ?_, hserial, fun j item hitem => ?_, fun j t => ?_, fun j t => ?_,
    fun j t => ?_, fun j t => ?_⟩
  · show CacheClient.Sound num (Function.update s.client i _ j)
    by_cases hj : j = i
    · subst hj
      rw [Function.update_self]
      refine sound_receive (h.sound j) (fun line hline => ?_) (by rwa [List.length_map])
      obtain ⟨line', hline', rfl⟩ := List.mem_map.1 hline
      exact (hframed line' hline').toWellFormed
    · rw [Function.update_of_ne hj]
      exact h.sound j
  · by_cases hj : j = i
    · subst hj
      simp only [Function.update_self] at hitem
      exact h.proper j item hitem
    · simp only [Function.update_of_ne hj] at hitem
      exact h.proper j item hitem
  · rw [(hlinks j t).1]
    exact harrived j t
  · rw [(hlinks j t).2]
    show _ <+: (server.written (j, t)).map lineBody
    split_ifs with hjt
    · obtain ⟨rfl, rfl⟩ := Prod.mk.inj hjt
      exact hlines
    · rw [List.append_nil, hother _ hjt]
      exact h.answers j t
  · rw [(hlinks j t).2, List.length_append]
    show (server.written (j, t)).length = _ ∨ (server.written (j, t)).length = _ ∧
      server.ended (j, t) = true
    split_ifs with hjt
    · obtain ⟨rfl, rfl⟩ := Prod.mk.inj hjt
      rw [List.length_map]
      exact hlate
    · rw [hother _ hjt]
      exact (h.late j t).imp_right fun hlate => ⟨hlate.1, hended _ hlate.2⟩
  · rw [(hlinks j t).1, (hlinks j t).2, List.length_append]
    split_ifs with hjt
    · obtain ⟨rfl, rfl⟩ := Prod.mk.inj hjt
      rw [List.length_map]
      exact hcount
    · exact h.bounded j t

/-- The server takes a step that writes lines of the right number on one connection. -/
theorem Linked.respond (h : Linked num node s) (hserial : Serial num node server)
    {ev : ServerEvent (ι × ℕ)} (hstep : ServerStep num hashKey s.server ev server)
    (hev : ev.writesOn = some (i, sid))
    (harrived : ∀ j sid, server.heard (j, sid) <+: requestText ((s.client j).links sid).requests)
    (hframed : ∀ line ∈ server.written (i, sid), Framed line)
    (hcount : s.server.ended (i, sid) = false →
      (server.written (i, sid)).length ≤ ((s.client i).links sid).requests.length) :
    Linked num node (s.respond i sid server) := by
  obtain ⟨lines, hlines, -⟩ := step_written hstep (i, sid)
  have hdrop : (server.written (i, sid)).drop (s.server.written (i, sid)).length = lines := by
    rw [hlines, List.drop_left]
  have hother (peer : ι × ℕ) (hne : peer ≠ (i, sid)) :
      server.written peer = s.server.written peer :=
    written_other hstep fun heq => hne (Option.some.inj (heq.symm.trans hev))
  have hnew : ∀ line ∈ lines, Framed line := fun line hline =>
    hframed line (hlines ▸ List.mem_append_right _ hline)
  rw [Service.respond, hdrop]
  cases hended : s.server.ended (i, sid) with
  | true =>
    -- nothing is written any more
    obtain ⟨hended', hsame⟩ := step_ended hstep hended
    obtain rfl : lines = [] :=
      List.append_cancel_left (hlines.symm.trans (hsame.trans (List.append_nil _).symm))
    refine h.deliver hserial hother (fun peer hended => (step_ended hstep hended).1) harrived hnew
      ?_ ?_ (h.bounded i sid)
    · rw [List.map_nil, List.append_nil, hsame]
      exact h.answers i sid
    · rw [hsame]
      exact (h.late i sid).imp_right fun hlate => ⟨hlate.1, hended'⟩
  | false =>
    have htime := h.on_time hended
    have hlength : (server.written (i, sid)).length =
        ((s.client i).links sid).answers.length + lines.length := by
      rw [hlines, List.length_append, htime]
    have hall : ((s.client i).links sid).answers = (s.server.written (i, sid)).map lineBody :=
      (h.answers i sid).eq_of_length (by rw [List.length_map, htime])
    refine h.deliver hserial hother (fun peer hended => (step_ended hstep hended).1) harrived hnew
      ?_ (Or.inl hlength) (hlength ▸ hcount hended)
    rw [hall, hlines, List.map_append]

/-- What the server has written goes to a client that waits for an answer. -/
theorem Linked.catchUp (h : Linked num node s)
    (hframed : ∀ line ∈ s.server.written (i, sid), Framed line)
    (howed : ((s.client i).links sid).answers.length < ((s.client i).links sid).requests.length) :
    Linked num node (s.catchUp i sid) := by
  have hlength : ((s.server.written (i, sid)).drop
      ((s.client i).links sid).answers.length).length =
      (s.server.written (i, sid)).length - ((s.client i).links sid).answers.length :=
    List.length_drop
  have hle : ((s.client i).links sid).answers.length ≤ (s.server.written (i, sid)).length := by
    have := (h.answers i sid).length_le
    rwa [List.length_map] at this
  refine h.deliver h.serial (fun _ _ => rfl) (fun _ hended => hended) h.arrived
    (fun line hline => hframed line (List.mem_of_mem_drop hline)) ?_ (Or.inl ?_) ?_
  · rw [List.map_drop, List.prefix_iff_eq_append.1 (h.answers i sid)]
  · omega
  · rcases h.late i sid with hlate | ⟨hlate, -⟩ <;> omega

/-- What a server writes is framed. -/
theorem Serial.framed (h : Serial num node server) (hinv : Inv node.store)
    {peer : ι × ℕ} : ∀ line ∈ server.written peer, Framed line := by
  intro line hline
  cases hsocket : server.socket peer with
  | none =>
    rw [CacheServer.written, hsocket] at hline
    exact absurd hline List.not_mem_nil
  | some socket =>
    rw [written_of_socket hsocket] at hline
    obtain ⟨n, notice, hnotice, hwritten⟩ := (h.accounts peer socket hsocket).written
    rw [hwritten] at hline
    rcases List.mem_append.1 hline with hline | hline
    · obtain ⟨e, he, hreply⟩ := List.mem_filterMap.1 (List.mem_of_mem_take hline)
      have hlog : e ∈ server.log.reverse := List.mem_reverse.2 (List.mem_of_mem_filter he)
      have halone : Inv node.alone.store := hinv
      exact ((run_replies halone h.order).2 e hlog).1 line hreply
    · simp only [notices, List.mem_cons, List.not_mem_nil, or_false] at hnotice
      rcases hnotice with rfl | rfl | rfl
      · exact absurd hline List.not_mem_nil
      · rw [List.mem_singleton.1 hline]
        exact framed_encodeErr _
      · rw [List.mem_singleton.1 hline]
        exact framed_encodeErr _

/-- As long as a socket has not been ended, it has no more answers than complete lines. -/
theorem Accounts.length_written {κ : Type} {limit : ℕ} {entries : List (LogEntry κ)}
    {socket : ServerSocket} (h : Accounts limit entries socket)
    (hended : socket.connection.ended = false) :
    socket.written.length ≤ (takeLines socket.received).1.length := by
  rw [(h.answered hended).2, h.lines, (h.answered hended).1, List.append_nil, List.length_map]
  exact List.length_filterMap_le _ _

/-- The answers to a chunk are no more than the requests. -/
theorem Linked.count_data (h : Linked num node s) {clocks : Stream' Clock} {chunk : JsString}
    (hnext : s.server.heard (i, sid) ++ chunk <+: requestText ((s.client i).links sid).requests)
    (hserial : Serial num node server)
    (hstep : ServerStep num hashKey s.server (.data (i, sid) clocks chunk) server)
    (hended : s.server.ended (i, sid) = false) :
    (server.written (i, sid)).length ≤ ((s.client i).links sid).requests.length := by
  cases hstep with
  | data hsocket hopen clocks chunk hdata =>
    rename_i socket
    have haccounts := h.serial.accounts _ socket hsocket
    replace hended : socket.connection.ended = false := by
      rwa [CacheServer.ended, hsocket] at hended
    obtain ⟨rest, htext⟩ := hnext
    rw [heard_of_socket hsocket] at htext
    have habsorb (entries : List (LogEntry (ι × ℕ))) (writes : Bool) (handled : Handled) :
        (s.server.absorb (i, sid) socket chunk entries writes handled).socket (i, sid) = some
          { connection := handled.connection
            destroyed := socket.connection.ended && writes
            received := socket.received ++ chunk
            written := socket.written ++ handled.writes } := Function.update_self _ _ _
    rcases onData_cases hdata with ⟨hlarge, rfl⟩ | ⟨-, batch, -, rfl⟩
    · rw [written_of_socket (habsorb _ _ _)]
      -- the line that was not finished is not answered yet
      have hbuffer := takeLines_snd_of_fst (haccounts.answered hended).1
      have hmore : (takeLines socket.received).2 ++ (chunk ++ rest) ≠ [] := by
        rw [haccounts.rest, hbuffer, ← List.append_assoc]
        intro hnil
        rw [(List.append_eq_nil_iff.1 hnil).1] at hlarge
        exact absurd hlarge (Nat.not_lt_zero _)
      rw [List.append_assoc] at htext
      have hlt := (lines_of_arrived h.requests htext.symm).2 hmore
      have hle := haccounts.length_written hended
      simp only [hended, Bool.false_eq_true, if_false, List.length_append, List.length_cons,
        List.length_nil]
      omega
    · rw [written_of_socket (habsorb _ _ _)]
      have hle := (hserial.accounts _ _ (habsorb _ _ _)).length_written hended
      have hlines := (lines_of_arrived h.requests htext.symm).1.length_le
      rw [List.length_map] at hlines
      exact hle.trans hlines

/-- **Every step keeps it.** -/
theorem Linked.step (h : Linked num node s) (hinv : Inv node.store)
    {e : ServiceEvent ι} (hstep : ServiceStep num hashKey s e s') : Linked num node s' := by
  cases hstep with
  | client hown hclient => exact h.client hown hclient
  | data hnext hserver =>
    rename_i i sid clocks chunk server
    have hserial := h.serial.step hserver
    refine h.respond hserial hserver rfl (fun j t => ?_) (hserial.framed hinv)
      (h.count_data hnext hserial hserver)
    rw [step_heard hserver]
    by_cases hpeer : (i, sid) = (j, t)
    · obtain ⟨rfl, rfl⟩ := Prod.mk.inj hpeer
      simpa [ServerEvent.chunk] using hnext
    · have hchunk : (ServerEvent.data (i, sid) clocks chunk).chunk (j, t) = none := if_neg hpeer
      rw [hchunk, Option.getD_none, List.append_nil]
      exact h.arrived j t
  | timeout howed hserver =>
    rename_i i sid server
    have hserial := h.serial.step hserver
    refine h.respond hserial hserver rfl (fun j t => ?_) (hserial.framed hinv) fun hended => ?_
    · rw [step_heard hserver]
      exact (List.append_nil _).symm ▸ h.arrived j t
    · rw [(timeout_written hserver).2 hended, List.length_append, h.on_time hended]
      exact howed
  | idle hidle hserver =>
    rename_i i sid server
    have hserial := h.serial.step hserver
    obtain ⟨lines, hlines, -⟩ := step_written hserver (i, sid)
    have hnone : ∀ line ∈ ([] : List JsString), Framed line := fun _ hline =>
      absurd hline List.not_mem_nil
    have hlinked := h.deliver hserial (fun peer hne => ?_)
      (fun peer hended => (step_ended hserver hended).1) (fun j t => ?_) hnone ?_ ?_
      (h.bounded i sid)
    · rwa [List.map_nil, receive_nil, Function.update_eq_self] at hlinked
    · exact written_other hserver fun heq => hne (Option.some.inj heq).symm
    · rw [step_heard hserver]
      exact (List.append_nil _).symm ▸ h.arrived j t
    · rw [List.map_nil, List.append_nil, hlines, List.map_append]
      exact (h.answers i sid).trans (List.prefix_append _ _)
    · obtain ⟨hended', hnotice⟩ := timeout_written hserver
      cases hended : s.server.ended (i, sid) with
      | true =>
        rw [(step_ended hserver hended).2]
        exact (h.late i sid).imp_right fun hlate => ⟨hlate.1, hended'⟩
      | false =>
        rw [hnotice hended, List.length_append, h.on_time hended]
        exact Or.inr ⟨rfl, hended'⟩
  | late howed => exact h.catchUp (h.serial.framed hinv) howed
  | server hev hserver =>
    rename_i ev server
    have hwritten (peer : ι × ℕ) : server.written peer = s.server.written peer :=
      written_other hserver (by simp [hev])
    have hchunk (peer : ι × ℕ) : ev.chunk peer = none := by
      cases ev with
      | data _ _ _ => cases hev
      | _ => rfl
    refine ⟨h.sound, h.serial.step hserver, h.proper, fun j t => ?_, fun j t => ?_, fun j t => ?_,
      h.bounded⟩
    · rw [step_heard hserver, hchunk, Option.getD_none, List.append_nil]
      exact h.arrived j t
    · rw [hwritten]
      exact h.answers j t
    · rw [hwritten]
      exact (h.late j t).imp_right fun hlate => ⟨hlate.1, (step_ended hserver hlate.2).1⟩

/-! ### Lines and commands -/

/-- The `k`-th line served on the connection of a socket, and the `k`-th request written there. -/
structure Service.Carries (s : Service ι) (i : ι) (sid k : ℕ) (item : QueueItem)
    (e : LogEntry (ι × ℕ)) : Prop where
  entry : (s.server.entries (i, sid))[k]? = some e
  request : ((s.client i).links sid).requests[k]? = some item

/-- What is filtered keeps its place where nothing is left out. -/
theorem getElem?_filterMap_of_forall {α β : Type} {f : α → Option β} {l : List α}
    (h : ∀ a ∈ l, f a ≠ none) {k : ℕ} {b : β} (hk : (l.filterMap f)[k]? = some b) :
    ∃ a, l[k]? = some a ∧ f a = some b := by
  induction l generalizing k with
  | nil => cases hk
  | cons a l ih =>
    obtain ⟨b', hb'⟩ := Option.ne_none_iff_exists'.1 (h a List.mem_cons_self)
    rw [List.filterMap_cons_some hb'] at hk
    cases k with
    | zero => exact ⟨a, rfl, hb'.trans hk⟩
    | succ k => exact ih (fun a' hmem => h a' (List.mem_cons_of_mem a hmem)) hk

/-- The lines served on a connection are the first ones that the client has written on it. -/
theorem Linked.entries (h : Linked num node s) (i : ι) (sid : ℕ) :
    (s.server.entries (i, sid)).map LogEntry.text <+:
      ((s.client i).links sid).requests.map QueueItem.body := by
  cases hsocket : s.server.socket (i, sid) with
  | none =>
    rw [h.serial.unknown _ hsocket]
    exact List.nil_prefix
  | some socket =>
    obtain ⟨rest, htext⟩ := h.arrived i sid
    rw [heard_of_socket hsocket] at htext
    refine List.IsPrefix.trans ?_ (lines_of_arrived h.requests htext.symm).1
    rw [(h.serial.accounts _ socket hsocket).lines]
    exact List.prefix_append _ _

/-- Every line served is a request. -/
theorem Linked.carries (h : Linked num node s) {k : ℕ} {e : LogEntry (ι × ℕ)}
    (hentry : (s.server.entries (i, sid))[k]? = some e) :
    ∃ item, s.Carries i sid k item e ∧ item.body = e.text ∧ item.Proper := by
  have htext : ((s.server.entries (i, sid)).map LogEntry.text)[k]? = some e.text := by
    rw [List.getElem?_map, hentry]
    rfl
  have hbody := CacheClient.getElem?_of_prefix (h.entries i sid) htext
  rw [List.getElem?_map] at hbody
  obtain ⟨item, hitem, hsame⟩ := Option.map_eq_some_iff.1 hbody
  exact ⟨item, ⟨hentry, hitem⟩, hsame, h.requests item (List.mem_of_getElem? hitem)⟩

/-- Such a request is a command of its client, and the line is its line. -/
theorem Linked.command (h : Linked num node s) {k : ℕ} {item : QueueItem}
    {e : LogEntry (ι × ℕ)} (hcarries : s.Carries i sid k item e) :
    (s.client i).commands[item.id]? = some item ∧ toWellFormed item.line = e.text ++ newline := by
  obtain ⟨item', hcarries', hbody, hproper⟩ := h.carries hcarries.entry
  obtain rfl : item' = item := Option.some.inj (hcarries'.request.symm.trans hcarries.request)
  exact ⟨(h.sound i).logged.requests sid item' (List.mem_of_getElem? hcarries.request),
    hbody ▸ hproper.line⟩

/-- Every line served is answered. -/
theorem Linked.replied (h : Linked num node s) (hinv : Inv node.store) (i : ι) (sid : ℕ) :
    ∀ e ∈ s.server.entries (i, sid), e.reply ≠ none := by
  intro e he
  obtain ⟨k, hk⟩ := List.mem_iff_getElem?.1 he
  obtain ⟨item, -, hbody, hproper⟩ := h.carries hk
  have hlog : e ∈ s.server.log.reverse := List.mem_reverse.2 (List.mem_of_mem_filter he)
  have halone : Inv node.alone.store := hinv
  exact ((run_replies halone h.serial.order).2 e hlog).2
    (trim_dropCr_ne_nil (hbody ▸ hproper.visible))

/-- An answer that a client gets is a line that the server has written. -/
theorem Linked.answer_written (h : Linked num node s) (hinv : Inv node.store) {k : ℕ}
    {reply : JsString} (hreply : ((s.client i).links sid).answers[k]? = some reply) :
    ∃ line, (s.server.written (i, sid))[k]? = some line ∧
      toWellFormed line = reply ++ newline ∧ .char '\n' ∉ reply := by
  have hbody := CacheClient.getElem?_of_prefix (h.answers i sid) hreply
  rw [List.getElem?_map] at hbody
  obtain ⟨line, hline, rfl⟩ := Option.map_eq_some_iff.1 hbody
  exact ⟨line, hline, (h.serial.framed hinv line (List.mem_of_getElem? hline)).toWellFormed.dropLast⟩

/-- It is the reply to the line in its place, or a notice. -/
theorem Linked.answer (h : Linked num node s) (hinv : Inv node.store) {k : ℕ}
    {reply : JsString} (hreply : ((s.client i).links sid).answers[k]? = some reply) :
    [reply ++ newline] ∈ notices ∨
      ∃ e, (s.server.entries (i, sid))[k]? = some e ∧
        e.reply.map toWellFormed = some (reply ++ newline) := by
  obtain ⟨line, hline, harrives, -⟩ := h.answer_written hinv hreply
  rw [← harrives]
  cases hsocket : s.server.socket (i, sid) with
  | none =>
    rw [CacheServer.written, hsocket] at hline
    cases hline
  | some socket =>
    rw [written_of_socket hsocket] at hline
    obtain ⟨n, notice, hnotice, hwritten⟩ := (h.serial.accounts _ socket hsocket).written
    rw [hwritten] at hline
    rcases lt_or_ge k
      (((s.server.entries (i, sid)).filterMap LogEntry.reply).take n).length with hlt | hge
    · rw [List.getElem?_append_left hlt] at hline
      have hold := CacheClient.getElem?_of_prefix (List.take_prefix _ _) hline
      obtain ⟨e, he, hreply⟩ := getElem?_filterMap_of_forall (h.replied hinv i sid) hold
      exact Or.inr ⟨e, he, congrArg (Option.map toWellFormed) hreply⟩
    · rw [List.getElem?_append_right hge] at hline
      have hmem := List.mem_of_getElem? hline
      left
      simp only [notices, List.mem_cons, List.not_mem_nil, or_false] at hnotice ⊢
      rcases hnotice with rfl | rfl | rfl
      · exact absurd hmem List.not_mem_nil
      · rw [List.mem_singleton.1 hmem]
        exact Or.inr (Or.inl (by decide))
      · rw [List.mem_singleton.1 hmem]
        exact Or.inr (Or.inr (by decide))

/-! ### Runs -/

variable {past later : List (ServiceEvent ι)} {autoReconnect : ι → Bool}
  {maxReconnectAttempts : ι → ℕ}

theorem run_linked (hinv : Inv node.store)
    (hrun : (serviceSystem num hashKey ι node autoReconnect maxReconnectAttempts).Run past s) :
    Linked num node s :=
  hrun.invariant (P := fun _ s => Linked num node s)
    (linked_new node autoReconnect maxReconnectAttempts)
    fun _ _ _ _ _ h hstep => h.step hinv hstep

/-- What was written and served before comes first. -/
structure Extends (s s' : Service ι) : Prop where
  log : s.server.log <+: s'.server.log
  requests : ∀ i sid, ((s.client i).links sid).requests <+: ((s'.client i).links sid).requests

theorem Linked.extends (h : Linked num node s) {e : ServiceEvent ι}
    (hstep : ServiceStep num hashKey s e s') : Extends s s' := by
  have log {ev : ServerEvent (ι × ℕ)} {server : CacheServer (ι × ℕ)}
      (hserver : ServerStep num hashKey s.server ev server) : s.server.log <+: server.log := by
    obtain ⟨more, hmore⟩ := step_log hserver
    exact hmore ▸ List.prefix_append _ _
  have receive {i : ι} {sid : ℕ} (lines : List JsString) (j : ι) (t : ℕ) :
      ((s.client j).links t).requests <+:
        ((Function.update s.client i ((s.client i).receive sid lines) j).links t).requests := by
    simp only [Function.update_apply]
    split_ifs with hj
    · subst hj
      simp only [CacheClient.receive, CacheClient.setLink, Function.update_apply]
      split_ifs with ht
      · subst ht
        exact List.prefix_refl _
      · exact List.prefix_refl _
    · exact List.prefix_refl _
  cases hstep with
  | client hown hclient =>
    rename_i i ev c
    refine ⟨List.prefix_refl _, fun j t => ?_⟩
    by_cases hj : j = i
    · subst hj
      simp only [Function.update_self]
      exact (own_step (h.sound j) hown hclient).requests t
    · simp only [Function.update_of_ne hj]
      exact List.prefix_refl _
  | data hnext hserver => exact ⟨log hserver, receive _⟩
  | timeout howed hserver => exact ⟨log hserver, receive _⟩
  | idle hidle hserver => exact ⟨log hserver, fun _ _ => List.prefix_refl _⟩
  | late howed => exact ⟨List.prefix_refl _, receive _⟩
  | server hev hserver => exact ⟨log hserver, fun _ _ => List.prefix_refl _⟩

theorem trace_extends (hinv : Inv node.store) (h : Linked num node s)
    (htrace : (serviceSystem num hashKey ι node autoReconnect maxReconnectAttempts).Trace s later
      s') : Linked num node s' ∧ Extends s s' := by
  induction htrace with
  | refl => exact ⟨h, List.prefix_refl _, fun _ _ => List.prefix_refl _⟩
  | snoc _ hstep ih =>
    obtain ⟨hlinked, hextends⟩ := ih
    have hnext := hlinked.extends hstep
    exact ⟨hlinked.step hinv hstep, hextends.log.trans hnext.log,
      fun i sid => (hextends.requests i sid).trans (hnext.requests i sid)⟩

/-- The requests on a socket are those of different commands. -/
theorem nodup_requests (h : CacheClient.Sound num c) (sid : ℕ) :
    ((c.links sid).requests.map QueueItem.id).Nodup := by
  have hsorted : c.writes.Pairwise fun w w' => w'.1 < w.1 := h.ordered.started_sorted
  have hnodup : (c.writes.map Prod.fst).Nodup :=
    List.pairwise_map.2 (hsorted.imp fun hlt => hlt.ne')
  have hsent := (h.logged.sent sid).map Prod.fst
  rw [List.map_map, List.map_reverse] at hsent
  exact (List.nodup_reverse.2 hnodup).sublist hsent

/-- A command is written once, on one socket. -/
theorem written_once (h : CacheClient.Sound num c) {sid sid' k k' : ℕ} {item item' : QueueItem}
    (hk : (c.links sid).requests[k]? = some item)
    (hk' : (c.links sid').requests[k']? = some item') (hid : item.id = item'.id) :
    sid = sid' ∧ k = k' := by
  have hsorted : c.writes.Pairwise fun w w' => w'.1 < w.1 := h.ordered.started_sorted
  have hnodup : (c.writes.map Prod.fst).Nodup :=
    List.pairwise_map.2 (hsorted.imp fun hlt => hlt.ne')
  have hmem {sid : ℕ} {item : QueueItem} (hitem : item ∈ (c.links sid).requests) :
      (item.id, sid) ∈ c.writes :=
    List.mem_reverse.1 ((h.logged.sent sid).subset (List.mem_map.2 ⟨item, hitem, rfl⟩))
  have hsame : (item.id, sid) = (item'.id, sid') :=
    List.inj_on_of_nodup_map hnodup (hmem (List.mem_of_getElem? hk))
      (hmem (List.mem_of_getElem? hk')) hid
  obtain ⟨-, rfl⟩ := Prod.mk.inj hsame
  refine ⟨rfl, ?_⟩
  refine (List.getElem?_inj ?_ (nodup_requests h sid)).1 ?_
  · rw [List.length_map]
    exact (List.getElem?_eq_some_iff.1 hk).1
  · rw [List.getElem?_map, List.getElem?_map, hk, hk', Option.map_some, Option.map_some, hid]

omit [DecidableEq ι] in
/-- Later lines do not change the place of the lines of a connection. -/
theorem entries_mono {κ : Type} [DecidableEq κ] {server server' : CacheServer κ}
    (h : server.log <+: server'.log) (peer : κ) : server.entries peer <+: server'.entries peer :=
  h.filter _

/-- **The commands of all clients take effect in one order.** Any number of clients that submit
one-line commands which are not blank, and one server, with chunks arriving at any time, timeouts
whether or not a request is under way, broken connections and restarts; `s` is any moment of a run
and `s'` a later one. A node that serves one line after the other serves the lines of the log, in
its order, with the same replies and the same store. Each of these lines is that of a command of its
client, and no command has more than one line. A command is settled by its client with the reply to
its line, or with a notice that the server has sent instead, or with an error of the client's own;
line and reply as they arrive. And the order agrees with time: a command that was settled with a
reply has its line in the log by then, and the lines of commands submitted later come after all
lines that are in the log by then. -/
theorem commands_linearizable (hinv : Inv node.store)
    (hrun : (serviceSystem num hashKey ι node autoReconnect maxReconnectAttempts).Run past s)
    (htrace : (serviceSystem num hashKey ι node autoReconnect maxReconnectAttempts).Trace s later
      s') :
    (lineSystem num (ι × ℕ) node.alone).Run s'.server.log.reverse s'.server.node.alone ∧
    (∀ i sid k e, (s'.server.entries (i, sid))[k]? = some e → ∃ item, s'.Carries i sid k item e ∧
      (s'.client i).commands[item.id]? = some item ∧ toWellFormed item.line = e.text ++ newline) ∧
    (∀ i sid sid' k k' item e e', s'.Carries i sid k item e → s'.Carries i sid' k' item e' →
      sid = sid' ∧ k = k') ∧
    (∀ i, ∀ x ∈ (s.client i).outcomes, CacheClient.OwnError x ∨ ∃ item reply,
      (s.client i).commands[x.1]? = some item ∧
      x.2 = dispatchResponse num item.throwOnServerErr (dropCr reply) ∧
      ([reply ++ newline] ∈ notices ∨
        ∃ sid k e, s.Carries i sid k item e ∧
          e.reply.map toWellFormed = some (reply ++ newline))) ∧
    s.server.log <+: s'.server.log ∧
    ∀ i sid k item e, s'.Carries i sid k item e → (s.client i).commands.length ≤ item.id →
      (s.server.entries (i, sid)).length ≤ k := by
  have h := run_linked hinv hrun
  obtain ⟨h', hextends⟩ := trace_extends hinv h htrace
  refine ⟨h'.serial.order, fun i sid k e hentry => ?_, fun i sid sid' k k' item e e' hc hc' => ?_,
    fun i x hx => ?_, hextends.log, fun i sid k item e hc hlate => ?_⟩
  · obtain ⟨item, hcarries, -⟩ := h'.carries hentry
    exact ⟨item, hcarries, h'.command hcarries⟩
  · exact written_once (h'.sound i) hc.request hc'.request rfl
  · rcases (h.sound i).logged.outcomes x hx with ⟨sid, k, item, reply, hrequest, hanswer, hid, hx⟩ |
      hown
    · have hcommand := (h.sound i).logged.requests sid item (List.mem_of_getElem? hrequest)
      refine Or.inr ⟨item, reply, hid ▸ hcommand, hx, ?_⟩
      refine (h.answer hinv hanswer).imp_right fun hentry => ?_
      obtain ⟨e, hentry, hreply⟩ := hentry
      exact ⟨sid, k, e, ⟨hentry, hrequest⟩, hreply⟩
    · exact Or.inl hown
  · by_contra hlt
    -- the line was served before, so its command had been submitted
    have hk := not_le.1 hlt
    have hold : ((s.client i).links sid).requests[k]? = some item := by
      obtain ⟨e', he'⟩ : ∃ e', (s.server.entries (i, sid))[k]? = some e' :=
        ⟨_, List.getElem?_eq_getElem hk⟩
      obtain ⟨item', hcarries, -⟩ := h.carries he'
      have hsame := CacheClient.getElem?_of_prefix (hextends.requests i sid) hcarries.request
      rw [hc.request] at hsame
      cases hsame
      exact hcarries.request
    have hcommand := (h.sound i).logged.requests sid item (List.mem_of_getElem? hold)
    exact absurd (List.getElem?_eq_some_iff.1 hcommand).1 (not_lt.2 hlate)

/-- One client sets a key, and once it has been told so another client gets it. -/
theorem commands_linearizable_example : ∃ past s later s',
    (serviceSystem decimalNumerals (fun _ => 0) ℕ ⟨CacheStore.new none none, none, 20⟩
      (fun _ => true) fun _ => 3).Run past s ∧
    (serviceSystem decimalNumerals (fun _ => 0) ℕ ⟨CacheStore.new none none, none, 20⟩
      (fun _ => true) fun _ => 3).Trace s later s' ∧
    (s.client 0).outcomes = [(0, .ok .ok)] ∧
    s'.server.log.map (fun e => (e.peer, e.text, e.reply)) =
      [((0, 0), js "SET a 1", some (js "OK\n")), ((1, 0), js "GET a", some (js "STR 1\n"))] ∧
    (lineSystem decimalNumerals (ℕ × ℕ) ⟨CacheStore.new none none, none, 20⟩).Run
      s'.server.log.reverse s'.server.node.alone := by
  let S := serviceSystem decimalNumerals (fun _ => 0) ℕ ⟨CacheStore.new none none, none, 20⟩
    (fun _ => true) fun _ => 3
  have clocks : Stream' Clock := Stream'.const (Stream'.const 0)
  have h₀ := System.Run.start (S := S)
  have h₁ := h₀.snoc (l := ServiceEvent.client 0 (.submit (js "SET a 1") true))
    (.client _ (by decide : trim (js "SET a 1") ≠ []) (.submit _ _ (by decide)))
  have h₂ := h₁.snoc (l := ServiceEvent.client 0 .connected) (.client _ trivial (.connected _ rfl))
  have h₃ := h₂.snoc (l := ServiceEvent.client 0 .resumeLoop)
    (.client _ trivial (.resumeReturned _ rfl))
  have h₄ := h₃.snoc (l := ServiceEvent.server .listen) (.server _ rfl (.listen _))
  have h₅ := h₄.snoc (l := ServiceEvent.server (.connection (0, 0)))
    (.server _ rfl (.connection _ rfl))
  have h₆ := h₅.snoc (l := ServiceEvent.server (.data (0, 0) clocks (js "SET a 1\n")))
    (.data _ ⟨[], rfl⟩ (.data _ rfl rfl clocks _ rfl))
  have h₇ := h₆.snoc (l := ServiceEvent.client 0 (.data 0 (js "OK\n")))
    (.client _ trivial (.data _ rfl rfl (rfl : _ = js "OK\n" ++ [])))
  have later {past : List (ServiceEvent ℕ)} {s : Service ℕ} (_ : S.Run past s) : S.Trace s [] s :=
    .refl
  have t₁ := (later h₇).snoc (l := ServiceEvent.client 1 (.submit (js "GET a") true))
    (.client _ (by decide : trim (js "GET a") ≠ []) (.submit _ _ (by decide)))
  have t₂ := t₁.snoc (l := ServiceEvent.client 1 .connected) (.client _ trivial (.connected _ rfl))
  have t₃ := t₂.snoc (l := ServiceEvent.client 1 .resumeLoop)
    (.client _ trivial (.resumeReturned _ rfl))
  have t₄ := t₃.snoc (l := ServiceEvent.server (.connection (1, 0)))
    (.server _ rfl (.connection _ rfl))
  have t₅ := t₄.snoc (l := ServiceEvent.server (.data (1, 0) clocks (js "GET a\n")))
    (.data _ ⟨[], rfl⟩ (.data _ rfl rfl clocks _ rfl))
  exact ⟨_, _, _, _, h₇, t₅, rfl, rfl, (commands_linearizable (inv_new none none) h₇ t₅).1⟩

end DistributedCache
