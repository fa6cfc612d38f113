import DistributedCache.Node.Connection
import DistributedCache.Node.WireLines
import DistributedCache.Protocol.Inline

/-!
# One operation over one connection

A method of the client writes its key and value into the request line as they are, and the node takes
the line apart at white space. So a key or a value can leave its place: at a newline, by white space
at its ends, or when the words of a `SET` happen to fall on an `EX`; and the socket does not carry a
surrogate that is not part of a pair (`exchange_unfaithful`). The protocol asks for keys and values
without spaces and newlines; these arrive as they were sent if they are well formed, and so do some
others, or they fail (`exchange_faithful`).
-/

namespace DistributedCache

open CacheStore

/-- The node has executed exactly one command, the one of the operation, and answered it. -/
def ExecutedOnce (num : Numerals) (node : CacheNode) (clocks : Stream' Clock) (op : ClientOp)
    (handled : Handled) : Prop :=
  ∃ line reply served, handled.executed = [(line, reply)] ∧
    parseCommand num line = .ok op.command ∧
    dispatchCommand num node clocks.head op.command = some served ∧
    served.reply = some reply ∧ handled.node = served.node ∧ handled.sends = served.sends ∧
    handled.writes = [reply]

/-- The node is as it was, and the method fails on the one reply. -/
def FailedUnchanged (num : Numerals) (node : CacheNode) (op : ClientOp) (handled : Handled) : Prop :=
  handled.node = node ∧ handled.sends = [] ∧
    ∃ reply e, handled.writes = [reply] ∧ op.result num (toWellFormed reply) = .error e

/-- Keys and values that stay in their places or fail. White space inside of them is harmless where
it leads to too many words, none of which is taken for the option `EX`. -/
def ClientOp.Sendable (num : Numerals) : ClientOp → Prop
  | .set cmd => cmd.key ≠ [] ∧ Inline cmd.key ∧ Inline cmd.value ∧
      (∀ n, cmd.ex = some n → 0 < n ∧ num.IsNumber n) ∧
      (Solid cmd.key ∧ Solid cmd.value ∨ cmd.value ≠ [] ∧
        ∀ w ∈ splitSpaces cmd.key ++ splitSpaces cmd.value, toUpperCase w ≠ js "EX")
  | .keyed _ key => key ≠ [] ∧ Inline key

variable {num : Numerals} {node : CacheNode} {op : ClientOp} {ws : List JsString}
  {chunks : List JsString} {cmd : SetCommand}

/-! ### The request line -/

/-- The words of the request stay in their line. -/
theorem inline_words (h : op.Sendable num) : ∀ w ∈ op.words num, Inline w ∧ w ≠ [] := by
  have token {w : JsString} (hw : IsToken w) : Inline w ∧ w ≠ [] := ⟨hw.solid.inline, hw.1⟩
  intro w hw
  cases op with
  | keyed name key =>
    rcases List.mem_cons.1 hw with rfl | hw
    · exact token (isToken_keyedName name)
    · rw [List.mem_singleton.1 hw]
      exact ⟨h.2, h.1⟩
  | set cmd =>
    obtain ⟨hne, hkey, hvalue, hex, -⟩ := h
    rcases List.mem_cons.1 hw with rfl | hw
    · exact token (by decide)
    rcases List.mem_cons.1 hw with rfl | hw
    · exact ⟨hkey, hne⟩
    rcases List.mem_append.1 hw with hw | hw
    · split_ifs at hw with hv
      · cases hw
      · rw [List.mem_singleton.1 hw]
        exact ⟨hvalue, hv⟩
    · cases hn : cmd.ex with
      | none =>
        rw [hn] at hw
        cases hw
      | some n =>
        rw [hn] at hw
        rcases List.mem_cons.1 hw with rfl | hw
        · exact token (by decide)
        · rw [List.mem_singleton.1 hw]
          exact token (num.toText_isToken n (hex n hn).2)

theorem words_ne_nil (op : ClientOp) : op.words num ≠ [] := by
  cases op <;> exact List.cons_ne_nil _ _

theorem unwords_inline_ne_nil (hne : ws ≠ []) (h : ∀ w ∈ ws, Inline w ∧ w ≠ []) :
    unwords ws ≠ [] := by
  intro hnil
  obtain ⟨w, rest, rfl⟩ := List.exists_cons_of_ne_nil hne
  have hw := (h w List.mem_cons_self).2
  cases rest with
  | nil => exact hw hnil
  | cons v vs => exact absurd hnil (List.append_ne_nil_of_left_ne_nil hw _)

/-- A line of inline texts is parsed by its words, unless it contains NUL. -/
theorem parseCommand_inline (hne : ws ≠ []) (h : ∀ w ∈ ws, Inline w ∧ w ≠ [])
    (hnul : nul ∉ unwords ws) :
    parseCommand num (unwords ws) = parseParts num (ws.flatMap splitSpaces) := by
  simp only [parseCommand, (inline_unwords h).trim_eq, if_neg (unwords_inline_ne_nil hne h),
    if_neg hnul, splitSpaces_unwords_inline hne h]

theorem nul_notMem_of_unwords {w : JsString} (hw : w ∈ ws) (hnul : nul ∉ unwords ws) : nul ∉ w := by
  induction ws with
  | nil => cases hw
  | cons v vs ih =>
    cases vs with
    | nil =>
      rw [List.mem_singleton.1 hw]
      exact hnul
    | cons u us =>
      rw [unwords_cons (List.cons_ne_nil u us), List.mem_append, List.mem_cons, not_or, not_or]
        at hnul
      rcases List.mem_cons.1 hw with rfl | hw
      · exact hnul.1
      · exact ih hw hnul.2.2

theorem dark_of_solid {s : JsString} (h : Solid s) (hnul : nul ∉ s) : Dark s :=
  fun c hc => ⟨h c hc, fun heq => hnul (heq ▸ hc)⟩

/-- A `SET` of too many words, none of which is `EX`, is refused. -/
theorem parseSet_refused (first : JsString) (hlen : 3 ≤ ws.length)
    (hex : ws.length ≤ 4 → ∀ w ∈ ws, toUpperCase w ≠ js "EX") :
    ∃ message, parseSet num (first :: ws) = .error message := by
  unfold parseSet
  split
  · rename_i hparts
    cases hparts
    exact absurd hlen (by simp)
  · rename_i hparts
    cases hparts
    exact absurd hlen (by simp)
  · rename_i key option seconds hparts
    cases hparts
    rw [if_neg (hex (by simp) option (by simp))]
    exact ⟨_, rfl⟩
  · rename_i key value option seconds hparts
    cases hparts
    rw [if_neg (hex (by simp) option (by simp))]
    exact ⟨_, rfl⟩
  · exact ⟨_, rfl⟩

/-- The words of a `SET` with white space in its key or value. -/
theorem parse_set_spaced (h : ClientOp.Sendable num (.set cmd))
    (hspace : ¬ (Solid cmd.key ∧ Solid cmd.value))
    (hnul : nul ∉ unwords (ClientOp.words num (.set cmd))) :
    ∃ message, parseCommand num (unwords (ClientOp.words num (.set cmd))) = .error message := by
  obtain ⟨hvalue, hwords⟩ := h.2.2.2.2.resolve_left hspace
  have hset : splitSpaces (js "SET") = [js "SET"] := by decide
  have hEX : splitSpaces (js "EX") = [js "EX"] := by decide
  have hkeyLen := List.length_pos_of_ne_nil (splitSpaces_ne_nil cmd.key)
  have hvalueLen := List.length_pos_of_ne_nil (splitSpaces_ne_nil cmd.value)
  -- a space in the key or in the value makes one word more than the two of them
  have hmany : 3 ≤ (splitSpaces cmd.key).length + (splitSpaces cmd.value).length := by
    by_cases hkey : Solid cmd.key
    · have := two_le_length_splitSpaces fun hv => hspace ⟨hkey, hv⟩
      omega
    · have := two_le_length_splitSpaces hkey
      omega
  have refused (more : List JsString) (hmore : more = [] ∨ 2 ≤ more.length) :
      ∃ message, parseParts num (js "SET" :: (splitSpaces cmd.key ++ splitSpaces cmd.value ++ more)) =
        .error message := by
    have hlen : 3 ≤ (splitSpaces cmd.key ++ splitSpaces cmd.value ++ more).length := by
      simp only [List.length_append]
      omega
    obtain ⟨message, hparse⟩ := parseSet_refused (js "SET") hlen fun hle w hw => by
      rcases hmore with rfl | hmore
      · rw [List.append_nil] at hw
        exact hwords w hw
      · simp only [List.length_append] at hle
        omega
    exact ⟨message, by rw [parseParts_set, hparse]; rfl⟩
  rw [parseCommand_inline (words_ne_nil _) (inline_words h) hnul]
  simp only [ClientOp.words, setWords, if_neg hvalue, List.flatMap_cons, hset,
    List.singleton_append]
  cases hn : cmd.ex with
  | none =>
    obtain ⟨message, hparse⟩ := refused [] (Or.inl rfl)
    exact ⟨message, by simpa using hparse⟩
  | some n =>
    have htext := (num.toText_isToken n (h.2.2.2.1 n hn).2).solid
    obtain ⟨message, hparse⟩ := refused [js "EX", num.toText n] (Or.inr le_rfl)
    exact ⟨message, by simpa [hEX, splitSpaces_solid htext] using hparse⟩

theorem parse_keyed_spaced {name : KeyedName} {key : JsString}
    (h : ClientOp.Sendable num (.keyed name key)) (hspace : ¬ Solid key)
    (hnul : nul ∉ unwords (ClientOp.words num (.keyed name key))) :
    ∃ message, parseCommand num (unwords (ClientOp.words num (.keyed name key))) =
      .error message := by
  have hlen := two_le_length_splitSpaces hspace
  have hparts : [name.text, key].flatMap splitSpaces = name.text :: splitSpaces key := by
    simp only [List.flatMap_cons, List.flatMap_nil, List.append_nil,
      splitSpaces_solid (isToken_keyedName name).solid, List.singleton_append]
  rw [parseCommand_inline (words_ne_nil _) (inline_words h) hnul, ClientOp.words, hparts,
    parseParts_keyed]
  unfold parseKeyed
  split
  · rename_i hone
    rw [(List.cons.inj hone).2] at hlen
    exact absurd hlen (by simp)
  · exact ⟨_, rfl⟩

/-- **The line of a sendable operation is parsed as the operation, or refused.** -/
theorem parse_request (h : op.Sendable num) :
    parseCommand num (unwords (op.words num)) = .ok op.command ∨
      ∃ message, parseCommand num (unwords (op.words num)) = .error message := by
  by_cases hnul : nul ∈ unwords (op.words num)
  · have htrim := (inline_unwords (inline_words h)).trim_eq
    have hne : unwords (op.words num) ≠ [] := List.ne_nil_of_mem hnul
    exact Or.inr ⟨js "command contains NUL", by simp only [parseCommand, htrim, if_neg hne, if_pos hnul]⟩
  · cases op with
    | keyed name key =>
      by_cases hsolid : Solid key
      · have hdark := dark_of_solid hsolid (nul_notMem_of_unwords (w := key)
          (by simp [ClientOp.words]) hnul)
        exact Or.inl (parse_keyed name ⟨h.1, hdark⟩)
      · exact Or.inr (parse_keyed_spaced h hsolid hnul)
    | set cmd =>
      by_cases hsolid : Solid cmd.key ∧ Solid cmd.value
      · have hkey := dark_of_solid hsolid.1 (nul_notMem_of_unwords (w := cmd.key)
          (by simp [ClientOp.words, setWords]) hnul)
        have hvalue : Dark cmd.value := by
          by_cases hv : cmd.value = []
          · rw [hv]
            exact fun _ hc => absurd hc List.not_mem_nil
          · exact dark_of_solid hsolid.2 (nul_notMem_of_unwords (w := cmd.value)
              (by simp [ClientOp.words, setWords, hv]) hnul)
        exact Or.inl (parse_set ⟨⟨h.1, hkey⟩, hvalue, h.2.2.2.1⟩)
      · exact Or.inr (parse_set_spaced h hsolid hnul)

/-! ### The exchange -/

theorem eq_nil_of_takeLines {s : JsString} (h : takeLines s = ([], [])) : s = [] := by
  cases s with
  | nil => rfl
  | cons c s =>
    rw [takeLines] at h
    split_ifs at h
    · cases congrArg Prod.fst h
    · cases hlines : (takeLines s).1 with
      | nil =>
        rw [hlines] at h
        cases congrArg Prod.snd h
      | cons line lines =>
        rw [hlines] at h
        cases congrArg Prod.fst h

/-- A method fails on an error as it arrives. -/
theorem result_wellFormed_err (message : JsString) :
    ∃ e, op.result num (toWellFormed (encodeErr message)) = .error e :=
  result_of_head rfl

theorem ClientOp.Sendable.ex (h : op.Sendable num) (n : ℤ) (hn : op.ex = some n) :
    num.IsNumber n := by
  cases op with
  | set cmd => exact (h.2.2.2.1 n hn).2
  | keyed name key => cases hn

/-- **What the node does with the line of a sendable operation.** -/
theorem serveLine_request (h : Inv node.store) (hop : op.Sendable num) (c : Clock) :
    ∃ served reply, serveLine num node c (unwords (op.words num)) = some served ∧
      served.reply = some reply ∧
      (executedLine node.maxLineBytes (unwords (op.words num)) = some (unwords (op.words num)) ∧
          parseCommand num (unwords (op.words num)) = .ok op.command ∧
          dispatchCommand num node c op.command = some served ∨
        served.node = node ∧ served.sends = [] ∧
          ∃ e, op.result num (toWellFormed reply) = .error e) := by
  have hline := inline_unwords (inline_words hop)
  have hne := unwords_inline_ne_nil (words_ne_nil op) (inline_words hop)
  by_cases hlong : byteLength (unwords (op.words num)) > node.maxLineBytes
  · refine ⟨_, _, by rw [serveLine, hline.dropCr_eq]; exact if_pos hlong, rfl,
      Or.inr ⟨rfl, rfl, result_wellFormed_err _⟩⟩
  · rcases parse_request hop with hparse | ⟨message, hparse⟩
    · obtain ⟨served, reply, hserve, hreply, -⟩ :=
        dispatchCommand_reply h (replies_framed num node.store) c op.command
      refine ⟨served, reply, ?_, hreply, Or.inl ⟨?_, hparse, hserve⟩⟩
      · rw [serveLine_of_parse (by rw [hline.dropCr_eq]; omega) (by rw [hline.dropCr_eq, hparse])]
        exact hserve
      · simp only [executedLine, hline.dropCr_eq, hline.trim_eq, if_neg hlong, if_neg hne]
    · refine ⟨⟨some (encodeErr message), node, [], c⟩, _, ?_, rfl,
        Or.inr ⟨rfl, rfl, result_wellFormed_err message⟩⟩
      simp only [serveLine, hline.dropCr_eq, hline.trim_eq, if_neg hlong, if_neg hne, hparse]

/-- **The request of a sendable operation** whose key and value are well formed. However the request
is cut into chunks, the node either executes exactly one command, the one with the key, the value
and the expiry of the operation, or it is as before, and the method of the client fails. -/
theorem exchange_faithful (h : Inv node.store) (hop : op.Sendable num) (hunicode : op.Unicode)
    (clocks : Stream' Clock) (hchunks : chunks.flatten = toWellFormed (op.request num)) :
    ∃ handled, Connection.new.feed num node clocks chunks = some handled ∧
      (ExecutedOnce num node clocks op handled ∨ FailedUnchanged num node op handled) := by
  have hcut : takeLines chunks.flatten = ([unwords (op.words num)], []) := by
    rw [hchunks, request_isWellFormed hop.ex hunicode, request_eq]
    exact takeLines_line (inline_unwords (inline_words hop)).newline
  obtain ⟨handled, hfeed, done, rest, batch, hsplit, hbatch, hnode, hexecuted, hsends, hopen,
    hgave⟩ := feed_served h (rfl : Connection.new.ended = false) List.not_mem_nil clocks chunks
  replace hsplit : (takeLines chunks.flatten).1 = done ++ rest := hsplit
  rw [hcut] at hsplit
  refine ⟨handled, hfeed, ?_⟩
  cases done with
  | nil =>
    -- the connection was given up before the newline came
    cases hbatch
    have hended : handled.connection.ended = true := by
      by_contra hopened
      obtain ⟨rfl, -, -⟩ := hopen (Bool.eq_false_iff.2 hopened)
      cases hsplit
    exact Or.inr ⟨hnode, hsends, _, _, (hgave hended).2.2,
      (result_wellFormed_err _).choose_spec⟩
  | cons text done =>
    obtain ⟨rfl, hmore⟩ := List.cons.inj hsplit
    obtain ⟨rfl, rfl⟩ := List.append_eq_nil_iff.1 hmore.symm
    -- with the only line served nothing is left that could be too long
    have hopened : handled.connection.ended = false := by
      by_contra hended
      obtain ⟨hlines, hlarge, -⟩ := hgave (Bool.eq_true_of_not_eq_false hended)
      have hrest : (takeLines chunks.flatten).2 = [] := by rw [hcut]
      have hnil : handled.connection.buffer = [] :=
        eq_nil_of_takeLines (hlines.trans (Prod.ext rfl hrest))
      rw [hnil] at hlarge
      exact absurd hlarge (Nat.not_lt_zero _)
    obtain ⟨-, -, hwrites⟩ := hopen hopened
    obtain ⟨served, reply, hserve, hreply, hdone⟩ := serveLine_request h hop clocks.head
    simp only [serveLines, hserve, Option.map_some, Option.some.injEq] at hbatch
    subst hbatch
    rw [Batch.cons, hreply] at hwrites
    rcases hdone with ⟨hline, hparse, hdispatch⟩ | ⟨hkept, hnone, e, he⟩
    · refine Or.inl ⟨_, reply, served, ?_, hparse, hdispatch, hreply, hnode, ?_, hwrites⟩
      · rw [hexecuted, Batch.cons, hline, hreply]
        rfl
      · exact hsends.trans (List.append_nil _)
    · refine Or.inr ⟨hnode.trans hkept, ?_, reply, e, hwrites, he⟩
      rw [hsends, Batch.cons, hnone]
      rfl

/-- A value with a space in it, in chunks: the node refuses the line. -/
theorem exchange_faithful_example : ∃ handled,
    Connection.new.feed decimalNumerals ⟨CacheStore.new none none, none, 40⟩
        (Stream'.const (Stream'.const 0)) [js "SET k on", js "e two three\n"] = some handled ∧
      FailedUnchanged decimalNumerals ⟨CacheStore.new none none, none, 40⟩
        (.set ⟨js "k", js "one two three", none⟩) handled := by
  have hop : ClientOp.Sendable decimalNumerals (.set ⟨js "k", js "one two three", none⟩) :=
    ⟨by decide, ⟨by decide, by decide, by decide⟩, ⟨by decide, by decide, by decide⟩,
      fun n hn => (nomatch hn), Or.inr ⟨by decide, by decide⟩⟩
  have hchunks : [js "SET k on", js "e two three\n"].flatten = toWellFormed
      (ClientOp.request decimalNumerals (.set ⟨js "k", js "one two three", none⟩)) := by
    decide
  have hinv : Inv (⟨CacheStore.new none none, none, 40⟩ : CacheNode).store := inv_new none none
  obtain ⟨handled, hfeed, ⟨line, reply, served, hexec, hparse, -⟩ | hfailed⟩ :=
    exchange_faithful hinv hop ⟨by decide, by decide⟩ (Stream'.const (Stream'.const 0)) hchunks
  · cases hfeed
    cases hexec
    exact absurd hparse (by decide)
  · exact ⟨handled, hfeed, hfailed⟩

/-- A store accepts the operation, but a new node takes its request for something else. -/
def Mistaken (op : ClientOp) : Prop :=
  op.call.check = .ok op.op ∧ ∃ handled,
    Connection.new.feed decimalNumerals ⟨CacheStore.new none none, none, DEFAULT_MAX_LINE_BYTES⟩
        (Stream'.const (Stream'.const 0)) [toWellFormed (op.request decimalNumerals)] =
          some handled ∧
      ¬ ExecutedOnce decimalNumerals ⟨CacheStore.new none none, none, DEFAULT_MAX_LINE_BYTES⟩
        (Stream'.const (Stream'.const 0)) op handled ∧
      ¬ FailedUnchanged decimalNumerals ⟨CacheStore.new none none, none, DEFAULT_MAX_LINE_BYTES⟩
        op handled

/-- A value becomes an expiry, a key loses its space, a value ends in a second command, a key
becomes a key and a value, and a surrogate becomes U+FFFD. -/
theorem exchange_unfaithful :
    Mistaken (.set ⟨js "k", js "EX 5", none⟩) ∧ Mistaken (.keyed .get (js "a ")) ∧
      Mistaken (.set ⟨js "k", js "1\nDEL x", none⟩) ∧ Mistaken (.set ⟨js "a b", [], none⟩) ∧
      Mistaken (.keyed .get [.surrogate 0]) := by
  refine ⟨?_, ?_, ?_, ?_, ?_⟩
  · refine ⟨by decide, _, rfl, ?_, ?_⟩
    · rintro ⟨line, reply, served, hexec, hparse, -⟩
      cases hexec
      exact absurd hparse (by decide)
    · rintro ⟨-, -, reply, e, hwrites, he⟩
      cases hwrites
      cases he
  · refine ⟨by decide, _, rfl, ?_, ?_⟩
    · rintro ⟨line, reply, served, hexec, hparse, -⟩
      cases hexec
      exact absurd hparse (by decide)
    · rintro ⟨-, -, reply, e, hwrites, he⟩
      cases hwrites
      cases he
  · refine ⟨by decide, _, rfl, ?_, ?_⟩
    · rintro ⟨line, reply, served, hexec, -⟩
      cases hexec
    · rintro ⟨-, -, reply, e, hwrites, -⟩
      cases hwrites
  · refine ⟨by decide, _, rfl, ?_, ?_⟩
    · rintro ⟨line, reply, served, hexec, hparse, -⟩
      cases hexec
      exact absurd hparse (by decide)
    · rintro ⟨-, -, reply, e, hwrites, he⟩
      cases hwrites
      cases he
  · refine ⟨by decide, _, rfl, ?_, ?_⟩
    · rintro ⟨line, reply, served, hexec, hparse, -⟩
      cases hexec
      exact absurd hparse (by decide)
    · rintro ⟨-, -, reply, e, hwrites, he⟩
      cases hwrites
      cases he

end DistributedCache
