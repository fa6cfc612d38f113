import DistributedCache.Node.Refusal
import DistributedCache.Protocol.Answers

/-!
# Every reply can be read

Whatever a node executes, it answers (`executeCommand_reply`, `executeRepl_reply`,
`serveLine_reply`). The messages of all errors are tidy (`tidy_parse`, `exec_tidy`), so a property
of replies has to be shown only for the few kinds of them (`Replies`): every reply is one line
(`replies_framed`), and if the store was filled only through lines, it is the encoding of a response
that `parseResponse` reads back (`replies_answer`, `Filled.answer`).
-/

namespace DistributedCache

open CacheStore

variable {num : Numerals} {s s' : CacheStore} {c c' : Clock} {node : CacheNode} {key : JsString}
  {command : Command} {m : InnerCommand} {served : Served}

/-! ### Messages of the parser -/

/-- A message of the parser: fixed, or a word of the line between quotes after a fixed text. -/
def Quoting (ws : List JsString) (message : JsString) : Prop :=
  Tidy message ∧ IsWellFormed message ∨ ∃ text, ∃ word ∈ ws, text.any isLineBreak = false ∧
    IsWellFormed text ∧ message = text ++ word ++ js "'"

theorem quoting_assertToken {token label message : JsString} {ws : List JsString}
    (hlabel : label.any isLineBreak = false ∧ IsWellFormed label)
    (h : assertToken token label = .error message) : Quoting ws message := by
  unfold assertToken at h
  split_ifs at h
  cases h
  exact Or.inl ⟨Tidy.append hlabel.1 (by decide), hlabel.2.append (by decide)⟩

theorem quoting_parseSeconds {text message : JsString} {ws : List JsString}
    (h : parseSeconds num text = .error message) : Quoting ws message := by
  unfold parseSeconds at h
  split at h
  · split_ifs at h
    cases h
    exact Or.inl (by decide)
  · cases h
    exact Or.inl (by decide)

theorem quoting_parseSet {parts ws : List JsString} {message : JsString}
    (h : parseSet num parts = .error message) : Quoting ws message := by
  have keyed {token : JsString} (h : assertToken token (js "key") = .error message) :
      Quoting ws message := quoting_assertToken (by decide) h
  have valued {token : JsString} (h : assertToken token (js "value") = .error message) :
      Quoting ws message := quoting_assertToken (by decide) h
  have arguments (h : Except.error (α := SetCommand) (js "wrong number of arguments for SET") =
      .error message) : Quoting ws message := by
    cases h
    exact Or.inl (by decide)
  unfold parseSet at h
  split at h
  · rcases bind_eq_error_iff.1 h with h | ⟨_, -, h⟩
    · exact keyed h
    · cases h
  · rcases bind_eq_error_iff.1 h with h | ⟨_, -, h⟩
    · exact keyed h
    · rcases bind_eq_error_iff.1 h with h | ⟨_, -, h⟩
      · exact valued h
      · cases h
  · split_ifs at h
    · rcases bind_eq_error_iff.1 h with h | ⟨_, -, h⟩
      · exact keyed h
      · rcases bind_eq_error_iff.1 h with h | ⟨_, -, h⟩
        · exact quoting_parseSeconds h
        · cases h
    · exact arguments h
  · split_ifs at h
    · rcases bind_eq_error_iff.1 h with h | ⟨_, -, h⟩
      · exact keyed h
      · rcases bind_eq_error_iff.1 h with h | ⟨_, -, h⟩
        · exact valued h
        · rcases bind_eq_error_iff.1 h with h | ⟨_, -, h⟩
          · exact quoting_parseSeconds h
          · cases h
    · exact arguments h
  · exact arguments h

theorem quoting_parseReplDel {innerName message : JsString} {make : JsString → InnerCommand}
    {rest ws : List JsString} (hname : innerName = js "DEL" ∨ innerName = js "DELETE")
    (h : parseReplDel innerName make rest = .error message) : Quoting ws message := by
  unfold parseReplDel at h
  split at h
  · rcases bind_eq_error_iff.1 h with h | ⟨_, -, h⟩
    · exact quoting_assertToken (by decide) h
    · cases h
  · cases h
    rcases hname with rfl | rfl <;> exact Or.inl (by decide)

theorem quoting_parseRepl {parts : List JsString} {message : JsString}
    (h : parseRepl num parts = .error message) : Quoting parts message := by
  unfold parseRepl at h
  split at h
  · rename_i first inner rest
    simp only at h
    split_ifs at h with hset hdel hdelete
    · exact quoting_parseSet (map_eq_error_iff.1 h)
    · exact quoting_parseReplDel (Or.inl hdel) h
    · exact quoting_parseReplDel (Or.inr hdelete) h
    · cases h
      exact Or.inr ⟨_, inner, by simp, by decide, by decide, rfl⟩
  · cases h
    exact Or.inl (by decide)

theorem quoting_parseParts {parts : List JsString} {message : JsString} (hne : parts ≠ [])
    (h : parseParts num parts = .error message) : Quoting parts message := by
  have hfirst : parts.headD [] ∈ parts := by
    cases parts with
    | nil => exact absurd rfl hne
    | cons w ws => exact List.mem_cons_self
  unfold parseParts at h
  simp only at h
  by_cases hping : toUpperCase (parts.headD []) = js "PING"
  · rw [if_pos hping] at h
    split_ifs at h
    cases h
    exact Or.inl (by decide)
  · rw [if_neg hping] at h
    cases hname : KeyedName.ofText (toUpperCase (parts.headD [])) with
    | some name =>
      rw [hname] at h
      simp only [parseKeyed] at h
      split at h
      · rcases bind_eq_error_iff.1 h with h | ⟨_, -, h⟩
        · exact quoting_assertToken (by decide) h
        · cases h
      · cases h
        cases name <;> exact Or.inl (by decide)
    | none =>
      rw [hname] at h
      simp only at h
      split_ifs at h
      · exact quoting_parseSet (map_eq_error_iff.1 h)
      · exact quoting_parseRepl (map_eq_error_iff.1 h)
      · cases h
        exact Or.inr ⟨_, _, hfirst, by decide, by decide, rfl⟩

theorem quoting_parse {line message : JsString} (h : parseCommand num line = .error message) :
    Quoting (splitSpaces (trim line)) message := by
  unfold parseCommand at h
  simp only at h
  split_ifs at h
  · cases h
    exact Or.inl (by decide)
  · cases h
    exact Or.inl (by decide)
  · exact quoting_parseParts (splitSpaces_ne_nil _) h

/-- **Every message of the parser is tidy.** -/
theorem tidy_parse {line message : JsString} (h : parseCommand num line = .error message) :
    Tidy message := by
  rcases quoting_parse h with ⟨htidy, -⟩ | ⟨text, word, hword, htext, -, rfl⟩
  · exact htidy
  · refine Tidy.append ?_ (by decide)
    rw [List.any_append, htext,
      any_isLineBreak_of_dark fun c hc => (mem_of_mem_splitSpaces hword hc).2]
    rfl

/-- The messages about a well-formed line are well formed. -/
theorem isWellFormed_parse {line message : JsString} (hline : IsWellFormed line)
    (h : parseCommand num line = .error message) : IsWellFormed message := by
  rcases quoting_parse h with ⟨-, hmessage⟩ | ⟨text, word, hword, -, htext, rfl⟩
  · exact hmessage
  · exact (htext.append (hline.trim.word hword)).append (by decide)

/-! ### Messages of the store -/

theorem any_isLineBreak_decimal (n : ℕ) : (decimal n).any isLineBreak = false :=
  any_isLineBreak_of_dark fun c hc => ((decimal_isToken n).2 c hc).1

theorem tidy_decimal (n : ℕ) : Tidy (decimal n) := by
  obtain ⟨hne, hdark⟩ := decimal_isToken n
  refine ⟨any_isLineBreak_decimal n, ?_⟩
  rw [List.getLast?_eq_some_getLast hne]
  simp [(hdark _ (List.getLast_mem hne)).1]

/-- The message of a size limit. -/
theorem tidy_limit {text : JsString} (htext : text.any isLineBreak = false) (limit bytes : ℕ) :
    Tidy (text ++ decimal limit ++ js " UTF-8 bytes (got " ++ decimal bytes ++ js ")") := by
  refine Tidy.append ?_ (by decide)
  have hgot : (js " UTF-8 bytes (got ").any isLineBreak = false := by decide
  simp only [List.any_append, htext, hgot, any_isLineBreak_decimal, Bool.or_self]

theorem tidy_assertValidKey {v : JsValue} {e : CacheError} (h : assertValidKey v = .error e) :
    Tidy e.message := by
  unfold assertValidKey at h
  split at h
  · split_ifs at h
    · cases h
      decide
    · cases h
      exact tidy_limit (by decide) _ _
  · cases h
    decide

theorem tidy_assertValidValue {v : JsValue} {e : CacheError} (h : assertValidValue v = .error e) :
    Tidy e.message := by
  unfold assertValidValue at h
  split at h
  · split_ifs at h
    cases h
    exact tidy_limit (by decide) _ _
  · cases h
    decide

theorem tidy_assertValidEx {v : JsValue} {e : CacheError} (h : assertValidEx v = .error e) :
    Tidy e.message := by
  unfold assertValidEx at h
  split at h
  · split_ifs at h
    · cases h
      decide
    · split at h
      · split_ifs at h
        cases h
        decide
      · cases h
        decide
  · cases h
    decide

theorem tidy_plainObject {v : JsValue} {e : CacheError} (h : plainObject v = .error e) :
    Tidy e.message := by
  unfold plainObject at h
  split at h
  · cases h
  · cases h
  · cases h
    decide

theorem tidy_check {call : Call} {e : CacheError} (h : call.check = .error e) :
    Tidy e.message := by
  cases call with
  | set key value options =>
    rcases bind_eq_error_iff.1 (map_eq_error_iff.1 h) with h | ⟨_, -, h⟩
    · exact tidy_assertValidKey h
    · rcases bind_eq_error_iff.1 h with h | ⟨_, -, h⟩
      · exact tidy_assertValidValue h
      · rcases bind_eq_error_iff.1 h with h | ⟨_, -, h⟩
        · exact tidy_plainObject h
        · split_ifs at h
          · cases h
          · rcases bind_eq_error_iff.1 h with h | ⟨_, -, h⟩
            · exact tidy_assertValidEx h
            · cases h
  | get key | delete key | existsKey key | ttl key => exact tidy_assertValidKey (map_eq_error_iff.1 h)
  | purgeExpired options =>
    rcases bind_eq_error_iff.1 (map_eq_error_iff.1 h) with h | ⟨_, -, h⟩
    · exact tidy_plainObject h
    · split at h
      · cases h
      · cases h
      · cases h
      · split_ifs at h
        · cases h
          decide
        · cases h
      · cases h
        decide

/-- **Every message of the store is tidy.** -/
theorem exec_tidy (hs : Inv s) {call : Call} {e : CacheError}
    (h : s.exec c call = some (.error e, s', c')) : Tidy e.message := by
  rcases exec_cases hs h with ⟨e', hcheck, he, -⟩ | ⟨op, -, heff⟩
  · cases he
    exact tidy_check hcheck
  · cases heff with
    | tooLarge _ =>
      have hsize : (js "key+value size ").any isLineBreak = false := by decide
      have hlimit : (js " exceeds maxMemoryBytes ").any isLineBreak = false := by decide
      refine Tidy.append ?_ (tidy_decimal _)
      simp only [List.any_append, hsize, hlimit, any_isLineBreak_decimal, Bool.or_self]

/-! ### Replies to commands -/

/-- The text of a response has the property, or the encoder refuses it with a tidy message. -/
def Encoded (P : JsString → Prop) (encoded : Except JsString JsString) : Prop :=
  (∃ text, encoded = .ok text ∧ P text) ∨ ∃ message, encoded = .error message ∧ Tidy message

/-- **A call of the store is answered** if its error messages are tidy and its results can be
encoded, or are refused by the encoder with a tidy message. -/
theorem respond_spec {P : JsString → Prop} (hP : ∀ message, Tidy message → P (encodeErr message))
    {α : Type} {o : Outcome α} {f : α → Reply} {encode : α → Except JsString JsString}
    {r : Except CacheError Reply} (h : Outcome.map f o = some (r, s', c'))
    (herror : ∀ e, r = .error e → Tidy e.message)
    (hok : ∀ a, r = .ok (f a) → Encoded P (encode a)) :
    ∃ reply, respond o encode = some (reply, s', c') ∧ P reply := by
  obtain ⟨a, rfl, hr⟩ := of_outcome_map h
  cases a with
  | error e => exact ⟨_, rfl, hP _ (herror e hr.symm)⟩
  | ok a =>
    simp only [respond]
    rcases hok a hr.symm with ⟨text, hencode, htext⟩ | ⟨message, hencode, htidy⟩
    · rw [hencode]
      exact ⟨text, rfl, htext⟩
    · rw [hencode]
      exact ⟨_, rfl, hP _ htidy⟩

/-- What `get` returns is a stored value. -/
theorem exec_get_value (hs : Inv s) {v : JsString}
    (h : s.exec c (.get (.string key)) = some (.ok (.value (some v)), s', c')) :
    ∃ k e, s.store.get? k = some e ∧ e.value = v := by
  rcases exec_cases hs h with ⟨e, -, he, -⟩ | ⟨op, hcheck, heff⟩
  · cases he
  · obtain ⟨k, -, rfl⟩ := map_eq_ok_iff.1 hcheck
    cases heff with
    | hit hlive => exact ⟨_, _, hlive.1, rfl⟩

/-- What `ttl` returns is an integer or `Infinity`. -/
theorem exec_ttl_number (hs : Inv s) {x : JsNumber}
    (h : s.exec c (.ttl (.string key)) = some (.ok (.seconds x), s', c')) :
    (∃ n, x = .int n ∧ IsDouble n) ∨ x = .infinity := by
  rcases exec_cases hs h with ⟨e, -, he, -⟩ | ⟨op, hcheck, heff⟩
  · cases he
  · obtain ⟨k, -, rfl⟩ := map_eq_ok_iff.1 hcheck
    cases heff with
    | timed _ => exact remaining_cases _ _
    | notTimed _ => exact Or.inl ⟨_, rfl, isDouble_of_natAbs_le (by decide)⟩

/-- The property holds of all replies of a node with this store. -/
structure Replies (num : Numerals) (s : CacheStore) (P : JsString → Prop) : Prop where
  ok : P encodeOk
  pong : P encodePong
  nil : P encodeNil
  int : ∀ n, num.IsNumber n → Encoded P (encodeInt num (.int n))
  err : ∀ message, Tidy message → P (encodeErr message)
  str : ∀ k e, s.store.get? k = some e → Encoded P (encodeStr e.value)

/-- Every reply is one line. -/
theorem replies_framed (num : Numerals) (s : CacheStore) : Replies num s Framed where
  ok := (answer_ok : Answer num .ok encodeOk).framed
  pong := (answer_pong : Answer num .pong encodePong).framed
  nil := (answer_nil : Answer num .nil encodeNil).framed
  int n h := by
    obtain ⟨text, htext, hanswer⟩ := answer_int h
    exact Or.inl ⟨text, htext, hanswer.framed⟩
  err message _ := framed_encodeErr message
  str k e _ := by
    unfold encodeStr
    split_ifs with hbreak
    · exact Or.inr ⟨_, rfl, by decide⟩
    · refine Or.inl ⟨_, rfl, js "STR " ++ e.value, rfl, fun hmem => ?_⟩
      rcases List.mem_append.1 hmem with hmem | hmem
      · exact absurd hmem (by decide)
      · exact newline_notMem_of_any (Bool.eq_false_iff.2 hbreak) hmem

/-- The values of the store contain no white space. -/
def DarkValues (s : CacheStore) : Prop := ∀ k e, s.store.get? k = some e → Dark e.value

/-- If no stored value contains white space, every reply can be read. -/
theorem replies_answer (hdark : DarkValues s) :
    Replies num s fun reply => ∃ response, Answer num response reply where
  ok := ⟨_, answer_ok⟩
  pong := ⟨_, answer_pong⟩
  nil := ⟨_, answer_nil⟩
  int n h := by
    obtain ⟨text, htext, hanswer⟩ := answer_int h
    exact Or.inl ⟨text, htext, _, hanswer⟩
  err message h := ⟨_, answer_err h⟩
  str k e he := by
    obtain ⟨text, htext, hanswer⟩ := answer_str (hdark k e he)
    exact Or.inl ⟨text, htext, _, hanswer⟩

section

variable {P : JsString → Prop}

theorem Replies.flag (h : Replies num s P) (b : Bool) :
    Encoded P (encodeInt num (.int (if b then 1 else 0))) :=
  h.int _ (num.isNumber_of_natAbs (by cases b <;> decide))

/-- What `encodeInt` makes of the seconds left. -/
theorem Replies.seconds (h : Replies num s P) {x : JsNumber}
    (hx : (∃ n, x = .int n ∧ IsDouble n) ∨ x = .infinity) : Encoded P (encodeInt num x) := by
  rcases hx with ⟨n, rfl, hn⟩ | rfl
  · exact h.int n (num.isNumber_of_isDouble n hn)
  · exact Or.inr ⟨_, rfl, by decide⟩

theorem storeSet_reply (hs : Inv s) (h : Replies num s P) (c : Clock) (cmd : SetCommand) :
    ∃ reply s' c', storeSet s c cmd = some (reply, s', c') ∧ P reply := by
  obtain ⟨r, s', c', hexec, -⟩ := exec_returns hs c (InnerCommand.set cmd).call
  obtain ⟨reply, hrun, hreply⟩ := respond_spec h.err hexec
    (fun e he => exec_tidy hs (he ▸ hexec)) fun a _ => Or.inl ⟨_, rfl, h.ok⟩
  exact ⟨reply, s', c', hrun, hreply⟩

theorem storeDelete_reply (hs : Inv s) (h : Replies num s P) (c : Clock) (key : JsString) :
    ∃ reply s' c', storeDelete num s c key = some (reply, s', c') ∧ P reply := by
  obtain ⟨r, s', c', hexec, -⟩ := exec_returns hs c (.delete (.string key))
  obtain ⟨reply, hrun, hreply⟩ := respond_spec h.err hexec
    (fun e he => exec_tidy hs (he ▸ hexec)) fun b _ => h.flag b
  exact ⟨reply, s', c', hrun, hreply⟩

theorem executeKeyed_reply (hs : Inv s) (h : Replies num s P) (c : Clock) (name : KeyedName)
    (key : JsString) :
    ∃ reply s' c', executeKeyed num s c name key = some (reply, s', c') ∧ P reply := by
  cases name with
  | get =>
    obtain ⟨r, s', c', hexec, -⟩ := exec_returns hs c (.get (.string key))
    obtain ⟨reply, hrun, hreply⟩ :
        ∃ reply, executeKeyed num s c .get key = some (reply, s', c') ∧ P reply := by
      refine respond_spec h.err hexec (fun e he => exec_tidy hs (he ▸ hexec)) fun value hvalue => ?_
      cases value with
      | none => exact Or.inl ⟨_, rfl, h.nil⟩
      | some v =>
        obtain ⟨k, e, he, rfl⟩ := exec_get_value hs (hvalue ▸ hexec)
        exact h.str k e he
    exact ⟨reply, s', c', hrun, hreply⟩
  | del | delete => exact storeDelete_reply hs h c key
  | existsKey =>
    obtain ⟨r, s', c', hexec, -⟩ := exec_returns hs c (.existsKey (.string key))
    obtain ⟨reply, hrun, hreply⟩ := respond_spec h.err hexec
      (fun e he => exec_tidy hs (he ▸ hexec)) fun b _ => h.flag b
    exact ⟨reply, s', c', hrun, hreply⟩
  | ttl =>
    obtain ⟨r, s', c', hexec, -⟩ := exec_returns hs c (.ttl (.string key))
    obtain ⟨reply, hrun, hreply⟩ := respond_spec h.err hexec
      (fun e he => exec_tidy hs (he ▸ hexec))
      fun x hx => h.seconds (exec_ttl_number hs (hx ▸ hexec))
    exact ⟨reply, s', c', hrun, hreply⟩

/-- **Every command is answered.** -/
theorem executeCommand_reply (hs : Inv s) (h : Replies num s P) (c : Clock) (command : Command) :
    ∃ reply s' c', executeCommand num s c command = some (reply, s', c') ∧ P reply := by
  cases command with
  | ping => exact ⟨_, s, c, rfl, h.pong⟩
  | set cmd => exact storeSet_reply hs h c cmd
  | keyed name key => exact executeKeyed_reply hs h c name key
  | repl inner => exact ⟨_, s, c, rfl, h.err _ (by decide)⟩

theorem executeRepl_reply (hs : Inv s) (h : Replies num s P) (c : Clock) (m : InnerCommand) :
    ∃ reply s' c', executeReplCommand num s c m = some (reply, s', c') ∧ P reply := by
  cases m with
  | set cmd => exact storeSet_reply hs h c cmd
  | del key | delete key => exact storeDelete_reply hs h c key

theorem dispatchCommand_reply (hs : Inv node.store) (h : Replies num node.store P) (c : Clock)
    (command : Command) :
    ∃ served reply, dispatchCommand num node c command = some served ∧
      served.reply = some reply ∧ P reply := by
  cases command with
  | repl inner =>
    obtain ⟨reply, s', c', hrun, hreply⟩ := executeRepl_reply hs h c inner
    exact ⟨_, reply, congrArg (Option.map _) hrun, rfl, hreply⟩
  | ping => exact ⟨_, _, rfl, rfl, h.pong⟩
  | set cmd | keyed name key =>
    obtain ⟨reply, s', c', hrun, hreply⟩ := executeCommand_reply hs h c _
    exact ⟨_, reply, congrArg (Option.map _) hrun, rfl, hreply⟩

/-! ### Lines -/

/-- The line as it reaches `parseCommand`, unless it is too long or blank. -/
def executedLine (maxLineBytes : ℕ) (text : JsString) : Option JsString :=
  let line := dropCr text
  if byteLength line > maxLineBytes then none else if trim line = [] then none else some line

/-- **Serving a line.** It returns; a line that is too long is answered with an error, a blank one
not at all, and neither changes the node; any other is executed and answered. -/
theorem serveLine_reply (hs : Inv node.store) (h : Replies num node.store P) (c : Clock)
    (text : JsString) :
    ∃ served, serveLine num node c text = some served ∧ Inv served.node.store ∧
      served.node.maxLineBytes = node.maxLineBytes ∧
      (served.reply = none ↔
        byteLength (dropCr text) ≤ node.maxLineBytes ∧ trim (dropCr text) = []) ∧
      (∀ reply, served.reply = some reply → P reply) ∧
      (executedLine node.maxLineBytes text = none → served.node = node ∧ served.sends = []) ∧
      ∀ line, executedLine node.maxLineBytes text = some line → served.reply ≠ none := by
  unfold serveLine executedLine
  simp only
  by_cases hlong : byteLength (dropCr text) > node.maxLineBytes
  · simp only [if_pos hlong]
    refine ⟨_, rfl, hs, rfl, ?_, ?_, fun _ => ⟨rfl, rfl⟩, fun line hline => nomatch hline⟩
    · exact iff_of_false (fun h => nomatch h) fun h => absurd h.1 (by omega)
    · rintro reply ⟨⟩
      exact h.err _ (by decide)
  · simp only [if_neg hlong]
    by_cases hblank : trim (dropCr text) = []
    · simp only [if_pos hblank]
      exact ⟨_, rfl, hs, rfl, iff_of_true rfl ⟨by omega, hblank⟩,
        fun reply hreply => (nomatch hreply), fun _ => ⟨rfl, rfl⟩, fun line hline => nomatch hline⟩
    · simp only [if_neg hblank]
      -- a line that is not blank gets its one reply, whatever comes of it
      have answered (served : Served) (reply : JsString) (hreply : served.reply = some reply)
          (hP : P reply) :
          (served.reply = none ↔
            byteLength (dropCr text) ≤ node.maxLineBytes ∧ trim (dropCr text) = []) ∧
          ∀ reply, served.reply = some reply → P reply := by
        rw [hreply]
        refine ⟨iff_of_false (fun h => nomatch h) fun h => hblank h.2, ?_⟩
        rintro reply' ⟨⟩
        exact hP
      cases hparse : parseCommand num (dropCr text) with
      | error message =>
        obtain ⟨hnone, hreplies⟩ :=
          answered ⟨some (encodeErr message), node, [], c⟩ _ rfl (h.err _ (tidy_parse hparse))
        exact ⟨_, rfl, hs, rfl, hnone, hreplies, fun hline => (nomatch hline),
          fun line _ h => nomatch h⟩
      | ok command =>
        obtain ⟨served, reply, hserve, hreply, hP⟩ := dispatchCommand_reply hs h c command
        obtain ⟨hnone, hreplies⟩ := answered served reply hreply hP
        obtain ⟨hinv, hkept, -⟩ := serve_entries (c := c) hs
          (by rw [serveLine_of_parse (by omega) hparse]; exact hserve)
        exact ⟨served, hserve, hinv, hkept.limit, hnone, hreplies, fun hline => (nomatch hline),
          fun line _ h => by rw [hreply] at h; cases h⟩

end

/-! ### Stores that were filled through lines -/

/-- A node whose store was empty at first and has since been changed only by served lines. -/
inductive Filled (num : Numerals) : CacheNode → Prop
  | started (maxEntries maxMemoryBytes : Option ℕ+) (replication : Option ReplicationEngine)
      (maxLineBytes : ℕ) :
      Filled num ⟨CacheStore.new maxEntries maxMemoryBytes, replication, maxLineBytes⟩
  | served {node : CacheNode} {c : Clock} {text : JsString} {served : Served}
      (h : Filled num node) (hserve : serveLine num node c text = some served) :
      Filled num served.node

theorem Filled.spec (h : Filled num node) : Inv node.store ∧ DarkValues node.store := by
  induction h with
  | started maxEntries maxMemoryBytes =>
    exact ⟨inv_new maxEntries maxMemoryBytes, fun k e he => nomatch he⟩
  | served h hserve ih =>
    obtain ⟨hinv, -, hentries⟩ := serve_entries ih.1 hserve
    refine ⟨hinv, fun k e he => ?_⟩
    rcases hentries k e he with hold | ⟨cmd, -, hvalue, hparse | hparse⟩
    · exact ih.2 k e hold
    · have hw : cmd.WellFormed num := wellFormed_of_parse hparse
      exact hvalue ▸ hw.value
    · have hw : cmd.WellFormed num := wellFormed_of_parse hparse
      exact hvalue ▸ hw.value

/-- **Every reply of such a node can be read.** -/
theorem Filled.answer (h : Filled num node) {text reply : JsString}
    (hserve : serveLine num node c text = some served) (hreply : served.reply = some reply) :
    ∃ response, Answer num response reply := by
  obtain ⟨hinv, hdark⟩ := h.spec
  obtain ⟨served', hserve', -, -, -, hreplies, -⟩ :=
    serveLine_reply hinv (replies_answer hdark) c text
  cases hserve.symm.trans hserve'
  exact hreplies reply hreply

end DistributedCache
