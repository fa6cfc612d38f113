import DistributedCache.Client.Commands
import DistributedCache.Node.Mutation

/-!
# A client's operation on a node

A method of the client becomes a request line, the node executes it on its store, and the response
line becomes the result of the method. On an unlimited store the result is the one that the store
itself gives for the call, as far as a response can carry it (`serve_op`), and a `SET` whose seconds
are not positive changes nothing and fails on both sides (`serve_refused`, `call_refused`).

* `ClientOp.call`, `ClientOp.op`: the operation as a call of a store;
* `ClientOp.Admissible`: keys and values that a line can carry and a store accepts;
* `ClientOp.Unicode`: keys and values that a socket carries as they are;
* `Reply.reported`: a result as a response carries it, which is not at all for `Infinity`.
-/

namespace DistributedCache

open CacheStore

namespace ClientOp

/-- The operation as a call of a store. -/
def call : ClientOp → Call
  | .set cmd => .set (.string cmd.key) (.string cmd.value) (setOptions cmd.ex)
  | .keyed .get key => .get (.string key)
  | .keyed .del key => .delete (.string key)
  | .keyed .delete key => .delete (.string key)
  | .keyed .existsKey key => .existsKey (.string key)
  | .keyed .ttl key => .ttl (.string key)

/-- The call after its checks. -/
def op : ClientOp → Op
  | .set cmd => .set cmd.key cmd.value cmd.ex
  | .keyed .get key => .get key
  | .keyed .del key => .delete key
  | .keyed .delete key => .delete key
  | .keyed .existsKey key => .existsKey key
  | .keyed .ttl key => .ttl key

theorem op_key (o : ClientOp) : o.op.key = some o.key := by
  cases o with
  | set cmd => rfl
  | keyed name key => cases name <;> rfl

/-- Keys are tokens and values are tokens or empty, within the byte limits. -/
def Admissible (num : Numerals) : ClientOp → Prop
  | .set cmd => cmd.Printable num ∧ ValidKey cmd.key ∧ ValidValue cmd.value
  | .keyed _ key => IsToken key ∧ ValidKey key

/-- The seconds of a `SET`, if there are any, are positive. -/
def Positive : ClientOp → Prop
  | .set cmd => ∀ n, cmd.ex = some n → 0 < n
  | .keyed _ _ => True

/-- The key and the value are well-formed strings. -/
def Unicode : ClientOp → Prop
  | .set cmd => IsWellFormed cmd.key ∧ IsWellFormed cmd.value
  | .keyed _ key => IsWellFormed key

/-- `options.ex` of the method, if it is a `SET`. -/
def ex : ClientOp → Option ℤ
  | .set cmd => cmd.ex
  | .keyed _ _ => none

end ClientOp

/-- A result as the response line carries it: the encoder refuses a number that is no integer. -/
def Reply.reported : Reply → Option Reply
  | .seconds (.int n) => some (.seconds (.int n))
  | .seconds _ => none
  | reply => some reply

/-- An entry whose value a line and a socket can carry. -/
structure Carried (e : CacheEntry) : Prop where
  value : Dark e.value
  unicode : IsWellFormed e.value

variable {num : Numerals} {s : CacheStore} {c : Clock} {o : ClientOp} {node : CacheNode}
  {ws : List JsString}

theorem check_call (h : o.Admissible num) (hpos : o.Positive) : o.call.check = .ok o.op := by
  cases o with
  | set cmd => exact check_set_of_accepted h.2.1 h.2.2 hpos
  | keyed name key =>
    have hkey : assertValidKey (.string key) = .ok key := assertValidKey_eq_ok_iff.2 ⟨rfl, h.2⟩
    cases name <;> simp only [ClientOp.call, Call.check, hkey] <;> rfl

/-- A `SET` whose seconds are not positive is rejected by every store. -/
theorem call_refused (h : ¬ o.Positive) (s : CacheStore) (c : Clock) :
    ∃ e, s.exec c o.call = some (.error e, s, c) := by
  cases o with
  | keyed name key => exact absurd trivial h
  | set cmd =>
    cases hcheck : (ClientOp.call (.set cmd)).check with
    | error e => exact ⟨e, exec_of_check_error hcheck⟩
    | ok op =>
      -- the checks would have let only positive seconds through
      obtain ⟨-, -, hopt⟩ := (check_ok_iff _).1 ⟨op, hcheck⟩
      refine absurd (fun n hn => ?_) h
      rw [hn] at hopt
      rcases hopt with hopt | ⟨_, _, heq, hex⟩
      · cases hopt
      · cases heq
        rcases hex with hex | ⟨m, hm, hpos⟩
        · cases hex
        · cases hm
          exact hpos

/-! ### The store's side -/

/-- What the requests and responses below need of the entries of a store. -/
def AllCarried (s : CacheStore) : Prop := ∀ k e, s.store.get? k = some e → Carried e

theorem carried_liveEntry {entry : Option CacheEntry} (h : ∀ e, entry = some e → Carried e)
    {e : CacheEntry} (he : liveEntry c entry = some e) : Carried e := by
  obtain ⟨h', -⟩ := Option.filter_eq_some_iff.1 he
  exact h e h'

/-- The entry that an operation leaves is carried too. -/
theorem carried_entryStep (h : o.Admissible num) (hunicode : o.Unicode)
    {entry : Option CacheEntry} (hentry : ∀ e, entry = some e → Carried e) {e : CacheEntry}
    (he : (entryStep c entry o.op).2 = some e) : Carried e := by
  cases o with
  | set cmd =>
    cases he
    exact ⟨h.1.value, hunicode.2⟩
  | keyed name key =>
    cases name with
    | get | existsKey | ttl => exact carried_liveEntry hentry he
    | del | delete => cases he

/-- The seconds that `ttl` answers are a number or `Infinity`. -/
theorem ttl_answer (entry : Option CacheEntry) (now : ℤ) :
    (∃ n, (entry.map fun e => remaining e now).getD TTL_KEY_MISSING = .int n ∧ IsDouble n) ∨
      (entry.map fun e => remaining e now).getD TTL_KEY_MISSING = .infinity := by
  cases entry with
  | none => exact Or.inl ⟨_, rfl, isDouble_of_natAbs_le (by decide)⟩
  | some e =>
    exact remaining_cases e now

/-! ### The node's side -/

theorem read_value (num : Numerals) (key : JsString) {value : Option JsString}
    (h : ∀ v, value = some v → Dark v ∧ IsWellFormed v) :
    ∃ text, (match value with
        | none => Except.ok encodeNil
        | some v => encodeStr v) = .ok text ∧ IsWellFormed text ∧
      ClientOp.result num (.keyed .get key) text = .ok (.value value) := by
  cases value with
  | none => exact ⟨encodeNil, rfl, by decide, result_of_read read_nil (by simp)⟩
  | some v =>
    obtain ⟨hdark, hunicode⟩ := h v rfl
    obtain ⟨text, htext, hread⟩ := read_str hdark
    exact ⟨text, htext, isWellFormed_encodeStr hunicode htext, result_of_read hread (by simp)⟩

theorem read_flag (num : Numerals) (key : JsString) (b : Bool) :
    ∃ text, encodeInt num (.int (if b then 1 else 0)) = .ok text ∧ IsWellFormed text ∧
      ∀ name : KeyedName, name ≠ .get ∧ name ≠ .ttl →
        ClientOp.result num (.keyed name key) text = .ok (.flag b) := by
  have hnum : num.IsNumber (if b then 1 else 0) :=
    num.isNumber_of_natAbs (by cases b <;> decide)
  obtain ⟨text, htext, hread⟩ := read_int hnum
  refine ⟨text, htext, isWellFormed_encodeInt hnum htext, fun name hname => ?_⟩
  rw [result_of_read hread (by simp)]
  cases name with
  | get => exact absurd rfl hname.1
  | ttl => exact absurd rfl hname.2
  | del | delete | existsKey => cases b <;> rfl

/-- The response to a call that returned a value. -/
theorem respond_ok {α : Type} {out : Outcome α} {encode : α → Except JsString JsString} {a : α}
    {s' : CacheStore} {c' : Clock} {text : JsString} (hout : out = some (.ok a, s', c'))
    (htext : encode a = .ok text) : respond out encode = some (text, s', c') := by
  simp only [respond, hout, htext]

/-- The seconds left are read as they are, and `Infinity` is read as an error. -/
theorem respond_seconds (num : Numerals) (key : JsString) {out : Outcome JsNumber} {x : JsNumber}
    {s' : CacheStore} {c' : Clock} (hout : out = some (.ok x, s', c'))
    (h : (∃ n, x = .int n ∧ IsDouble n) ∨ x = .infinity) :
    ∃ text, respond out (encodeInt num) = some (text, s', c') ∧ IsWellFormed text ∧
      (ClientOp.result num (.keyed .ttl key) text).toOption = (Reply.seconds x).reported := by
  rcases h with ⟨n, rfl, hn⟩ | rfl
  · have hnum := num.isNumber_of_isDouble n hn
    obtain ⟨text, htext, hread⟩ := read_int hnum
    refine ⟨text, respond_ok hout htext, isWellFormed_encodeInt hnum htext, ?_⟩
    rw [result_of_read hread (by simp)]
    rfl
  · have htidy : Tidy (js "INT payload must be an integer") := by decide
    obtain ⟨e, he⟩ : ∃ e, ClientOp.result num (.keyed .ttl key)
        (encodeErr (js "INT payload must be an integer")) = .error e := result_encodeErr htidy
    refine ⟨_, ?_, by decide, congrArg Except.toOption he⟩
    simp only [respond, hout, encodeInt]

/-- A wrapped result that is a value. -/
theorem of_outcome_map_ok {α : Type} {f : α → Reply} {out : Outcome α} {s' : CacheStore}
    {c' : Clock} {reply : Reply} (h : Outcome.map f out = some (.ok reply, s', c')) :
    ∃ a, out = some (.ok a, s', c') ∧ f a = reply := by
  obtain ⟨r, hout, hr⟩ := of_outcome_map h
  cases r with
  | error e => cases hr
  | ok a => exact ⟨a, hout, Except.ok.inj hr⟩

/-- The response line of an executed operation is read as the store's own result. -/
theorem execute_op (hs : Free s) (h : o.Admissible num) (hpos : o.Positive)
    (hcarried : ∀ e, s.store.get? o.key = some e → Carried e) :
    ∃ text s' c', executeCommand num s c o.command = some (text, s', c') ∧ Free s' ∧
      IsWellFormed text ∧
      (o.result num text).toOption = (entryStep c (s.store.get? o.key) o.op).1.reported ∧
      ∀ k, s'.store.get? k =
        if k = o.key then (entryStep c (s.store.get? o.key) o.op).2 else s.store.get? k := by
  obtain ⟨s', c', hexec, hs', hget⟩ := exec_keyed hs c (check_call h hpos) o.op_key
  cases o with
  | set cmd =>
    obtain ⟨u, hset, -⟩ := of_outcome_map_ok hexec
    have hread : ClientOp.result num (.set cmd) encodeOk = .ok .done :=
      result_of_read read_ok (by simp)
    refine ⟨encodeOk, s', c', ?_, hs', by decide, congrArg Except.toOption hread, hget⟩
    rw [ClientOp.command, executeCommand, storeSet]
    exact respond_ok hset rfl
  | keyed name key =>
    cases name with
    | get =>
      obtain ⟨value, hrun, hvalue⟩ := of_outcome_map_ok hexec
      -- only a value without white space is read back as it was
      have hdark : ∀ v, value = some v → Dark v ∧ IsWellFormed v := by
        intro v hv
        injection hvalue with hvalue
        obtain ⟨e, he, rfl⟩ := Option.map_eq_some_iff.1 (hvalue.symm.trans hv)
        have hentry := carried_liveEntry hcarried he
        exact ⟨hentry.value, hentry.unicode⟩
      obtain ⟨text, htext, hunicode, hread⟩ := read_value num key hdark
      refine ⟨text, s', c', ?_, hs', hunicode, ?_, hget⟩
      swap
      · rw [hread, ← hvalue]
        rfl
      rw [ClientOp.command, executeCommand, executeKeyed]
      exact respond_ok hrun htext
    | del | delete | existsKey =>
      obtain ⟨b, hrun, hb⟩ := of_outcome_map_ok hexec
      obtain ⟨text, htext, hunicode, hread⟩ := read_flag num key b
      refine ⟨text, s', c', ?_, hs', hunicode, ?_, hget⟩
      swap
      · rw [hread _ (by decide), ← hb]
        rfl
      simp only [ClientOp.command, executeCommand, executeKeyed, storeDelete]
      exact respond_ok hrun htext
    | ttl =>
      obtain ⟨x, hrun, hx⟩ := of_outcome_map_ok hexec
      have hanswer : (∃ n, x = .int n ∧ IsDouble n) ∨ x = .infinity := by
        injection hx with hx
        rw [hx]
        exact ttl_answer (liveEntry c (s.store.get? key)) c.tail.head
      obtain ⟨text, htext, hunicode, hread⟩ := respond_seconds num key hrun hanswer
      refine ⟨text, s', c', ?_, hs', hunicode, hread.trans (congrArg Reply.reported hx), hget⟩
      rw [ClientOp.command, executeCommand, executeKeyed]
      exact htext

/-! ### The request line -/

/-- The words of a request. -/
def ClientOp.words (num : Numerals) : ClientOp → List JsString
  | .set cmd => js "SET" :: setWords num cmd
  | .keyed name key => [name.text, key]

theorem words_line (h : o.Admissible num) : Line (o.words num) := by
  cases o with
  | set cmd => exact (setWords_line h.1).cons (by decide)
  | keyed name key => exact (line_singleton h.1).cons (by cases name <;> decide)

theorem request_eq (o : ClientOp) : o.request num = unwords (o.words num) ++ newline := by
  cases o with
  | set cmd => exact formatSet_eq cmd
  | keyed name key => simp [ClientOp.request, ClientOp.words, unwords, js]

/-- What the node reads is the request without its newline. -/
theorem firstLine_request (h : o.Admissible num) :
    firstLine (o.request num) = unwords (o.words num) := by
  rw [request_eq, firstLine_unwords (words_line h)]

theorem parse_words (h : o.Admissible num) (hpos : o.Positive) :
    parseCommand num (unwords (o.words num)) = .ok o.command := by
  cases o with
  | set cmd => exact parse_set ⟨h.1.key, h.1.value, fun n hn => ⟨hpos n hn, h.1.ex n hn⟩⟩
  | keyed name key => exact parse_keyed name h.1

theorem byteLength_words (h : o.Admissible num) :
    byteLength (unwords (o.words num)) ≤ DEFAULT_MAX_LINE_BYTES := by
  have hlen := byteLength_unwords (words_line h).1
  unfold DEFAULT_MAX_LINE_BYTES
  cases o with
  | set cmd =>
    have hSET : byteLength (js "SET") = 3 := by decide
    have hwords := byteLength_setWords h.1
    have hk : byteLength cmd.key ≤ 256 := h.2.1.2
    have hv : byteLength cmd.value ≤ 1048576 := h.2.2
    simp only [ClientOp.words, List.map_cons, List.sum_cons, hSET] at hlen
    simp only [ClientOp.words]
    omega
  | keyed name key =>
    have hname : byteLength name.text ≤ 6 := by cases name <;> decide
    have hk : byteLength key ≤ 256 := h.2.2
    simp only [ClientOp.words, List.map_cons, List.map_nil, List.sum_cons, List.sum_nil] at hlen
    simp only [ClientOp.words]
    omega

/-- A short line of tokens reaches the parser. -/
theorem serveLine_unwords (hline : Line ws) (hlen : byteLength (unwords ws) ≤ node.maxLineBytes) :
    serveLine num node c (unwords ws) = match parseCommand num (unwords ws) with
      | .error message => some ⟨some (encodeErr message), node, [], c⟩
      | .ok command => dispatchCommand num node c command := by
  have htrim : trim (unwords ws) ≠ [] := by
    rw [trim_unwords hline]
    exact unwords_ne_nil hline
  cases hparse : parseCommand num (unwords ws) with
  | error message =>
    simp only [serveLine, dropCr_unwords hline, if_neg (not_lt.2 hlen), if_neg htrim, hparse]
  | ok command =>
    simp only [serveLine, dropCr_unwords hline, if_neg (not_lt.2 hlen), if_neg htrim, hparse]

/-! ### The whole exchange -/

/-- Everything but the store and the counters of the engine is as before. -/
structure Kept (node node' : CacheNode) : Prop where
  limit : node'.maxLineBytes = node.maxLineBytes
  engine : ∀ e, node.replication = some e → ∃ e', node'.replication = some e' ∧
    e'.config = e.config ∧ e'.closed = e.closed

theorem fanOut_kept (node : CacheNode) (command : Command) :
    (node.fanOut num command).1.store = node.store ∧ Kept node (node.fanOut num command).1 := by
  have same : node.store = node.store ∧ Kept node node := ⟨rfl, rfl, fun e he => ⟨e, he, rfl, rfl⟩⟩
  unfold CacheNode.fanOut
  cases hengine : node.replication with
  | none => exact same
  | some e =>
    cases command.mutation with
    | none => exact same
    | some m =>
      simp only
      split_ifs
      · refine ⟨rfl, rfl, fun e' he' => ?_⟩
        obtain rfl : e = e' := Option.some.inj (hengine.symm.trans he')
        exact ⟨_, rfl, replicate_config e m⟩
      · exact same

/-- What a node sends is a mutation of a key it is primary for, to a peer of that key. -/
theorem mem_fanOut (node : CacheNode) {command : Command} {send : ℕ × JsString}
    (h : send ∈ (node.fanOut num command).2) :
    ∃ m e, command.mutation = some m ∧ node.replication = some e ∧
      isPrimaryForKey e.config.ring m.key e.config.myNodeIndex = true ∧
      send.1 ∈ e.peers m.key ∧ send.2 = trimEnd (formatReplCommand num m) := by
  unfold CacheNode.fanOut at h
  cases hengine : node.replication with
  | none =>
    rw [hengine] at h
    cases h
  | some e =>
    cases hm : command.mutation with
    | none =>
      rw [hengine, hm] at h
      cases h
    | some m =>
      rw [hengine, hm] at h
      simp only at h
      split_ifs at h with hprimary
      · have hsend := e.mem_replicate h
        exact ⟨m, e, rfl, rfl, hprimary, hsend⟩
      · cases h

theorem formatSet_isWellFormed {cmd : SetCommand} (hex : ∀ n, cmd.ex = some n → num.IsNumber n)
    (hkey : IsWellFormed cmd.key) (hvalue : IsWellFormed cmd.value) :
    IsWellFormed (formatSet num cmd) := by
  have hnewline : toWellFormed newline = newline := by decide
  unfold IsWellFormed at hkey hvalue ⊢
  unfold formatSet
  cases h : cmd.ex with
  | none => split_ifs <;> simp only [toWellFormed_append, toWellFormed_js, hnewline, hkey, hvalue]
  | some n =>
    have htext : toWellFormed (num.toText n) = num.toText n := num.toText_isWellFormed n (hex n h)
    simp only
    split_ifs <;> simp only [toWellFormed_append, toWellFormed_js, hnewline, hkey, hvalue, htext]

/-- So is the line for a peer if the mutation was read in a well-formed line. -/
theorem replLine_isWellFormed {command : Command} {m : InnerCommand}
    (hmade : command.Made num IsWellFormed) (hm : command.mutation = some m) :
    IsWellFormed (replLine num m) := by
  have del {key : JsString} (hkey : IsWellFormed key) :
      IsWellFormed (replLine num (.del key)) := by
    have hname : IsWellFormed (js "REPL DEL ") := toWellFormed_js _
    exact ((hname.append hkey).append (by decide)).trimEnd.trim
  cases command with
  | ping | repl inner => cases hm
  | set cmd =>
    cases hm
    have hname : IsWellFormed (js "REPL ") := toWellFormed_js _
    have hset := formatSet_isWellFormed (fun n hn => (hmade.ex n hn).2) hmade.key.2 hmade.value
    exact ((hname.append hset.trimEnd).append (by decide)).trimEnd.trim
  | keyed name key => cases name <;> cases hm <;> exact del hmade.2

/-- The request is well formed if the key and the value are. -/
theorem request_isWellFormed (hex : ∀ n, o.ex = some n → num.IsNumber n) (hunicode : o.Unicode) :
    IsWellFormed (o.request num) := by
  cases o with
  | set cmd => exact formatSet_isWellFormed hex hunicode.1 hunicode.2
  | keyed name key =>
    have hname : IsWellFormed (name.text ++ js " ") := by cases name <;> decide
    exact (hname.append hunicode).append (by decide)

theorem ClientOp.Admissible.ex (h : o.Admissible num) (n : ℤ) (hn : o.ex = some n) :
    num.IsNumber n := by
  cases o with
  | set cmd => exact h.1.ex n hn
  | keyed name key => cases hn

/-- **An operation on an unlimited store** is answered with the store's own result. -/
theorem serve_op (hs : Free node.store) (hmax : node.maxLineBytes = DEFAULT_MAX_LINE_BYTES)
    (h : o.Admissible num) (hpos : o.Positive)
    (hcarried : ∀ e, node.store.store.get? o.key = some e → Carried e) :
    ∃ served text, serveLine num node c (firstLine (o.request num)) = some served ∧
      served.reply = some text ∧ IsWellFormed text ∧
      (o.result num text).toOption = (entryStep c (node.store.store.get? o.key) o.op).1.reported ∧
      Free served.node.store ∧ Kept node served.node ∧
      (∀ k, served.node.store.store.get? k =
        if k = o.key then (entryStep c (node.store.store.get? o.key) o.op).2
        else node.store.store.get? k) ∧
      ∀ send ∈ served.sends, ∃ m e, o.command.mutation = some m ∧ node.replication = some e ∧
        isPrimaryForKey e.config.ring m.key e.config.myNodeIndex = true ∧
        send.1 ∈ e.peers m.key ∧ send.2 = trimEnd (formatReplCommand num m) := by
  obtain ⟨text, s', c', hrun, hs', hunicode, hresult, hget⟩ :=
    execute_op (c := c) hs h hpos hcarried
  have hdispatch : dispatchCommand num node c o.command =
      (executeCommand num node.store c o.command).map fun r =>
        let sent := CacheNode.fanOut num { node with store := r.2.1 } o.command
        ⟨some r.1, sent.1, sent.2, r.2.2⟩ := by
    cases o <;> rfl
  have hserve := @serveLine_unwords num c node _ (words_line h)
    (by rw [hmax]; exact byteLength_words h)
  simp only [parse_words h hpos, hdispatch, hrun, Option.map_some] at hserve
  obtain ⟨hstore, hkept⟩ := fanOut_kept { node with store := s' } o.command
  refine ⟨_, text, (firstLine_request h).symm ▸ hserve, rfl, hunicode, hresult, hstore ▸ hs',
    ⟨hkept.limit, hkept.engine⟩, fun k => ?_, fun send hsend => ?_⟩
  · simp only [hstore]
    exact hget k
  · exact mem_fanOut { node with store := s' } hsend

/-- A `SET` whose seconds are not positive is answered with an error, and changes nothing. -/
theorem serve_refused (hmax : node.maxLineBytes = DEFAULT_MAX_LINE_BYTES)
    (h : o.Admissible num) (hpos : ¬ o.Positive) (c : Clock) :
    ∃ text e, serveLine num node c (firstLine (o.request num)) = some ⟨some text, node, [], c⟩ ∧
      IsWellFormed text ∧ o.result num text = .error e := by
  cases o with
  | keyed name key => exact absurd trivial hpos
  | set cmd =>
    obtain ⟨n, hn, hle⟩ : ∃ n, cmd.ex = some n ∧ n ≤ 0 := by
      simpa [ClientOp.Positive] using hpos
    have hparse : parseCommand num (unwords (ClientOp.words num (.set cmd))) =
        .error (js "EX seconds must be a positive integer") := parse_set_refused h.1 hn hle
    have hserve := @serveLine_unwords num c node _ (words_line h)
      (by rw [hmax]; exact byteLength_words h)
    rw [hparse] at hserve
    have htidy : Tidy (js "EX seconds must be a positive integer") := by decide
    obtain ⟨e, he⟩ := result_encodeErr htidy
    exact ⟨_, e, (firstLine_request h).symm ▸ hserve, by decide, he⟩

end DistributedCache
