import DistributedCache.Client.Reprint
import DistributedCache.Client.Calls
import DistributedCache.Node.Replies
import DistributedCache.Node.WireLines

/-!
# The command line interface

`apps/cache-node/src/cli.js` and `cluster-command.js`. With one node the interface sends the line
as it was typed and prints the response; with several it parses the line itself, calls the method
of the cluster client and prints the method's result.

* `Site`: the nodes with what their engines are given to send, and `Site.request`, one request on
  the connection to a node, where the texts arrive as `toWellFormed` of what was written;
* `runOneShot`, `runClusterCommand`, and `runLines`, the loop over typed lines;
* both ways print the same and do the same (`lines_agree`).
-/

namespace DistributedCache

/-- The nodes, the command lines their engines gave to clients of their peers, and the readings of
the clock to come. -/
structure Site where
  nodes : ℕ → CacheNode
  /-- from, to, line -/
  sends : List (ℕ × ℕ × JsString)
  clock : Clock

/-- What node `i` has served becomes part of the state. -/
def Site.absorb (s : Site) (i : ℕ) (served : Served) : Site where
  nodes := Function.update s.nodes i served.node
  sends := s.sends ++ served.sends.map fun send => (i, send)
  clock := served.clock

/-- A request on a connection to node `i`, and the reply; `none` if there is no reply. -/
def Site.request (num : Numerals) (s : Site) (i : ℕ) (text : JsString) : Option (JsString × Site) :=
  (serveLine num (s.nodes i) s.clock (firstLine (toWellFormed text))).bind fun served =>
    served.reply.map fun reply => (toWellFormed reply, s.absorb i served)

/-! ### One node -/

/-- `executeRaw`. -/
def executeRaw (num : Numerals) (i : ℕ) (commandLine : JsString) (s : Site) :
    Option (Except ClientError JsString × Site) :=
  if trim commandLine = [] then some (.error ⟨.protocolError, js "empty command"⟩, s)
  else (s.request num i (trim commandLine ++ newline)).map fun r =>
    (executeRawResult num (dropCr (firstLine r.1)), r.2)

/-- `runOneShot` with a `CacheClient`: the text printed, or the error thrown. -/
def runOneShot (num : Numerals) (i : ℕ) (commandLine : JsString) (s : Site) :
    Option (Except ClientError JsString × Site) :=
  (executeRaw num i commandLine s).map fun r => (r.1.map (printResponse num), r.2)

/-! ### Several nodes -/

/-- A `ClientError` of the cluster client, and of its details the id and the index of the node. -/
structure ClusterFailure where
  error : ClientError
  node : Option (JsString × ℕ)

/-- What `runClusterCommand` prints for an error. -/
def ClusterFailure.display (f : ClusterFailure) : JsString :=
  match f.error.code, f.node with
  | .nodeUnavailable, some (nodeId, nodeIndex) =>
      js "(error) " ++ f.error.message ++ js " [node " ++ nodeId ++ js " index " ++
        decimal nodeIndex ++ js "]"
  | _, _ => js "(error) " ++ f.error.message

/-- The text that is printed, be it for an error. -/
def printed : Except ClusterFailure JsString → JsString
  | .ok shown => shown
  | .error f => f.display

/-- What `dispatchClusterCommand` prints for the result of a method. -/
def Reply.display (num : Numerals) : Reply → JsString
  | .done => js "OK"
  | .value none => js "NIL"
  | .value (some v) => js "\"" ++ v ++ js "\""
  | .flag b => js "(integer) " ++ num.toText (if b then 1 else 0)
  | .seconds (.int n) => js "(integer) " ++ num.toText n
  -- a response carries no other number
  | .seconds _ => []
  | .purged n => decimal n

namespace ClusterClient

variable (num : Numerals) (cluster : ClusterClient)

/-- `#wrapBackendError` with its details. -/
def failure (i : ℕ) (err : ClientError) : ClusterFailure :=
  match cluster.nodes[i]? with
  | some node => ⟨wrapBackendError node err, some (node.id, i)⟩
  | none => ⟨err, none⟩

/-- `#withClient`: the method's request on node `i`, and its result. -/
def callNode (i : ℕ) (op : ClusterOp) (s : Site) : Option (Except ClusterFailure Reply × Site) :=
  (s.request num i (op.request num)).map fun r =>
    (((dispatchResponse num true (dropCr (firstLine r.1))).bind op.accept).mapError
      (cluster.failure i), r.2)

/-- `#routeKeyed`. -/
def callKeyed (op : ClientOp) (s : Site) : Option (Except ClusterFailure Reply × Site) :=
  match cluster.resolveNodeIndex op.key with
  | .error err => some (.error ⟨err, none⟩, s)
  | .ok i => cluster.callNode num i (.keyed op) s

/-- `ping` of the nodes given; the first error counts. The code asks all nodes at once; here they
are asked in turn, which is the same to them, since a `PING` changes nothing (`request_ping`). -/
def pingAll : List ℕ → Site → Option (Except ClusterFailure Unit × Site)
  | [], s => some (.ok (), s)
  | i :: rest, s =>
      (cluster.callNode num i .ping s).bind fun r =>
        (pingAll rest r.2).map fun r' => (r.1.bind fun _ => r'.1, r'.2)

/-- `dispatchClusterCommand`: the text printed, or the error thrown. -/
def dispatchClusterCommand (cmd : Command) (s : Site) :
    Option (Except ClusterFailure JsString × Site) :=
  let keyed (op : ClientOp) := (cluster.callKeyed num op s).map fun r =>
    (r.1.map (Reply.display num), r.2)
  match cmd with
  | .ping => (cluster.pingAll num (List.range cluster.nodes.length) s).map fun r =>
      (r.1.map fun _ => js "PONG", r.2)
  | .set cmd => keyed (.set cmd)
  | .keyed .get key => keyed (.keyed .get key)
  -- both names call `del`
  | .keyed .del key => keyed (.keyed .del key)
  | .keyed .delete key => keyed (.keyed .del key)
  | .keyed .existsKey key => keyed (.keyed .existsKey key)
  | .keyed .ttl key => keyed (.keyed .ttl key)
  | .repl _ => some (.ok (js "(error) unsupported command"), s)

/-- `runClusterCommand`. -/
def runClusterCommand (commandLine : JsString) (s : Site) : Option (JsString × Site) :=
  match parseCommand num commandLine with
  | .error message => some (js "(error) " ++ message, s)
  | .ok cmd => (cluster.dispatchClusterCommand num cmd s).map fun r => (printed r.1, r.2)

/-- `runOneShot` with a `ClusterClient`. -/
def runOneShot (commandLine : JsString) (s : Site) : Option (Except ClientError JsString × Site) :=
  (cluster.runClusterCommand num commandLine s).map fun r => (.ok r.1, r.2)

end ClusterClient

/-! ### The loop -/

/-- `toLowerCase`, as far as it can produce the letters of the two words below. -/
def lowerChar : JsChar → JsChar
  | .char c => .char (if c.isUpper then c.toLower else c)
  | .surrogate n => .surrogate n

/-- A line that ends the session. -/
def isQuit (trimmed : JsString) : Bool :=
  trimmed.map lowerChar == js "quit" || trimmed.map lowerChar == js "exit"

/-- The interactive loop of `runCli`: what is printed for each command. An error ends it. -/
def runLines (run : JsString → Site → Option (Except ClientError JsString × Site)) :
    List JsString → Site → Option (List (Except ClientError JsString) × Site)
  | [], s => some ([], s)
  | line :: rest, s =>
      if trim line = [] then runLines run rest s
      else if isQuit (trim line) then some ([], s)
      else (run (trim line) s).bind fun r =>
        match r.1 with
        | .error err => some ([.error err], r.2)
        | .ok shown => (runLines run rest r.2).map fun t => (.ok shown :: t.1, t.2)

/-! ### Responses that a method knows -/

/-- An error, or a response of a type that the method for the command expects. -/
def Command.Answers : Command → Response → Prop
  | _, .err _ => True
  | .ping, res => res = .pong
  | .set _, res => res = .ok
  | .keyed .get _, res => res = .nil ∨ ∃ v, res = .str v
  | .keyed .ttl _, res => ∃ n, res = .int n
  | .keyed _ _, res => ∃ b : Bool, res = .int (if b then 1 else 0)
  | .repl _, _ => False

/-- The reply is one line with such a response. -/
structure Understood (num : Numerals) (cmd : Command) (reply : JsString) : Prop where
  framed : Framed reply
  parsed : ∃ res, parseResponse num reply = .ok res ∧ cmd.Answers res

variable {num : Numerals} {s s' : CacheStore} {c c' : Clock} {cmd : Command} {key : JsString}

open CacheStore

theorem Answer.understood {res : Response} {reply : JsString} (h : Answer num res reply)
    (hunicode : IsWellFormed reply) (hres : cmd.Answers res) :
    Understood num cmd (toWellFormed reply) := by
  rw [hunicode]
  exact ⟨h.framed, res, h.parsed, hres⟩

theorem understood_err (cmd : Command) {message : JsString} (h : Tidy message) :
    Understood num cmd (toWellFormed (encodeErr message)) := by
  rw [toWellFormed_encodeErr h]
  exact ⟨framed_encodeErr _, _, (answer_err h.toWellFormed).parsed, by cases cmd <;> trivial⟩

theorem understood_int (cmd : Command) {n : ℤ} (hnum : num.IsNumber n) (h : cmd.Answers (.int n)) :
    Encoded (fun reply => Understood num cmd (toWellFormed reply)) (encodeInt num (.int n)) := by
  obtain ⟨text, htext, hanswer⟩ := answer_int hnum
  exact Or.inl ⟨text, htext, hanswer.understood (isWellFormed_encodeInt hnum htext) h⟩

theorem understood_flag (cmd : Command) (b : Bool)
    (h : ∀ b : Bool, cmd.Answers (.int (if b then 1 else 0))) :
    Encoded (fun reply => Understood num cmd (toWellFormed reply))
      (encodeInt num (.int (if b then 1 else 0))) :=
  understood_int cmd (num.isNumber_of_natAbs (by cases b <;> decide)) (h b)

/-- Any value is read as some `STR`, unless the encoder refuses it. -/
theorem understood_value (value : Option JsString) :
    Encoded (fun reply => Understood num (.keyed .get key) (toWellFormed reply)) (match value with
      | none => Except.ok encodeNil
      | some v => encodeStr v) := by
  cases value with
  | none => exact Or.inl ⟨_, rfl, answer_nil.understood (by decide) (Or.inl rfl)⟩
  | some v =>
    cases hbreak : v.any isLineBreak with
    | true => exact Or.inr ⟨js "STR payload must not contain newlines",
        by simp only [encodeStr, hbreak, if_true], by decide⟩
    | false =>
      have htext : toWellFormed (js "STR " ++ v ++ newline) =
          js "STR " ++ toWellFormed v ++ newline := by
        rw [toWellFormed_append, toWellFormed_append, toWellFormed_js]
        rfl
      refine Or.inl ⟨js "STR " ++ v ++ newline,
        by simp only [encodeStr, hbreak, Bool.false_eq_true, if_false], ?_⟩
      show Understood num _ (toWellFormed _)
      rw [htext]
      refine ⟨⟨js "STR " ++ toWellFormed v, rfl, ?_⟩, .str (trimEnd (toWellFormed v)), ?_,
        Or.inr ⟨_, rfl⟩⟩
      · intro hmem
        rcases List.mem_append.1 hmem with hmem | hmem
        · exact absurd hmem (by decide)
        · exact newline_notMem_toWellFormed (newline_notMem_of_any hbreak) hmem
      · rw [parseResponse, trim_newline]
        exact parse_str num _

/-- **A node answers a command with a response that the command's method knows.** -/
theorem executeCommand_understood (num : Numerals) (hs : Inv s) (c : Clock) (hplain : cmd.Plain) :
    ∃ reply s' c', executeCommand num s c cmd = some (reply, s', c') ∧
      Understood num cmd (toWellFormed reply) := by
  -- a call whose results can be encoded
  have called {α : Type} {cmd : Command} (call : Call) {o : Outcome α} {f : α → Reply}
      {encode : α → Except JsString JsString} (ho : s.exec c call = Outcome.map f o)
      (hok : ∀ r s' c' a, s.exec c call = some (r, s', c') → r = .ok (f a) →
        Encoded (fun reply => Understood num cmd (toWellFormed reply)) (encode a)) :
      ∃ reply s' c', respond o encode = some (reply, s', c') ∧
        Understood num cmd (toWellFormed reply) := by
    obtain ⟨r, s', c', hexec, -⟩ := exec_returns hs c call
    obtain ⟨reply, hrun, hreply⟩ := respond_spec (fun _ => understood_err cmd) (ho.symm.trans hexec)
      (fun e he => exec_tidy hs (he ▸ hexec)) fun a ha => hok r s' c' a hexec ha
    exact ⟨reply, s', c', hrun, hreply⟩
  cases cmd with
  | ping => exact ⟨_, s, c, rfl, answer_pong.understood (by decide) rfl⟩
  | repl inner => exact absurd hplain id
  | set cmd =>
    have hanswers : (Command.set cmd).Answers .ok := rfl
    exact called (InnerCommand.set cmd).call rfl fun _ _ _ _ _ _ =>
      Or.inl ⟨_, rfl, answer_ok.understood (by decide) hanswers⟩
  | keyed name key =>
    cases name with
    | get =>
      exact called (.get (.string key)) rfl fun _ _ _ value _ _ => understood_value value
    | del =>
      exact called (.delete (.string key)) rfl fun _ _ _ b _ _ =>
        understood_flag (.keyed .del key) b fun b => ⟨b, rfl⟩
    | delete =>
      exact called (.delete (.string key)) rfl fun _ _ _ b _ _ =>
        understood_flag (.keyed .delete key) b fun b => ⟨b, rfl⟩
    | existsKey =>
      exact called (.existsKey (.string key)) rfl fun _ _ _ b _ _ =>
        understood_flag (.keyed .existsKey key) b fun b => ⟨b, rfl⟩
    | ttl =>
      refine called (.ttl (.string key)) rfl fun r s' c' x hexec hx => ?_
      rcases exec_ttl_number hs (hx ▸ hexec) with ⟨n, rfl, hn⟩ | rfl
      · exact understood_int _ (num.isNumber_of_isDouble n hn) ⟨n, rfl⟩
      · exact Or.inr ⟨_, rfl, by decide⟩

/-! ### What is printed -/

variable {cluster : ClusterClient} {res : Response} {reply text line : JsString} {limit i : ℕ}
  {t t' : Site}

/-- With one node the response is printed. -/
theorem plain_shown (hframed : Framed reply) (hparse : parseResponse num reply = .ok res) :
    (executeRawResult num (dropCr (firstLine reply))).map (printResponse num) =
      .ok (res.display num) := by
  have hline : parseResponse num (dropCr (firstLine reply)) = .ok res :=
    hframed.read_eq.trans hparse
  have hraw : executeRawResult num (dropCr (firstLine reply)) = .ok (responseToLine num res) := by
    rw [executeRawResult, dispatchResponse, hline]
    cases res <;> rfl
  rw [hraw]
  simp only [Except.map, printResponse, parse_responseToLine (parse_clean hline)]

/-- The methods that a command becomes: `DELETE` calls `del` too. -/
def Command.clientOp : Command → Option ClientOp
  | .set cmd => some (.set cmd)
  | .keyed .delete key => some (.keyed .del key)
  | .keyed name key => some (.keyed name key)
  | .ping => none
  | .repl _ => none

/-- The method of the command knows the response. -/
theorem accept_of_answers (num : Numerals) {op : ClientOp} (hop : cmd.clientOp = some op)
    (hres : cmd.Answers res) (herr : ∀ message, res ≠ .err message) :
    ∃ r, op.accept res = .ok r ∧ r.display num = res.display num := by
  cases cmd with
  | ping => cases hop
  | repl inner => cases hop
  | set cmd =>
    cases hop
    cases res with
    | ok => exact ⟨.done, rfl, rfl⟩
    | err message => exact absurd rfl (herr message)
    | pong | nil | int n | str v => cases hres
  | keyed name key =>
    cases name with
    | get =>
      cases hop
      cases res with
      | nil => exact ⟨.value none, rfl, rfl⟩
      | str v => exact ⟨.value (some v), rfl, rfl⟩
      | err message => exact absurd rfl (herr message)
      | ok | pong | int n => rcases hres with h | ⟨v, h⟩ <;> cases h
    | ttl =>
      cases hop
      cases res with
      | int n => exact ⟨.seconds (.int n), rfl, rfl⟩
      | err message => exact absurd rfl (herr message)
      | ok | pong | nil | str v => obtain ⟨n, h⟩ := hres; cases h
    | del | delete | existsKey =>
      cases hop
      cases res with
      | int n =>
        obtain ⟨b, hb⟩ := hres
        cases hb
        refine ⟨.flag b, ?_, rfl⟩
        cases b <;> rfl
      | err message => exact absurd rfl (herr message)
      | ok | pong | nil | str v => obtain ⟨b, h⟩ := hres; cases h

/-- With several nodes the same is printed. -/
theorem cluster_shown (cluster : ClusterClient) {op : ClientOp} (hframed : Framed reply)
    (hparse : parseResponse num reply = .ok res) (hop : cmd.clientOp = some op)
    (hres : cmd.Answers res) (i : ℕ) :
    printed ((((dispatchResponse num true (dropCr (firstLine reply))).bind op.accept).mapError
      (cluster.failure i)).map (Reply.display num)) = res.display num := by
  have hline : parseResponse num (dropCr (firstLine reply)) = .ok res :=
    hframed.read_eq.trans hparse
  by_cases herr : ∃ message, res = .err message
  · obtain ⟨message, rfl⟩ := herr
    rw [dispatchResponse, hline]
    show (cluster.failure i ⟨.serverError, message⟩).display = _
    unfold ClusterClient.failure
    cases cluster.nodes[i]? <;> rfl
  · obtain ⟨r, haccept, hdisplay⟩ := accept_of_answers num hop hres fun m h => herr ⟨m, h⟩
    have hdispatch : dispatchResponse num true (dropCr (firstLine reply)) = .ok res := by
      rw [dispatchResponse, hline]
      cases res with
      | err message => exact absurd ⟨message, rfl⟩ herr
      | ok | pong | nil | int n | str v => rfl
    rw [hdispatch]
    simp only [Except.bind, haccept, Except.mapError, Except.map, printed, hdisplay]

/-! ### What is done -/

theorem dropCr_trim (line : JsString) : dropCr (trim line) = trim line := by
  unfold dropCr
  split_ifs with hlast
  · obtain ⟨init, hinit⟩ := List.getLast?_eq_some_iff.1 hlast
    have hend := trimEnd_trim line
    rw [hinit, trimEnd, List.rdropWhile_concat_pos isSpace init '\r' (by decide)] at hend
    have hlen := (List.rdropWhile_prefix isSpace init).length_le
    rw [hend, List.length_append] at hlen
    exact absurd hlen (by simp)
  · rfl

/-- A request is what the node makes of the command on its line. -/
theorem request_of_parse (hunicode : IsWellFormed text)
    (hlen : byteLength (dropCr (firstLine text)) ≤ (t.nodes i).maxLineBytes)
    (hparse : parseCommand num (dropCr (firstLine text)) = .ok cmd) :
    t.request num i text = (dispatchCommand num (t.nodes i) t.clock cmd).bind fun served =>
      served.reply.map fun reply => (toWellFormed reply, t.absorb i served) := by
  rw [Site.request, hunicode, serveLine_of_parse hlen hparse]

/-- Every node can take lines of `limit` bytes, and its store is consistent. -/
structure Site.Ready (limit : ℕ) (t : Site) : Prop where
  stores : ∀ i, Inv (t.nodes i).store
  limits : ∀ i, limit ≤ (t.nodes i).maxLineBytes

theorem request_ready (h : t.Ready limit) (hrequest : t.request num i text = some (reply, t')) :
    t'.Ready limit := by
  obtain ⟨served, hserve, hreply⟩ := Option.bind_eq_some_iff.1 hrequest
  obtain ⟨_, -, heq⟩ := Option.map_eq_some_iff.1 hreply
  cases heq
  obtain ⟨hinv, hkept, -⟩ := serve_entries (h.stores i) hserve
  have other {j : ℕ} (hj : j ≠ i) : (t.absorb i served).nodes j = t.nodes j :=
    Function.update_of_ne hj _ _
  have self : (t.absorb i served).nodes i = served.node := Function.update_self i _ _
  constructor
  · intro j
    by_cases hj : j = i
    · rw [hj, self]
      exact hinv
    · rw [other hj]
      exact h.stores j
  · intro j
    by_cases hj : j = i
    · rw [hj, self, hkept.limit]
      exact h.limits i
    · rw [other hj]
      exact h.limits j

/-- Both names of a deletion are executed alike. -/
theorem dispatch_clientOp {op : ClientOp} (hop : cmd.clientOp = some op) (node : CacheNode)
    (c : Clock) : dispatchCommand num node c op.command = dispatchCommand num node c cmd := by
  cases cmd with
  | ping | repl inner => cases hop
  | set cmd => cases hop; rfl
  | keyed name key => cases name <;> cases hop <;> rfl

theorem dispatch_understood (num : Numerals) {node : CacheNode} (hs : Inv node.store)
    (c : Clock) (hplain : cmd.Plain) :
    ∃ served reply, dispatchCommand num node c cmd = some served ∧
      served.reply = some reply ∧ Understood num cmd (toWellFormed reply) := by
  obtain ⟨reply, s', c', hrun, hreply⟩ := executeCommand_understood num hs c hplain
  cases cmd with
  | repl inner => exact absurd hplain id
  | ping => exact ⟨_, _, rfl, rfl, answer_pong.understood (by decide) rfl⟩
  | set cmd => exact ⟨_, reply, congrArg (Option.map _) hrun, rfl, hreply⟩
  | keyed name key => exact ⟨_, reply, congrArg (Option.map _) hrun, rfl, hreply⟩

/-- A line that both ways can send: decoded text, not a `REPL`, and short enough as typed and as
printed again. -/
structure Portable (num : Numerals) (limit : ℕ) (line : JsString) : Prop where
  unicode : IsWellFormed line
  single : .char '\n' ∉ trim line
  plain : ∀ inner, parseCommand num line ≠ .ok (.repl inner)
  typed : byteLength (trim line) ≤ limit
  printed : ∀ cmd op, parseCommand num line = .ok cmd → cmd.clientOp = some op →
    byteLength (op.request num) ≤ limit

/-- The node that a typed line belongs to; any node will do for a line without a key. -/
def ClusterClient.owner (num : Numerals) (cluster : ClusterClient) (line : JsString) : ℕ :=
  match parseCommand num line with
  | .ok cmd =>
      match cmd.clientOp with
      | some op => (cluster.resolveNodeIndex op.key).toOption.getD 0
      | none => 0
  | .error _ => 0

theorem parseCommand_trim (line : JsString) :
    parseCommand num (trim line) = parseCommand num line := by
  simp only [parseCommand, trim_trim]

theorem trim_ne_nil_of_parse (h : parseCommand num line = .ok cmd) : trim line ≠ [] := by
  intro hnil
  rw [parseCommand] at h
  simp only [hnil, if_true] at h
  cases h

theorem isWellFormed_newline {s : JsString} (h : IsWellFormed s) : IsWellFormed (s ++ newline) :=
  h.append (by decide)

/-- The line as typed reaches the node as it is. -/
theorem typed_line (h : Portable num limit line) :
    dropCr (firstLine (trim line ++ newline)) = trim line := by
  rw [firstLine_append_newline h.single, dropCr_trim]

/-- The line as printed is read as the method's command. -/
theorem printed_line {op : ClientOp} (hunicode : IsWellFormed line)
    (hparse : parseCommand num line = .ok cmd) (hop : cmd.clientOp = some op) :
    IsWellFormed (op.request num) ∧
      parseCommand num (dropCr (firstLine (op.request num))) = .ok op.command ∧
      byteLength (dropCr (firstLine (op.request num))) ≤ byteLength (op.request num) := by
  have hrequest : IsWellFormed (op.request num) := by
    have hmade := unicode_of_parse hunicode hparse
    cases cmd with
    | ping | repl inner => cases hop
    | set cmd =>
      cases hop
      exact request_isWellFormed (o := .set cmd) (fun n hn => (hmade.ex n hn).2)
        ⟨hmade.key.2, hmade.value⟩
    | keyed name key =>
      cases name <;> cases hop <;> exact request_isWellFormed (fun n hn => nomatch hn) hmade.2
  have hplain : op.command.Plain := by cases op <;> trivial
  have hw : op.command.WellFormed num := by
    have hw := wellFormed_of_parse hparse
    cases cmd with
    | ping | repl inner => cases hop
    | set cmd => cases hop; exact hw
    | keyed name key => cases name <;> cases hop <;> exact hw
  have hline := Command.words_line hw
  have htext : op.request num = unwords (op.command.words num) ++ newline :=
    Except.ok.inj ((op.formatCommand_command num).symm.trans (formatCommand_eq hplain))
  rw [htext, firstLine_unwords hline, dropCr_unwords hline, byteLength_append]
  exact ⟨htext ▸ hrequest, Command.parse_unwords hplain hw, Nat.le_add_right _ _⟩

theorem dispatch_eq {op : ClientOp} (hop : cmd.clientOp = some op) :
    cluster.dispatchClusterCommand num cmd t = (cluster.callKeyed num op t).map fun r =>
      (r.1.map (Reply.display num), r.2) := by
  cases cmd with
  | ping | repl inner => cases hop
  | set cmd => cases hop; rfl
  | keyed name key => cases name <;> cases hop <;> rfl

/-! ### One line -/

/-- **A command on a key** is executed alike at the owner of its key, and the same is printed. -/
theorem keyed_agrees {op : ClientOp} (h : t.Ready limit) (hline : Portable num limit line)
    (hparse : parseCommand num line = .ok cmd) (hop : cmd.clientOp = some op)
    (hi : cluster.resolveNodeIndex op.key = .ok i) :
    ∃ shown t', t'.Ready limit ∧ runOneShot num i line t = some (.ok shown, t') ∧
      cluster.runOneShot num line t = some (.ok shown, t') := by
  have hplain : cmd.Plain := by
    cases cmd with
    | repl inner => exact absurd hparse (hline.plain inner)
    | ping | set cmd | keyed name key => trivial
  obtain ⟨served, reply, hserve, hreply, hframed, res, hres, hanswers⟩ :=
    dispatch_understood num (h.stores i) t.clock hplain
  -- both requests are served alike
  have htyped :
      t.request num i (trim line ++ newline) = some (toWellFormed reply, t.absorb i served) := by
    have hread := typed_line hline
    have hparse' : parseCommand num (dropCr (firstLine (trim line ++ newline))) = .ok cmd := by
      rw [hread, parseCommand_trim, hparse]
    rw [request_of_parse (isWellFormed_newline hline.unicode.trim)
      (by rw [hread]; exact hline.typed.trans (h.limits i)) hparse', hserve, Option.bind_some,
      hreply]
    rfl
  have hprinted :
      t.request num i (op.request num) = some (toWellFormed reply, t.absorb i served) := by
    obtain ⟨hrequest, hread, hlen⟩ := printed_line hline.unicode hparse hop
    have hlimit := (hlen.trans (hline.printed cmd op hparse hop)).trans (h.limits i)
    rw [request_of_parse hrequest hlimit hread, dispatch_clientOp hop, hserve, Option.bind_some,
      hreply]
    rfl
  refine ⟨res.display num, t.absorb i served, request_ready h htyped, ?_, ?_⟩
  · rw [runOneShot, executeRaw, if_neg (trim_ne_nil_of_parse hparse), htyped]
    simp only [Option.map_some, plain_shown hframed hres]
  · have hshown := cluster_shown cluster hframed hres hop hanswers i
    rw [ClusterClient.runOneShot, ClusterClient.runClusterCommand, hparse]
    simp only [dispatch_eq hop, ClusterClient.callKeyed, hi, ClusterClient.callNode,
      ClusterOp.request, hprinted, Option.map_some]
    exact congrArg (fun shown => some (Except.ok shown, t.absorb i served)) hshown

/-- A line that is rejected is rejected with the same message by every node. -/
theorem rejected_agrees {message : JsString} (h : t.Ready limit) (hline : Portable num limit line)
    (hblank : trim line ≠ []) (hparse : parseCommand num line = .error message) (i : ℕ) :
    runOneShot num i line t = some (.ok (js "(error) " ++ message), t) ∧
      cluster.runOneShot num line t = some (.ok (js "(error) " ++ message), t) := by
  have hanswer : Answer num (.err message) (encodeErr message) := answer_err (tidy_parse hparse)
  have hmessage : toWellFormed (encodeErr message) = encodeErr message := by
    rw [toWellFormed_encodeErr (tidy_parse hparse), isWellFormed_parse hline.unicode hparse]
  have hrequest : t.request num i (trim line ++ newline) = some (encodeErr message, t) := by
    have hread := typed_line hline
    have hlen := hline.typed.trans (h.limits i)
    have hunicode : toWellFormed (trim line ++ newline) = trim line ++ newline :=
      isWellFormed_newline hline.unicode.trim
    simp only [Site.request, serveLine, hunicode, hread, if_neg (not_lt.2 hlen), trim_trim,
      if_neg hblank, parseCommand_trim, hparse, Option.bind_some, Option.map_some, hmessage,
      Site.absorb, Function.update_eq_self, List.map_nil, List.append_nil]
  constructor
  · rw [runOneShot, executeRaw, if_neg hblank, hrequest]
    simp only [Option.map_some, plain_shown hanswer.framed hanswer.parsed]
    rfl
  · rw [ClusterClient.runOneShot, ClusterClient.runClusterCommand, hparse]
    rfl

/-- A `PING` changes nothing. -/
theorem request_ping (num : Numerals) {text : JsString} (i : ℕ) (hunicode : IsWellFormed text)
    (hlen : byteLength (dropCr (firstLine text)) ≤ (t.nodes i).maxLineBytes)
    (hparse : parseCommand num (dropCr (firstLine text)) = .ok .ping) :
    t.request num i text = some (encodePong, t) := by
  have hfan : CacheNode.fanOut num (t.nodes i) .ping = (t.nodes i, []) := by
    unfold CacheNode.fanOut
    cases (t.nodes i).replication <;> rfl
  have hpong : toWellFormed encodePong = encodePong := by decide
  rw [request_of_parse hunicode hlen hparse]
  simp only [hpong, dispatchCommand, executeCommand, Option.map_some, hfan, Option.bind_some,
    Site.absorb, Function.update_eq_self, List.map_nil, List.append_nil]

theorem pingAll_eq (num : Numerals) (h : t.Ready limit) (hlimit : 4 ≤ limit) (is : List ℕ) :
    cluster.pingAll num is t = some (.ok (), t) := by
  induction is with
  | nil => rfl
  | cons i is ih =>
    have hparse : parseCommand num (dropCr (firstLine (js "PING" ++ newline))) = .ok .ping :=
      parseCommand_unwords (line_singleton (by decide))
    have hrequest : t.request num i (js "PING" ++ newline) = some (encodePong, t) :=
      request_ping num i (by decide) (hlimit.trans (h.limits i)) hparse
    have hcall : cluster.callNode num i .ping t = some (.ok .done, t) := by
      rw [ClusterClient.callNode, ClusterOp.request, hrequest]
      rfl
    rw [ClusterClient.pingAll, hcall, Option.bind_some, ih]
    rfl

theorem ping_agrees (h : t.Ready limit) (hlimit : 4 ≤ limit) (hline : Portable num limit line)
    (hparse : parseCommand num line = .ok .ping) (i : ℕ) :
    runOneShot num i line t = some (.ok (js "PONG"), t) ∧
      cluster.runOneShot num line t = some (.ok (js "PONG"), t) := by
  have hread := typed_line hline
  have hrequest : t.request num i (trim line ++ newline) = some (encodePong, t) :=
    request_ping num i (isWellFormed_newline hline.unicode.trim)
      (by rw [hread]; exact hline.typed.trans (h.limits i))
      (by rw [hread, parseCommand_trim, hparse])
  constructor
  · rw [runOneShot, executeRaw, if_neg (trim_ne_nil_of_parse hparse), hrequest]
    have hanswer : Answer num .pong encodePong := answer_pong
    simp only [Option.map_some, plain_shown hanswer.framed hanswer.parsed]
    rfl
  · rw [ClusterClient.runOneShot, ClusterClient.runClusterCommand, hparse]
    simp only [ClusterClient.dispatchClusterCommand, pingAll_eq num h hlimit, Option.map_some]
    rfl

theorem resolve_eq_ok (hlookup : cluster.lookupNodeIndex = none) (key : JsString) :
    ∃ i, cluster.resolveNodeIndex key = .ok i := by
  unfold ClusterClient.resolveNodeIndex
  rw [hlookup]
  cases cluster.routing with
  | modulo => exact ⟨_, rfl⟩
  | consistent => exact ⟨_, rfl⟩

/-- **One line.** Typed to the cluster or to the node that owns it, the same is printed and done. -/
theorem line_agrees (hlookup : cluster.lookupNodeIndex = none) (h : t.Ready limit)
    (hlimit : 4 ≤ limit) (hline : Portable num limit line) (hblank : trim line ≠ []) :
    ∃ shown t', t'.Ready limit ∧
      runOneShot num (cluster.owner num line) line t = some (.ok shown, t') ∧
      cluster.runOneShot num line t = some (.ok shown, t') := by
  cases hparse : parseCommand num line with
  | error message => exact ⟨_, t, h, rejected_agrees h hline hblank hparse _⟩
  | ok cmd =>
    cases hop : cmd.clientOp with
    | some op =>
      obtain ⟨i, hi⟩ := resolve_eq_ok hlookup op.key
      have howner : cluster.owner num line = i := by
        simp only [ClusterClient.owner, hparse, hop, hi, Except.toOption, Option.getD_some]
      rw [howner]
      exact keyed_agrees h hline hparse hop hi
    | none =>
      cases cmd with
      | ping => exact ⟨_, t, h, ping_agrees h hlimit hline hparse _⟩
      | repl inner => exact absurd hparse (hline.plain inner)
      | set cmd => cases hop
      | keyed name key => cases name <;> cases hop

/-! ### A session -/

theorem Portable.trim (h : Portable num limit line) : Portable num limit (trim line) where
  unicode := h.unicode.trim
  single := by rw [trim_trim]; exact h.single
  plain := by rw [parseCommand_trim]; exact h.plain
  typed := by rw [trim_trim]; exact h.typed
  printed := by rw [parseCommand_trim]; exact h.printed

/-- **The cluster's command line prints what the owners' would.** For every list of typed lines,
none of them a `REPL` or too long for the nodes: a session with the cluster prints, line by line,
what the line prints in a session with the node that owns its key, and it leaves every store, every
line given to a peer and the clock as these do. Nothing typed ever ends it with an error. -/
theorem lines_agree (hlookup : cluster.lookupNodeIndex = none) (hlimit : 4 ≤ limit)
    {lines : List JsString} (hlines : ∀ line ∈ lines, Portable num limit line)
    (h : t.Ready limit) :
    ∃ shown t', runLines (cluster.runOneShot num) lines t = some (shown, t') ∧
      runLines (fun line => runOneShot num (cluster.owner num line) line) lines t =
        some (shown, t') ∧ ∀ r ∈ shown, ∃ text, r = .ok text := by
  induction lines generalizing t with
  | nil => exact ⟨[], t, rfl, rfl, fun r hr => absurd hr List.not_mem_nil⟩
  | cons line lines ih =>
    obtain ⟨hline, hrest⟩ := List.forall_mem_cons.1 hlines
    simp only [runLines]
    split_ifs with hblank hquit
    · exact ih hrest h
    · exact ⟨[], t, rfl, rfl, fun r hr => absurd hr List.not_mem_nil⟩
    · obtain ⟨text, t₁, h₁, hplain, hcluster⟩ :=
        line_agrees hlookup h hlimit hline.trim (by rwa [trim_trim])
      obtain ⟨shown, t', hc, hp, hall⟩ := ih hrest h₁
      refine ⟨.ok text :: shown, t', ?_, ?_, ?_⟩
      · rw [hcluster, Option.bind_some, hc]
        rfl
      · rw [hplain, Option.bind_some, hp]
        rfl
      · intro r hr
        rcases List.mem_cons.1 hr with rfl | hr
        · exact ⟨text, rfl⟩
        · exact hall r hr

/-- A session with two nodes. -/
theorem lines_agree_example : ∃ (lines : List JsString) (t : Site), lines.length = 3 ∧
    ∃ shown t', runLines (ClusterPool.twoNodesClient.runOneShot decimalNumerals) lines t =
        some (shown, t') ∧ ∀ r ∈ shown, ∃ text, r = .ok text := by
  have portable {line : JsString} (cmd : Command) (hunicode : IsWellFormed line)
      (hsingle : .char '\n' ∉ trim line) (hlen : byteLength (trim line) ≤ 64)
      (hparse : parseCommand decimalNumerals line = .ok cmd) (hplain : ∀ inner, cmd ≠ .repl inner)
      (hprinted : ∀ op, cmd.clientOp = some op → byteLength (op.request decimalNumerals) ≤ 64) :
      Portable decimalNumerals 64 line := by
    refine ⟨hunicode, hsingle, fun inner h => ?_, hlen, fun cmd op h => ?_⟩
    · exact hplain inner (Except.ok.inj (hparse.symm.trans h))
    · cases Except.ok.inj (hparse.symm.trans h)
      exact hprinted op
  let node : CacheNode := ⟨.new none none, none, DEFAULT_MAX_LINE_BYTES⟩
  have hready : Site.Ready 64 ⟨fun _ => node, [], fun n => n⟩ :=
    ⟨fun _ => CacheStore.inv_new none none, fun _ => (by decide : 64 ≤ DEFAULT_MAX_LINE_BYTES)⟩
  have hlines : ∀ line ∈ [js " PING", js "set a 1 ", js "delete a"],
      Portable decimalNumerals 64 line := by
    simp only [List.forall_mem_cons, List.not_mem_nil, false_imp_iff, implies_true, and_true]
    refine ⟨?_, ?_, ?_⟩
    · exact portable .ping (by decide) (by decide) (by decide) (by decide) nofun nofun
    · exact portable (.set ⟨js "a", js "1", none⟩) (by decide) (by decide) (by decide) (by decide)
        nofun fun op h => by cases h; decide
    · exact portable (.keyed .delete (js "a")) (by decide) (by decide) (by decide) (by decide)
        nofun fun op h => by cases h; decide
  obtain ⟨shown, t', hcluster, -, hall⟩ :=
    lines_agree (show ClusterPool.twoNodesClient.lookupNodeIndex = none from rfl) (by decide) hlines
      hready
  exact ⟨_, _, rfl, shown, t', hcluster, hall⟩

end DistributedCache
