import DistributedCache.CacheCore.Store
import DistributedCache.Protocol.Answers

/-!
# The commands of a client

The part of `packages/client/src/cache-client.js` that turns a method call into a request line and
a response line into the method's result; how the lines travel is modelled elsewhere.

* `ClientError`;
* `ClientOp`, `ClientOp.request`: the methods that take a key, and the text they send;
* `dispatchResponse`, `ClientOp.accept`, `ClientOp.result`: what a response line settles them with.
-/

namespace DistributedCache

/-- The `code` of a `ClientError`. -/
inductive ClientErrorCode
  | invalidOptions
  | clientClosed
  | connectTimeout
  | connectionError
  | connectionClosed
  | commandTimeout
  | protocolError
  | serverError
  | nodeUnavailable
  deriving DecidableEq, Repr

/-- `ClientError`, without its details. -/
structure ClientError where
  code : ClientErrorCode
  message : JsString
  deriving DecidableEq, Repr

/-- The methods `set`, `get`, `del`, `delete`, `exists` and `ttl` with their arguments. -/
inductive ClientOp
  | set (cmd : SetCommand)
  | keyed (name : KeyedName) (key : JsString)
  deriving DecidableEq, Repr

namespace ClientOp

/-- The key. -/
def key : ClientOp → JsString
  | .set cmd => cmd.key
  | .keyed _ key => key

/-- The command given to `formatCommand`. -/
def command : ClientOp → Command
  | .set cmd => .set cmd
  | .keyed name key => .keyed name key

/-- The text written to the socket. -/
def request (num : Numerals) : ClientOp → JsString
  | .set cmd => formatSet num cmd
  | .keyed name key => name.text ++ js " " ++ key ++ newline

theorem formatCommand_command (num : Numerals) (op : ClientOp) :
    formatCommand num op.command = .ok (op.request num) := by
  cases op <;> rfl

end ClientOp

/-- `res.type`. -/
def Response.type : Response → JsString
  | .ok => js "OK"
  | .pong => js "PONG"
  | .nil => js "NIL"
  | .int _ => js "INT"
  | .str _ => js "STR"
  | .err _ => js "ERR"

/-- The error of a method that does not know the response it got. -/
def unexpectedResponse (name : JsString) (res : Response) : ClientError :=
  ⟨.protocolError, js "unexpected response to " ++ name ++ js ": " ++ res.type⟩

/-- The result of a method on a response that is not an error. -/
def ClientOp.accept : ClientOp → Response → Except ClientError Reply
  | .set _, .ok => .ok .done
  | .set _, res => .error (unexpectedResponse (js "SET") res)
  | .keyed .get _, .nil => .ok (.value none)
  | .keyed .get _, .str v => .ok (.value (some v))
  | .keyed .get _, res => .error (unexpectedResponse (js "GET") res)
  | .keyed .ttl _, .int n => .ok (.seconds (.int n))
  | .keyed .ttl _, res => .error (unexpectedResponse (js "TTL") res)
  | .keyed _ _, .int n => .ok (.flag (n == 1))
  | .keyed name _, res => .error (unexpectedResponse name.text res)

/-- What `#dispatchResponseLine` settles the command in flight with. -/
def dispatchResponse (num : Numerals) (throwOnServerErr : Bool) (line : JsString) :
    Except ClientError Response :=
  match parseResponse num line with
  | .error message => .error ⟨.protocolError, message⟩
  | .ok (.err message) =>
      if throwOnServerErr then .error ⟨.serverError, message⟩ else .ok (.err message)
  | .ok res => .ok res

/-- The result of a method whose request is answered by `text`. -/
def ClientOp.result (num : Numerals) (op : ClientOp) (text : JsString) : Except ClientError Reply :=
  (dispatchResponse num true (dropCr (firstLine text))).bind op.accept

variable {num : Numerals} {op : ClientOp} {text message : JsString} {res : Response}

/-- A line that begins like an error is an error, or no response. -/
theorem parseResponse_of_head {line : JsString} (h : line.head? = some (.char 'E')) :
    (∃ message, parseResponse num (dropCr line) = .ok (.err message)) ∨
      ∃ e, parseResponse num (dropCr line) = .error e := by
  have hhead : (trim (dropCr line)).head? = some (.char 'E') :=
    trim_head? (dropCr_head? h (by decide)) (by decide)
  unfold parseResponse
  cases htrim : trim (dropCr line) with
  | nil =>
    rw [htrim] at hhead
    cases hhead
  | cons c rest =>
    rw [htrim] at hhead
    obtain rfl : c = 'E' := Option.some.inj hhead
    simp only [parseTrimmed, js, String.reduceToList, List.map_cons, List.map_nil,
      List.cons.injEq, JsChar.char.injEq, Char.reduceEq, false_and, if_false,
      List.isPrefixOf_cons_cons, JsChar.char_beq, Char.reduceBEq, Bool.false_and, Bool.true_and,
      Bool.false_eq_true]
    split_ifs
    · exact Or.inl ⟨_, rfl⟩
    · exact Or.inr ⟨_, rfl⟩

/-- It settles no command with `OK` or `INT …`. -/
theorem dispatchResponse_of_head {line : JsString} (h : line.head? = some (.char 'E')) (b : Bool)
    (hres : dispatchResponse num b (dropCr line) = .ok res) : ∃ message, res = .err message := by
  unfold dispatchResponse at hres
  rcases parseResponse_of_head h with ⟨message, hparse⟩ | ⟨e, hparse⟩
  · rw [hparse] at hres
    cases b with
    | false => exact ⟨message, (Except.ok.inj hres).symm⟩
    | true => cases hres
  · rw [hparse] at hres
    cases hres

/-- A method fails on a text that begins like an error. -/
theorem result_of_head (h : text.head? = some (.char 'E')) :
    ∃ e, op.result num text = .error e := by
  have hline : (firstLine text).head? = some (.char 'E') := firstLine_head? h (by decide)
  rw [ClientOp.result, dispatchResponse]
  rcases @parseResponse_of_head num _ hline with ⟨message, hparse⟩ | ⟨e, hparse⟩
  · rw [hparse]
    exact ⟨_, rfl⟩
  · rw [hparse]
    exact ⟨_, rfl⟩

theorem result_of_read (h : readResponse num text = .ok res) (hres : ∀ m, res ≠ .err m) :
    op.result num text = op.accept res := by
  have hparse : parseResponse num (dropCr (firstLine text)) = .ok res := h
  rw [ClientOp.result, dispatchResponse, hparse]
  cases res with
  | err m => exact absurd rfl (hres m)
  | ok | pong | nil | int n | str v => rfl

theorem result_of_err (h : readResponse num text = .ok (.err message)) :
    op.result num text = .error ⟨.serverError, message⟩ := by
  have hparse : parseResponse num (dropCr (firstLine text)) = .ok (.err message) := h
  rw [ClientOp.result, dispatchResponse, hparse]
  rfl

/-- A method fails on an error that is read back as it was written. -/
theorem result_encodeErr (h : Tidy message) :
    ∃ e, op.result num (encodeErr message) = .error e :=
  ⟨_, result_of_err ((framed_encodeErr message).read_eq.trans (answer_err h).parsed)⟩

end DistributedCache
