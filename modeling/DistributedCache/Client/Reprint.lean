import DistributedCache.Client.Commands
import DistributedCache.Protocol.Decoding
import DistributedCache.Replication.Engine

/-!
# Printing a response again

`executeRaw` of `packages/client/src/cache-client.js` returns a response as text, printed by
`responseToLine`. Two callers look at this text: the command line interface, which parses it, and
`#fanOut` of the replication engine, which looks at its first characters (`replyFailure`). Both see
the response that was received (`reprinted`).
-/

namespace DistributedCache

/-- `responseToLine`. -/
def responseToLine (num : Numerals) : Response → JsString
  | .ok => js "OK"
  | .pong => js "PONG"
  | .nil => js "NIL"
  | .int n => js "INT " ++ num.toText n
  | .str v => if v = [] then js "STR" else js "STR " ++ v
  | .err message => js "ERR " ++ message

/-- What `executeRaw` returns when its command is settled with a response line. -/
def executeRawResult (num : Numerals) (line : JsString) : Except ClientError JsString :=
  (dispatchResponse num false line).map (responseToLine num)

/-- The `switch` of `printResponse` in `apps/cache-node/src/cli.js`. -/
def Response.display (num : Numerals) : Response → JsString
  | .ok => js "OK"
  | .pong => js "PONG"
  | .nil => js "NIL"
  | .int n => js "(integer) " ++ num.toText n
  | .str v => js "\"" ++ v ++ js "\""
  | .err message => js "(error) " ++ message

/-- `printResponse`. -/
def printResponse (num : Numerals) (raw : JsString) : JsString :=
  match parseResponse num raw with
  | .ok res => res.display num
  | .error _ => raw

variable {num : Numerals} {res : Response} {line : JsString}

/-- A clean response is parsed back from what is printed for it. -/
theorem parse_responseToLine (h : res.Clean num) :
    parseResponse num (responseToLine num res) = .ok res := by
  cases res with
  | int n => exact parse_int h
  | str v =>
    have hv : trimEnd v = v := h
    rw [responseToLine]
    split_ifs with hnil
    · rw [hnil]
      rfl
    · rw [parse_str, hv]
  | err message =>
    obtain ⟨hne, hend⟩ : message ≠ [] ∧ trimEnd message = message := h
    rw [responseToLine, parse_err, hend, if_neg hne]
  | ok | pong | nil => rfl

/-- Only `OK` is printed as `OK`. -/
theorem responseToLine_eq_ok_iff : responseToLine num res = js "OK" ↔ res = .ok := by
  cases res with
  | str v =>
    rw [responseToLine]
    split_ifs <;> simp [js]
  | ok | pong | nil | int n | err message => simp [responseToLine, js]

/-- Only an `INT` is printed with `INT ` in front. -/
theorem responseToLine_int_iff :
    (js "INT ").isPrefixOf (responseToLine num res) = true ↔ ∃ n, res = .int n := by
  cases res with
  | str v =>
    rw [responseToLine]
    split_ifs <;> simp [js]
  | ok | pong | nil | int n | err message => simp [responseToLine, js]

theorem replyFailure_eq_none_iff :
    replyFailure line = none ↔ line = js "OK" ∨ (js "INT ").isPrefixOf line = true := by
  unfold replyFailure
  split_ifs with h
  · rw [← not_or] at h
    exact ⟨fun hnone => (by cases hnone), fun hok => absurd hok h⟩
  · exact ⟨fun _ => not_not.1 fun hno => h (not_or.1 hno), fun _ => rfl⟩

/-- **A response that is printed again keeps its meaning.** For every response line, what
`executeRaw` returns is parsed as the same response; it is `OK`, or begins with `INT `, exactly for a response of
that type; so `#fanOut` takes exactly these two for a success, and the command line interface shows
the response that was received. -/
theorem reprinted (h : parseResponse num line = .ok res) :
    ∃ raw, executeRawResult num line = .ok raw ∧ parseResponse num raw = .ok res ∧
      (raw = js "OK" ↔ res = .ok) ∧
      ((js "INT ").isPrefixOf raw = true ↔ ∃ n, res = .int n) ∧
      (replyFailure raw = none ↔ res = .ok ∨ ∃ n, res = .int n) ∧
      printResponse num raw = res.display num := by
  have hparse := parse_responseToLine (parse_clean h)
  refine ⟨responseToLine num res, ?_, hparse, responseToLine_eq_ok_iff, responseToLine_int_iff,
    ?_, ?_⟩
  · rw [executeRawResult, dispatchResponse, h]
    cases res <;> rfl
  · rw [replyFailure_eq_none_iff, responseToLine_eq_ok_iff, responseToLine_int_iff]
  · rw [printResponse, hparse]

/-- A value that looks like a success, with white space around it. -/
theorem reprinted_example : ∃ raw,
    executeRawResult decimalNumerals (js " STR  INT 1 ") = .ok raw ∧
      parseResponse decimalNumerals raw = .ok (.str (js " INT 1")) ∧ replyFailure raw ≠ none := by
  have hparse : parseResponse decimalNumerals (js " STR  INT 1 ") = .ok (.str (js " INT 1")) := by
    decide
  obtain ⟨raw, hraw, hagain, -, -, hfailure, -⟩ := reprinted hparse
  refine ⟨raw, hraw, hagain, fun hnone => ?_⟩
  rcases hfailure.1 hnone with h | ⟨n, h⟩ <;> cases h

end DistributedCache
