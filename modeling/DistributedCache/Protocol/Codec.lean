import DistributedCache.Js.Numerals

/-!
# The wire protocol

`packages/protocol/src/codec.js`: one command per line, words separated by white space, and one
response line for each command. Everything that reads or prints a number takes the numerals `num` of
the JavaScript engine.

* `Command`, `parseCommand`, `formatCommand`, `formatReplCommand`;
* `Response`, the `encode…` functions and `parseResponse`.

An error is the message of the `ProtocolError` thrown.
-/

namespace DistributedCache

/-- The commands that take just a key. -/
inductive KeyedName
  | get
  | del
  | delete
  | existsKey
  | ttl
  deriving DecidableEq, Repr

/-- The name of a command on the wire. -/
def KeyedName.text : KeyedName → JsString
  | .get => js "GET"
  | .del => js "DEL"
  | .delete => js "DELETE"
  | .existsKey => js "EXISTS"
  | .ttl => js "TTL"

/-- The command with a given name. -/
def KeyedName.ofText (name : JsString) : Option KeyedName :=
  [.get, .del, .delete, .existsKey, .ttl].find? fun n => n.text = name

/-- `SetCommand`. -/
structure SetCommand where
  key : JsString
  value : JsString
  ex : Option ℤ
  deriving DecidableEq, Repr

/-- The inner command of a `REPL`: a `SetCommand` or a `DelCommand`. -/
inductive InnerCommand
  | set (cmd : SetCommand)
  | del (key : JsString)
  | delete (key : JsString)
  deriving DecidableEq, Repr

/-- `Command`. -/
inductive Command
  | ping
  | keyed (name : KeyedName) (key : JsString)
  | set (cmd : SetCommand)
  | repl (inner : InnerCommand)
  deriving DecidableEq, Repr

/-! ### Parsing a command -/

/-- `assertToken`. -/
def assertToken (token label : JsString) : Except JsString Unit :=
  if token = [] then .error (label ++ js " must not be empty") else .ok ()

/-- The check of the seconds after `EX`. -/
def parseSeconds (num : Numerals) (s : JsString) : Except JsString ℤ :=
  match num.toNumber s with
  | .int seconds =>
      if seconds ≤ 0 then .error (js "EX seconds must be a positive integer") else .ok seconds
  | _ => .error (js "EX seconds must be a positive integer")

/-- `parseSet`; the first part is the name. -/
def parseSet (num : Numerals) (parts : List JsString) : Except JsString SetCommand :=
  match parts with
  | [_, key] => do
      assertToken key (js "key")
      return ⟨key, [], none⟩
  | [_, key, value] => do
      assertToken key (js "key")
      assertToken value (js "value")
      return ⟨key, value, none⟩
  | [_, key, option, seconds] =>
      if toUpperCase option = js "EX" then do
        assertToken key (js "key")
        let seconds ← parseSeconds num seconds
        return ⟨key, [], some seconds⟩
      else .error (js "wrong number of arguments for SET")
  | [_, key, value, option, seconds] =>
      if toUpperCase option = js "EX" then do
        assertToken key (js "key")
        assertToken value (js "value")
        let seconds ← parseSeconds num seconds
        return ⟨key, value, some seconds⟩
      else .error (js "wrong number of arguments for SET")
  | _ => .error (js "wrong number of arguments for SET")

/-- The `DEL` and `DELETE` branch of `parseRepl`. -/
def parseReplDel (innerName : JsString) (make : JsString → InnerCommand) (rest : List JsString) :
    Except JsString InnerCommand :=
  match rest with
  | [key] => do
      assertToken key (js "key")
      return make key
  | _ => .error (js "wrong number of arguments for REPL " ++ innerName)

/-- `parseRepl`; the first part is the name. -/
def parseRepl (num : Numerals) (parts : List JsString) : Except JsString InnerCommand :=
  match parts with
  | _ :: inner :: rest =>
      let innerName := toUpperCase inner
      if innerName = js "SET" then (parseSet num (js "SET" :: rest)).map .set
      else if innerName = js "DEL" then parseReplDel innerName .del rest
      else if innerName = js "DELETE" then parseReplDel innerName .delete rest
      else .error (js "unknown REPL subcommand '" ++ inner ++ js "'")
  | _ => .error (js "wrong number of arguments for REPL")

/-- The branch of `parseCommand` for a command that takes just a key. -/
def parseKeyed (name : KeyedName) (parts : List JsString) : Except JsString Command :=
  match parts with
  | [_, key] => do
      assertToken key (js "key")
      return .keyed name key
  | _ => .error (js "wrong number of arguments for " ++ name.text)

/-- The `switch` of `parseCommand` on the words of the line. -/
def parseParts (num : Numerals) (parts : List JsString) : Except JsString Command :=
  let first := parts.headD []
  let name := toUpperCase first
  if name = js "PING" then
    if parts.length ≠ 1 then .error (js "wrong number of arguments for PING") else .ok .ping
  else match KeyedName.ofText name with
    | some keyed => parseKeyed keyed parts
    | none =>
        if name = js "SET" then (parseSet num parts).map .set
        else if name = js "REPL" then (parseRepl num parts).map .repl
        else .error (js "unknown command '" ++ first ++ js "'")

/-- `parseCommand`. -/
def parseCommand (num : Numerals) (line : JsString) : Except JsString Command :=
  let trimmed := trim line
  if trimmed = [] then .error (js "empty command")
  else if nul ∈ trimmed then .error (js "command contains NUL")
  else parseParts num (splitSpaces trimmed)

/-! ### Formatting a command -/

/-- The newline that ends every line on the wire. -/
def newline : JsString := [.char '\n']

/-- `formatCommand` on a `SetCommand`. -/
def formatSet (num : Numerals) (cmd : SetCommand) : JsString :=
  match cmd.ex with
  | some ex =>
      if cmd.value = [] then js "SET " ++ cmd.key ++ js " EX " ++ num.toText ex ++ newline
      else js "SET " ++ cmd.key ++ js " " ++ cmd.value ++ js " EX " ++ num.toText ex ++ newline
  | none =>
      if cmd.value = [] then js "SET " ++ cmd.key ++ newline
      else js "SET " ++ cmd.key ++ js " " ++ cmd.value ++ newline

/-- `formatCommand`. -/
def formatCommand (num : Numerals) : Command → Except JsString JsString
  | .ping => .ok (js "PING" ++ newline)
  | .keyed name key => .ok (name.text ++ js " " ++ key ++ newline)
  | .set cmd => .ok (formatSet num cmd)
  | .repl _ => .error (js "unknown command")

/-- `formatReplCommand`. -/
def formatReplCommand (num : Numerals) : InnerCommand → JsString
  | .set cmd => js "REPL " ++ trimEnd (formatSet num cmd) ++ newline
  | .del key | .delete key => js "REPL DEL " ++ key ++ newline

/-! ### Responses -/

/-- A parsed response. -/
inductive Response
  | ok
  | pong
  | nil
  | int (value : ℤ)
  | str (value : JsString)
  | err (message : JsString)
  deriving DecidableEq, Repr

/-- `encodeSimple('OK')`. -/
def encodeOk : JsString := js "OK" ++ newline

/-- `encodeSimple('PONG')`. -/
def encodePong : JsString := js "PONG" ++ newline

/-- `encodeNil`. -/
def encodeNil : JsString := js "NIL" ++ newline

/-- `encodeInt`. -/
def encodeInt (num : Numerals) : JsNumber → Except JsString JsString
  | .int n => .ok (js "INT " ++ num.toText n ++ newline)
  | _ => .error (js "INT payload must be an integer")

/-- A carriage return or a line feed. -/
def isLineBreak (c : JsChar) : Bool := c == '\r' || c == '\n'

/-- `encodeStr`. -/
def encodeStr (value : JsString) : Except JsString JsString :=
  if value.any isLineBreak then .error (js "STR payload must not contain newlines")
  else .ok (js "STR " ++ value ++ newline)

/-- `message.replace(/[\r\n]+/g, ' ')`: a run of line breaks is passed over until its last one. -/
def joinLines : JsString → JsString
  | [] => []
  | c :: s =>
      if isLineBreak c then
        if s.head?.any isLineBreak then joinLines s else .char ' ' :: joinLines s
      else c :: joinLines s

/-- `encodeErr`. -/
def encodeErr (message : JsString) : JsString := js "ERR " ++ joinLines message ++ newline

/-- `parseResponse` on a trimmed line. -/
def parseTrimmed (num : Numerals) (trimmed : JsString) : Except JsString Response :=
  if trimmed = js "OK" then .ok .ok
  else if trimmed = js "PONG" then .ok .pong
  else if trimmed = js "NIL" then .ok .nil
  else if (js "INT ").isPrefixOf trimmed then
    match num.toNumber (trimmed.drop 4) with
    | .int n => .ok (.int n)
    | _ => .error (js "invalid INT response")
  else if (js "STR ").isPrefixOf trimmed then .ok (.str (trimmed.drop 4))
  else if trimmed = js "STR" then .ok (.str [])
  else if (js "ERR ").isPrefixOf trimmed then .ok (.err (trimmed.drop 4))
  else .error (js "invalid response: " ++ trimmed)

/-- `parseResponse`. -/
def parseResponse (num : Numerals) (line : JsString) : Except JsString Response :=
  parseTrimmed num (trim line)

end DistributedCache
