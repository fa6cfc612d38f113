import DistributedCache.Node.Mutation

/-!
# Commands and the lines that carry them

A command that a line can carry is read back from its own line, on its own and inside a `REPL`
(`Command.roundTrip`, `parse_formatReplCommand`). Whatever is accepted is such a command, so parsing
and printing are inverse to each other wherever they succeed (`codec_round_trip`).
-/

namespace DistributedCache

variable {num : Numerals} {m : InnerCommand}

theorem parseCommand_newline (s : JsString) : parseCommand num (s ++ newline) = parseCommand num s := by
  simp only [parseCommand, trim_newline]

/-- The words of a command that is not a `REPL`. -/
def Command.words (num : Numerals) : Command → List JsString
  | .ping => [js "PING"]
  | .keyed name key => [name.text, key]
  | .set cmd => js "SET" :: setWords num cmd
  | .repl inner => replWords num inner

/-- A command that a client can send. -/
def Command.Plain : Command → Prop
  | .repl _ => False
  | _ => True

theorem Command.words_line {c : Command} (hw : c.WellFormed num) : Line (c.words num) := by
  cases c with
  | ping => exact line_singleton (by decide)
  | keyed name key => exact (line_singleton hw).cons (by cases name <;> decide)
  | set cmd => exact (setWords_line hw.printable).cons (by decide)
  | repl inner => exact replWords_line hw

/-- `formatCommand` writes the words of the command on a line. -/
theorem formatCommand_eq {c : Command} (hplain : c.Plain) :
    formatCommand num c = .ok (unwords (c.words num) ++ newline) := by
  have hspace : js " " = [.char ' '] := rfl
  cases c with
  | ping => rfl
  | keyed name key => simp [formatCommand, Command.words, unwords, hspace]
  | set cmd => exact congrArg Except.ok (formatSet_eq cmd)
  | repl inner => exact absurd hplain id

theorem Command.parse_unwords {c : Command} (hplain : c.Plain) (hw : c.WellFormed num) :
    parseCommand num (unwords (c.words num)) = .ok c := by
  cases c with
  | ping => exact parseCommand_unwords (line_singleton (by decide))
  | keyed name key => exact parse_keyed name hw
  | set cmd => exact parse_set hw
  | repl inner => exact absurd hplain id

/-- The line of a command: one line, and it is read back as the command. -/
def RoundTrip (num : Numerals) (c : Command) : Prop :=
  ∃ text, formatCommand num c = .ok (text ++ newline) ∧ .char '\n' ∉ text ∧
    parseCommand num (text ++ newline) = .ok c

/-- **A plain command that a line can carry is read back from its line.** -/
theorem Command.roundTrip {c : Command} (hplain : c.Plain) (hw : c.WellFormed num) :
    RoundTrip num c :=
  ⟨unwords (c.words num), formatCommand_eq hplain, newline_notMem_unwords (c.words_line hw), by
    rw [parseCommand_newline, Command.parse_unwords hplain hw]⟩

/-- **A mutation is read back from its `REPL` line**, `DELETE` as `DEL`. -/
theorem parse_formatReplCommand (hw : m.WellFormed num) :
    parseCommand num (formatReplCommand num m) = .ok (.repl m.normal) := by
  rw [formatReplCommand_eq hw, parseCommand_newline, ← replLine_eq hw, parse_replLine hw]

/-- **Printing and parsing are inverse to each other.** A plain command that was accepted, and every
`PING`, every command on a token and every `SET` of a token with a value that is a token or empty and
with no or positive seconds, is read back from the single line it is printed on. A `REPL` that was
accepted, and every `SET`, `DEL` or `DELETE` of that kind, is read back from its `REPL` line, and so
it is after the line has been trimmed on its way to a peer. -/
theorem codec_round_trip (num : Numerals) :
    (∀ line c, parseCommand num line = .ok c → c.Plain → RoundTrip num c) ∧
    (∀ line inner, parseCommand num line = .ok (.repl inner) →
      parseCommand num (formatReplCommand num inner) = .ok (.repl inner.normal)) ∧
    RoundTrip num .ping ∧
    (∀ name key, IsToken key → RoundTrip num (.keyed name key)) ∧
    (∀ cmd : SetCommand, IsToken cmd.key → cmd.value = [] ∨ IsToken cmd.value →
      (∀ n, cmd.ex = some n → 0 < n ∧ num.IsNumber n) →
        RoundTrip num (.set cmd) ∧ parseCommand num (replLine num (.set cmd)) =
          .ok (.repl (.set cmd))) ∧
    (∀ key, IsToken key → parseCommand num (replLine num (.del key)) = .ok (.repl (.del key))) := by
  refine ⟨?_, ?_, ?_, ?_, ?_, ?_⟩
  · intro line c hparse hplain
    exact Command.roundTrip hplain (wellFormed_of_parse hparse)
  · intro line inner hparse
    have hw : Command.WellFormed num (.repl inner) := wellFormed_of_parse hparse
    exact parse_formatReplCommand hw
  · exact Command.roundTrip trivial trivial
  · intro name key hkey
    exact Command.roundTrip trivial hkey
  · intro cmd hkey hvalue hex
    have hdark : Dark cmd.value := by
      rcases hvalue with hnil | htoken
      · rw [hnil]
        exact fun _ h => nomatch h
      · exact htoken.2
    have hw : cmd.WellFormed num := ⟨hkey, hdark, hex⟩
    exact ⟨Command.roundTrip trivial hw, parse_replLine (m := .set cmd) hw⟩
  · intro key hkey
    exact parse_replLine (m := .del key) hkey

end DistributedCache
