import DistributedCache.Protocol.RoundTrip

/-!
# Reading a response

A response is one line, so what a reader cuts at the first newline is the response without its
terminator. A response whose payload is a number or a word is read back as what was encoded; a
payload with white space around it need not be, since `parseResponse` trims the line.

* `firstLine`, `readResponse`: a response as it reaches `parseResponse`;
* `read_ok`, `read_nil`, `read_int`, `read_str`.
-/

namespace DistributedCache

/-- The text up to the first newline. -/
def firstLine (text : JsString) : JsString := text.takeWhile (· ≠ '\n')

/-- The response that a client reads from a text. -/
def readResponse (num : Numerals) (text : JsString) : Except JsString Response :=
  parseResponse num (dropCr (firstLine text))

variable {num : Numerals} {ws : List JsString} {v : JsString}

theorem firstLine_append_newline {s : JsString} (h : .char '\n' ∉ s) :
    firstLine (s ++ newline) = s := by
  unfold firstLine newline
  rw [List.takeWhile_append_of_pos]
  · simp
  · intro c hc
    exact decide_eq_true fun heq => h (heq ▸ hc)

theorem firstLine_head? {s : JsString} {c : JsChar} (h : s.head? = some c) (hc : c ≠ '\n') :
    (firstLine s).head? = some c := by
  cases s with
  | nil => cases h
  | cons d s =>
    cases h
    rw [firstLine, List.takeWhile_cons_of_pos (by simpa using hc)]
    rfl

theorem firstLine_unwords (h : Line ws) : firstLine (unwords ws ++ newline) = unwords ws :=
  firstLine_append_newline (newline_notMem_unwords h)

/-- A response made of tokens is parsed as it stands. -/
theorem read_unwords (h : Line ws) :
    readResponse num (unwords ws ++ newline) = parseTrimmed num (unwords ws) := by
  rw [readResponse, firstLine_unwords h, dropCr_unwords h, parseResponse, trim_unwords h]

theorem read_ok : readResponse num encodeOk = .ok .ok :=
  read_unwords (line_singleton (by decide))

theorem read_nil : readResponse num encodeNil = .ok .nil :=
  read_unwords (line_singleton (by decide))

theorem read_int {n : ℤ} (h : num.IsNumber n) : ∃ text, encodeInt num (.int n) = .ok text ∧
    readResponse num text = .ok (.int n) := by
  refine ⟨_, rfl, ?_⟩
  have hline : Line [js "INT", num.toText n] :=
    (line_singleton (num.toText_isToken n h)).cons (by decide)
  have htext : unwords [js "INT", num.toText n] = js "INT " ++ num.toText n := by
    simp [unwords, js]
  have hread := @read_unwords num _ hline
  rw [htext] at hread
  rw [hread]
  simp [parseTrimmed, js, num.toNumber_toText n h]

/-- A line break is white space. -/
theorem isLineBreak_of_dark {c : JsChar} (h : isSpace c = false) : isLineBreak c = false := by
  unfold isLineBreak
  rw [Bool.or_eq_false_iff]
  constructor
  all_goals
    refine beq_false_of_ne fun hc => ?_
    rw [hc] at h
    exact absurd h (by decide)

/-- Characters without white space contain no line break. -/
theorem any_isLineBreak_of_dark (h : ∀ c ∈ v, isSpace c = false) : v.any isLineBreak = false :=
  List.any_eq_false.2 fun c hc => Bool.eq_false_iff.1 (isLineBreak_of_dark (h c hc))

theorem read_str (h : Dark v) : ∃ text, encodeStr v = .ok text ∧
    readResponse num text = .ok (.str v) := by
  have hbreak := any_isLineBreak_of_dark fun c hc => (h c hc).1
  refine ⟨js "STR " ++ v ++ newline, by rw [encodeStr, hbreak]; rfl, ?_⟩
  by_cases hv : v = []
  · -- the blank after `STR` is trimmed away
    subst hv
    rfl
  · have hline : Line [js "STR", v] := (line_singleton ⟨hv, h⟩).cons (by decide)
    have htext : unwords [js "STR", v] = js "STR " ++ v := by simp [unwords, js]
    have hread := @read_unwords num _ hline
    rw [htext] at hread
    rw [hread]
    simp [parseTrimmed, js]

end DistributedCache
