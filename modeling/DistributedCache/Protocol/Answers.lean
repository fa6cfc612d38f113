import DistributedCache.Protocol.Responses

/-!
# Answers

A response is written by the function of its type (`Response.encode`). It is one line, and
`parseResponse` reads it back as the response it was written from (`Answer`): always for `OK`,
`PONG` and `NIL`, for an `INT` that is a number, for a `STR` without white space, and for an `ERR`
with a tidy message.
-/

namespace DistributedCache

/-- The line of a response. -/
def Response.encode (num : Numerals) : Response → Except JsString JsString
  | .ok => .ok encodeOk
  | .pong => .ok encodePong
  | .nil => .ok encodeNil
  | .int n => encodeInt num (.int n)
  | .str v => encodeStr v
  | .err message => .ok (encodeErr message)

/-- A text with exactly one newline, at its end. -/
def Framed (reply : JsString) : Prop := ∃ body, reply = body ++ newline ∧ .char '\n' ∉ body

/-- A message without line breaks whose last character is not white space. -/
def Tidy (message : JsString) : Prop :=
  message.any isLineBreak = false ∧ message.getLast?.any (fun c => !isSpace c) = true

instance (message : JsString) : Decidable (Tidy message) := inferInstanceAs (Decidable (_ ∧ _))

/-- The reply is one line, and it is parsed as the response it was written from. -/
structure Answer (num : Numerals) (response : Response) (reply : JsString) : Prop where
  encoded : response.encode num = .ok reply
  parsed : parseResponse num reply = .ok response
  framed : Framed reply

variable {num : Numerals} {s t reply : JsString} {response : Response}

theorem Tidy.append (hs : s.any isLineBreak = false) (ht : Tidy t) : Tidy (s ++ t) := by
  obtain ⟨hbreak, hlast⟩ := ht
  refine ⟨by rw [List.any_append, hs, hbreak]; rfl, ?_⟩
  cases hc : t.getLast? with
  | none =>
    rw [hc] at hlast
    cases hlast
  | some c =>
    rw [List.getLast?_append, hc]
    rwa [hc] at hlast

theorem newline_notMem_of_any (h : s.any isLineBreak = false) : .char '\n' ∉ s := by
  intro hmem
  exact absurd (List.any_eq_false.1 h _ hmem) (by decide)

/-! ### One line -/

/-- Joining lines leaves no newline behind. -/
theorem newline_notMem_joinLines (s : JsString) : .char '\n' ∉ joinLines s := by
  induction s with
  | nil => exact List.not_mem_nil
  | cons c s ih =>
    rw [joinLines]
    split_ifs with hbreak hnext
    · exact ih
    · rw [List.mem_cons, not_or]
      exact ⟨by decide, ih⟩
    · rw [List.mem_cons, not_or]
      refine ⟨?_, ih⟩
      rintro rfl
      exact hbreak (by decide)

/-- A text without line breaks is joined to itself. -/
theorem joinLines_eq_self (h : s.any isLineBreak = false) : joinLines s = s := by
  induction s with
  | nil => rfl
  | cons c s ih =>
    rw [List.any_cons, Bool.or_eq_false_iff] at h
    rw [joinLines, h.1, ih h.2]
    rfl

theorem framed_encodeErr (message : JsString) : Framed (encodeErr message) := by
  refine ⟨js "ERR " ++ joinLines message, rfl, fun hmem => ?_⟩
  rcases List.mem_append.1 hmem with hmem | hmem
  · exact absurd hmem (by decide)
  · exact newline_notMem_joinLines message hmem

/-- What a client reads from one line is what `parseResponse` makes of it. -/
theorem Framed.read_eq (h : Framed reply) : readResponse num reply = parseResponse num reply := by
  obtain ⟨body, rfl, hbody⟩ := h
  rw [readResponse, firstLine_append_newline hbody, parseResponse, parseResponse, trim_dropCr,
    trim_newline]

/-! ### What is read back -/

theorem answer_ok : Answer num .ok encodeOk where
  encoded := rfl
  parsed := by
    have hframed : Framed encodeOk := ⟨js "OK", rfl, by decide⟩
    exact hframed.read_eq.symm.trans read_ok
  framed := ⟨js "OK", rfl, by decide⟩

theorem answer_pong : Answer num .pong encodePong where
  encoded := rfl
  parsed := by
    have hframed : Framed encodePong := ⟨js "PONG", rfl, by decide⟩
    exact hframed.read_eq.symm.trans (read_unwords (line_singleton (by decide)))
  framed := ⟨js "PONG", rfl, by decide⟩

theorem answer_nil : Answer num .nil encodeNil where
  encoded := rfl
  parsed := by
    have hframed : Framed encodeNil := ⟨js "NIL", rfl, by decide⟩
    exact hframed.read_eq.symm.trans read_nil
  framed := ⟨js "NIL", rfl, by decide⟩

theorem answer_int {n : ℤ} (h : num.IsNumber n) :
    ∃ text, encodeInt num (.int n) = .ok text ∧ Answer num (.int n) text := by
  obtain ⟨text, htext, hread⟩ := read_int h
  have hframed : Framed text := by
    cases htext
    refine ⟨js "INT " ++ num.toText n, rfl, fun hmem => ?_⟩
    rcases List.mem_append.1 hmem with hmem | hmem
    · exact absurd hmem (by decide)
    · exact absurd ((num.toText_isToken n h).2 _ hmem).1 (by decide)
  exact ⟨text, htext, htext, hframed.read_eq.symm.trans hread, hframed⟩

theorem answer_str {v : JsString} (h : Dark v) :
    ∃ text, encodeStr v = .ok text ∧ Answer num (.str v) text := by
  obtain ⟨text, htext, hread⟩ := read_str h
  have hbreak := any_isLineBreak_of_dark fun c hc => (h c hc).1
  have hframed : Framed text := by
    rw [encodeStr, hbreak] at htext
    cases htext
    refine ⟨js "STR " ++ v, rfl, fun hmem => ?_⟩
    rcases List.mem_append.1 hmem with hmem | hmem
    · exact absurd hmem (by decide)
    · exact newline_notMem_of_any hbreak hmem
  exact ⟨text, htext, htext, hframed.read_eq.symm.trans hread, hframed⟩

theorem isWellFormed_encodeInt {n : ℤ} {text : JsString} (h : num.IsNumber n)
    (htext : encodeInt num (.int n) = .ok text) : IsWellFormed text := by
  cases htext
  exact (IsWellFormed.append (by decide) (num.toText_isWellFormed n h)).append (by decide)

theorem isWellFormed_encodeStr {v text : JsString} (h : IsWellFormed v)
    (htext : encodeStr v = .ok text) : IsWellFormed text := by
  unfold encodeStr at htext
  split_ifs at htext
  cases htext
  exact (IsWellFormed.append (by decide) h).append (by decide)

theorem isLineBreak_toWellFormed (c : JsChar) : isLineBreak c.toWellFormed = isLineBreak c := by
  cases c with
  | char c => rfl
  | surrogate n =>
    rw [JsChar.toWellFormed]
    exact (by decide : isLineBreak (.char '\uFFFD') = false)

theorem Tidy.toWellFormed (h : Tidy s) : Tidy (toWellFormed s) := by
  obtain ⟨hbreak, hlast⟩ := h
  have hline : isLineBreak ∘ JsChar.toWellFormed = isLineBreak := funext isLineBreak_toWellFormed
  constructor
  · rw [DistributedCache.toWellFormed, List.any_map, hline]
    exact hbreak
  · rw [DistributedCache.toWellFormed, List.getLast?_map, Option.any_map]
    simp only [isSpace_toWellFormed]
    exact hlast

/-- An error arrives as the error with the message that arrives. -/
theorem toWellFormed_encodeErr (h : Tidy s) :
    toWellFormed (encodeErr s) = encodeErr (toWellFormed s) := by
  rw [encodeErr, encodeErr, joinLines_eq_self h.1, joinLines_eq_self h.toWellFormed.1,
    toWellFormed_append, toWellFormed_append, toWellFormed_js]
  rfl

/-- One line arrives as one line. -/
theorem Framed.toWellFormed (h : Framed reply) : Framed (toWellFormed reply) := by
  obtain ⟨body, rfl, hbody⟩ := h
  exact ⟨_, toWellFormed_append _ _, newline_notMem_toWellFormed hbody⟩

/-- Nothing is trimmed between two characters that are no white space. -/
theorem trim_between {c d : JsChar} (hc : isSpace c = false) (hd : isSpace d = false)
    (s : JsString) : trim (c :: (s ++ [d])) = c :: (s ++ [d]) := by
  have hdrop : (c :: (s ++ [d])).dropWhile isSpace = c :: (s ++ [d]) :=
    List.dropWhile_cons_of_neg (by rw [hc]; exact Bool.false_ne_true)
  rw [trim, hdrop, trimEnd, ← List.cons_append, List.rdropWhile_concat_neg]
  rw [hd]
  exact Bool.false_ne_true

/-- **A tidy message is read back as it was written.** -/
theorem answer_err {message : JsString} (h : Tidy message) :
    Answer num (.err message) (encodeErr message) where
  encoded := rfl
  parsed := by
    obtain ⟨hbreak, hlast⟩ := h
    cases hd : message.getLast? with
    | none =>
      rw [hd] at hlast
      cases hlast
    | some d =>
      rw [hd] at hlast
      obtain ⟨init, rfl⟩ := List.getLast?_eq_some_iff.1 hd
      have htrim : trim (js "ERR " ++ (init ++ [d])) = js "ERR " ++ (init ++ [d]) := by
        have hbetween := trim_between (c := 'E') (d := d) (by decide) (by simpa using hlast)
          (js "RR " ++ init)
        rwa [List.append_assoc] at hbetween
      rw [encodeErr, joinLines_eq_self hbreak, parseResponse, trim_newline, htrim]
      simp [parseTrimmed, js]
  framed := framed_encodeErr message

end DistributedCache
