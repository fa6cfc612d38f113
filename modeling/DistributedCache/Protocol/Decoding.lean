import DistributedCache.Protocol.Answers

/-!
# Decoding any response

`parseResponse` trims the line before it looks at it, so a payload loses the white space at its end and
nothing else (`parse_str`, `parse_err`); an `ERR` whose message is blank is no response. A response
whose payload does not end in white space (`Response.Clean`) is decoded as it was encoded, up to the
line breaks of an error message (`responses_decoded`), and what comes out of `parseResponse` is such a
response (`parse_clean`).
-/

namespace DistributedCache

/-- The response that a reader can hope for: an error message with its line breaks replaced. -/
def Response.joined : Response → Response
  | .err message => .err (joinLines message)
  | res => res

/-- What the encoders accept. -/
def Response.Encodable (num : Numerals) : Response → Prop
  | .int n => num.IsNumber n
  | .str v => v.any isLineBreak = false
  | _ => True

/-- The payload does not end in white space, and an error has a message. -/
def Response.Clean (num : Numerals) : Response → Prop
  | .int n => num.IsNumber n
  | .str v => trimEnd v = v
  | .err message => message ≠ [] ∧ trimEnd message = message
  | _ => True

/-- The line of a response without its newline. -/
def Response.line (num : Numerals) : Response → JsString
  | .ok => js "OK"
  | .pong => js "PONG"
  | .nil => js "NIL"
  | .int n => js "INT " ++ num.toText n
  | .str v => js "STR " ++ v
  | .err message => js "ERR " ++ joinLines message

variable {num : Numerals} {res res' : Response} {line : JsString}

theorem encode_eq (h : res.Encodable num) : res.encode num = .ok (res.line num ++ newline) := by
  cases res with
  | str v =>
    have hv : v.any isLineBreak = false := h
    rw [Response.encode, encodeStr, hv]
    rfl
  | ok | pong | nil | int n | err message => rfl

/-! ### What is decoded -/

/-- A word and what follows the blank after it. -/
theorem trimEnd_payload {w : JsString} (hw : IsToken w) (payload : JsString) :
    trimEnd (w ++ .char ' ' :: payload) =
      if trimEnd payload = [] then w else w ++ .char ' ' :: trimEnd payload := by
  have hblank : trimEnd (w ++ [.char ' ']) = w := by
    have hspace : trimEnd [.char ' '] = [] := by decide
    have hend := trimEnd_append_token (s := []) hw
    rwa [trimEnd_append, if_pos hspace]
  rw [List.append_cons, trimEnd_append, hblank]
  split_ifs
  · rfl
  · rw [List.append_assoc, List.singleton_append]

theorem trim_payload {w : JsString} (hw : IsToken w) (payload : JsString) :
    trim (w ++ .char ' ' :: payload) =
      if trimEnd payload = [] then w else w ++ .char ' ' :: trimEnd payload := by
  have hdrop : (w ++ .char ' ' :: payload).dropWhile isSpace = w ++ .char ' ' :: payload := by
    obtain ⟨c, t, rfl, hc⟩ := hw.exists_cons
    exact List.dropWhile_cons_of_neg (by rw [hc]; exact Bool.false_ne_true)
  rw [trim, hdrop, trimEnd_payload hw]

/-- **A `STR` loses the white space at the end of its payload.** -/
theorem parse_str (num : Numerals) (v : JsString) :
    parseResponse num (js "STR " ++ v) = .ok (.str (trimEnd v)) := by
  have htrim := trim_payload (w := js "STR") (by decide) v
  rw [parseResponse, show js "STR " ++ v = js "STR" ++ .char ' ' :: v from rfl, htrim]
  split_ifs with hblank
  · rw [hblank]
    rfl
  · simp [parseTrimmed, js]

/-- **An `ERR` does too, and a blank message makes it no response.** -/
theorem parse_err (num : Numerals) (message : JsString) :
    parseResponse num (js "ERR " ++ message) =
      if trimEnd message = [] then .error (js "invalid response: ERR")
      else .ok (.err (trimEnd message)) := by
  have htrim := trim_payload (w := js "ERR") (by decide) message
  rw [parseResponse, show js "ERR " ++ message = js "ERR" ++ .char ' ' :: message from rfl, htrim]
  split_ifs with hblank
  · rfl
  · simp [parseTrimmed, js]

theorem parse_int {n : ℤ} (h : num.IsNumber n) :
    parseResponse num (js "INT " ++ num.toText n) = .ok (.int n) := by
  have htrim := trim_eq_self (s := js "INT ") rfl (num.toText_isToken n h)
  rw [parseResponse, htrim]
  simp [parseTrimmed, js, num.toNumber_toText n h]

/-- **A clean response is decoded as it was encoded.** -/
theorem parse_line (h : res.joined.Clean num) :
    parseResponse num (res.line num) = .ok res.joined := by
  cases res with
  | int n => exact parse_int h
  | str v =>
    have hv : trimEnd v = v := h
    rw [Response.line, parse_str, hv]
    rfl
  | err message =>
    obtain ⟨hne, hend⟩ :
        joinLines message ≠ [] ∧ trimEnd (joinLines message) = joinLines message := h
    rw [Response.line, parse_err, hend, if_neg hne]
    rfl
  | ok | pong | nil => rfl

/-! ### Different responses, different lines -/

theorem line_inj (h : res.Encodable num) (h' : res'.Encodable num)
    (heq : res.line num = res'.line num) : res.joined = res'.joined := by
  -- the first characters tell the types apart
  cases res with
  | ok | pong | nil =>
    cases res' <;> first | rfl | simp [Response.line, js] at heq
  | int n =>
    cases res' with
    | int n' =>
      have htext : num.toText n = num.toText n' := List.append_cancel_left heq
      have hread := num.toNumber_toText n h
      rw [htext, num.toNumber_toText n' h', JsNumber.int.injEq] at hread
      rw [hread]
    | ok | pong | nil | str v | err message => simp [Response.line, js] at heq
  | str v =>
    cases res' with
    | str v' =>
      obtain rfl : v = v' :=
        List.append_cancel_left (show js "STR " ++ v = js "STR " ++ v' from heq)
      rfl
    | ok | pong | nil | int n | err message => simp [Response.line, js] at heq
  | err message =>
    cases res' with
    | err message' => exact congrArg Response.err (List.append_cancel_left heq)
    | ok | pong | nil | int n | str v => simp [Response.line, js] at heq

/-- **Decoding undoes encoding.** Every response the encoders accept is written as one line; if its
payload does not end in white space, that line is decoded as the response itself, an error message
with its line breaks replaced; and no other response is written as the same line, except an error
whose message is the same after that replacement. -/
theorem responses_decoded (h : res.Encodable num) :
    ∃ line, res.encode num = .ok (line ++ newline) ∧
      (res.joined.Clean num → parseResponse num line = .ok res.joined) ∧
      ∀ res' : Response, res'.Encodable num → res'.encode num = res.encode num →
        res'.joined = res.joined := by
  refine ⟨res.line num, encode_eq h, parse_line, fun res' h' heq => ?_⟩
  rw [encode_eq h, encode_eq h', Except.ok.injEq] at heq
  exact line_inj h' h (List.append_cancel_right heq)

/-- A payload may begin with white space and look like another response. -/
theorem responses_decoded_example :
    (Response.str (js " OK")).Clean decimalNumerals ∧ ∃ line,
      encodeStr (js " OK") = .ok (line ++ newline) ∧
      parseResponse decimalNumerals line = .ok (.str (js " OK")) := by
  have hencodable : (Response.str (js " OK")).Encodable decimalNumerals :=
    show (js " OK").any isLineBreak = false by decide
  obtain ⟨line, hline, hparse, -⟩ := responses_decoded hencodable
  have hclean : (Response.str (js " OK")).Clean decimalNumerals :=
    show trimEnd (js " OK") = js " OK" by decide
  exact ⟨hclean, line, hline, hparse hclean⟩

/-- A payload loses a blank at its end, a blank message makes no response, and two messages have one
encoding. -/
theorem responses_altered :
    (encodeStr (js "a ") = .ok (js "STR a " ++ newline) ∧
      parseResponse decimalNumerals (js "STR a ") = .ok (.str (js "a"))) ∧
    (encodeErr (js "a\n") = js "ERR a " ++ newline ∧
      parseResponse decimalNumerals (js "ERR a ") = .ok (.err (js "a"))) ∧
    (encodeErr [] = js "ERR " ++ newline ∧
      parseResponse decimalNumerals (js "ERR ") = .error (js "invalid response: ERR")) ∧
    encodeErr (js "a\nb") = encodeErr (js "a b") := by
  decide

/-! ### What comes out of `parseResponse` -/

/-- What follows the first blank of a trimmed line. -/
theorem payload_clean {w payload : JsString} (hw : IsToken w)
    (h : trim line = w ++ .char ' ' :: payload) : payload ≠ [] ∧ trimEnd payload = payload := by
  have hend := trimEnd_trim line
  rw [h, trimEnd_payload hw] at hend
  split_ifs at hend with hblank
  · simp at hend
  · have hpayload := (List.cons.inj (List.append_cancel_left hend)).2
    rw [hpayload] at hblank
    exact ⟨hblank, hpayload⟩

/-- **A decoded response is clean.** -/
theorem parse_clean (h : parseResponse num line = .ok res) : res.Clean num := by
  have payload {w : JsString} (hw : IsToken w) (hstart : (w ++ js " ").isPrefixOf (trim line)) :
      (trim line).drop (w.length + 1) ≠ [] ∧
        trimEnd ((trim line).drop (w.length + 1)) = (trim line).drop (w.length + 1) := by
    obtain ⟨rest, hrest⟩ := List.isPrefixOf_iff_prefix.1 hstart
    have hdrop : (trim line).drop (w.length + 1) = rest := by
      rw [← hrest]
      exact List.drop_left' (by rw [List.length_append]; rfl)
    rw [hdrop]
    have hline : trim line = w ++ .char ' ' :: rest := by
      rw [← hrest, List.append_assoc]
      rfl
    exact payload_clean hw hline
  unfold parseResponse parseTrimmed at h
  split_ifs at h with hok hpong hnil hint hstr hempty herr
  · cases h
    trivial
  · cases h
    trivial
  · cases h
    trivial
  · split at h
    · rename_i n hn
      cases h
      exact num.isNumber_of_toNumber _ n hn
    · cases h
  · cases h
    exact (payload (w := js "STR") (by decide) hstr).2
  · cases h
    exact rfl
  · cases h
    exact payload (w := js "ERR") (by decide) herr

end DistributedCache
