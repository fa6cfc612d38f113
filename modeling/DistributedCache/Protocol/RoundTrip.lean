import DistributedCache.Lib.Result
import DistributedCache.Protocol.Codec

/-!
# Lines and the words they are made of

A command is written as its words joined by single spaces (`formatSet_eq`, `formatReplCommand_eq`),
and a line of tokens is taken apart into exactly these words (`parseCommand_unwords`). So a
well-formed command is read back from its own line (`parse_set`, `parse_keyed`, `parse_repl_set`,
`parse_repl_del`), and conversely whatever `parseCommand` accepts is made of the words of the line
(`made_of_parse`) and well formed (`wellFormed_of_parse`).
-/

namespace DistributedCache

/-- Words joined by single spaces. -/
def unwords : List JsString → JsString
  | [] => []
  | [w] => w
  | w :: ws => w ++ .char ' ' :: unwords ws

variable {num : Numerals} {w : JsString} {ws : List JsString}

theorem unwords_cons (h : ws ≠ []) : unwords (w :: ws) = w ++ .char ' ' :: unwords ws := by
  cases ws with
  | nil => exact absurd rfl h
  | cons v vs => rfl

/-- A line of tokens: at least one. -/
def Line (ws : List JsString) : Prop := ws ≠ [] ∧ ∀ w ∈ ws, IsToken w

instance (ws : List JsString) : Decidable (Line ws) := inferInstanceAs (Decidable (_ ∧ _))

theorem Line.tail {v : JsString} {vs : List JsString} (h : Line (w :: v :: vs)) : Line (v :: vs) :=
  ⟨List.cons_ne_nil v vs, fun u hu => h.2 u (List.mem_cons_of_mem w hu)⟩

theorem Line.cons (hw : IsToken w) (h : Line ws) : Line (w :: ws) := by
  refine ⟨List.cons_ne_nil w ws, fun u hu => ?_⟩
  rcases List.mem_cons.1 hu with rfl | hu
  · exact hw
  · exact h.2 u hu

theorem line_singleton (hw : IsToken w) : Line [w] :=
  ⟨List.cons_ne_nil w [], fun _ hu => List.mem_singleton.1 hu ▸ hw⟩

/-- A line starts with a character of a token. -/
theorem head?_unwords (h : Line ws) : (unwords ws).head?.any isSpace = false := by
  cases ws with
  | nil => exact absurd rfl h.1
  | cons w ws =>
    have hw := h.2 w List.mem_cons_self
    cases ws with
    | nil => exact head?_any_of_isToken hw
    | cons v vs => exact head?_any_of_token hw

/-- A line ends in a token. -/
theorem unwords_eq_append (h : Line ws) : ∃ s w, IsToken w ∧ unwords ws = s ++ w ∧
    s.head?.any isSpace = false := by
  induction ws with
  | nil => exact absurd rfl h.1
  | cons w ws ih =>
    have hw := h.2 w List.mem_cons_self
    cases ws with
    | nil => exact ⟨[], w, hw, rfl, rfl⟩
    | cons v vs =>
      obtain ⟨s, u, hu, heq, -⟩ := ih h.tail
      refine ⟨w ++ .char ' ' :: s, u, hu, ?_, head?_any_of_token hw⟩
      rw [unwords_cons (List.cons_ne_nil v vs), heq, List.append_assoc, List.cons_append]

theorem trim_unwords (h : Line ws) : trim (unwords ws) = unwords ws := by
  obtain ⟨s, w, hw, heq, hs⟩ := unwords_eq_append h
  rw [heq, trim_eq_self hs hw]

theorem trimEnd_unwords (h : Line ws) : trimEnd (unwords ws) = unwords ws := by
  obtain ⟨s, w, hw, heq, -⟩ := unwords_eq_append h
  rw [heq, trimEnd_append_token hw]

theorem dropCr_unwords (h : Line ws) : dropCr (unwords ws) = unwords ws := by
  obtain ⟨s, w, hw, heq, -⟩ := unwords_eq_append h
  rw [heq, dropCr_append_token hw]

theorem trimEnd_newline (s : JsString) : trimEnd (s ++ newline) = trimEnd s :=
  List.rdropWhile_concat_pos isSpace s '\n' (by decide)

/-- Trimming does not see white space at the end of a line. -/
theorem trim_concat_space {c : JsChar} (h : isSpace c = true) (s : JsString) :
    trim (s ++ [c]) = trim s := by
  have hdrop : [c].dropWhile isSpace = [] := List.dropWhile_cons_of_pos h
  unfold trim
  rw [List.dropWhile_append, hdrop]
  split_ifs with hblank
  · rw [List.isEmpty_iff.1 hblank]
  · exact List.rdropWhile_concat_pos isSpace _ c h

theorem trim_newline (s : JsString) : trim (s ++ newline) = trim s :=
  trim_concat_space (by decide) s

theorem trim_dropCr (s : JsString) : trim (dropCr s) = trim s := by
  unfold dropCr
  split_ifs with hlast
  · obtain ⟨init, rfl⟩ := List.getLast?_eq_some_iff.1 hlast
    rw [List.dropLast_concat, trim_concat_space (by decide)]
  · rfl

theorem splitSpaces_unwords (h : Line ws) : splitSpaces (unwords ws) = ws := by
  induction ws with
  | nil => exact absurd rfl h.1
  | cons w ws ih =>
    have hw := h.2 w List.mem_cons_self
    cases ws with
    | nil => exact splitSpaces_dark hw.2
    | cons v vs =>
      rw [unwords_cons (List.cons_ne_nil v vs), splitSpaces_cons hw.2 (head?_unwords h.tail),
        ih h.tail]

theorem unwords_ne_nil (h : Line ws) : unwords ws ≠ [] := by
  obtain ⟨s, w, hw, heq, -⟩ := unwords_eq_append h
  rw [heq]
  exact fun h' => hw.1 (List.append_eq_nil_iff.1 h').2

/-- The characters of a line are spaces and characters of its tokens. -/
theorem mem_unwords {c : JsChar} (hc : c ∈ unwords ws) : c = ' ' ∨ ∃ w ∈ ws, c ∈ w := by
  induction ws with
  | nil => cases hc
  | cons w ws ih =>
    cases ws with
    | nil => exact Or.inr ⟨w, List.mem_cons_self, hc⟩
    | cons v vs =>
      rw [unwords_cons (List.cons_ne_nil v vs), List.mem_append, List.mem_cons] at hc
      rcases hc with hc | rfl | hc
      · exact Or.inr ⟨w, List.mem_cons_self, hc⟩
      · exact Or.inl rfl
      · rcases ih hc with h | ⟨u, hu, hcu⟩
        · exact Or.inl h
        · exact Or.inr ⟨u, List.mem_cons_of_mem w hu, hcu⟩

theorem nul_notMem_unwords (h : Line ws) : nul ∉ unwords ws := by
  intro hc
  rcases mem_unwords hc with hc | ⟨w, hw, hc⟩
  · exact absurd hc (by decide)
  · exact ((h.2 w hw).2 _ hc).2 rfl

theorem newline_notMem_unwords (h : Line ws) : .char '\n' ∉ unwords ws := by
  intro hc
  rcases mem_unwords hc with hc | ⟨w, hw, hc⟩
  · exact absurd hc (by decide)
  · exact absurd ((h.2 w hw).2 _ hc).1 (by decide)

/-- **A line of tokens is parsed by its words.** -/
theorem parseCommand_unwords (h : Line ws) : parseCommand num (unwords ws) = parseParts num ws := by
  simp only [parseCommand, trim_unwords h, if_neg (unwords_ne_nil h),
    if_neg (nul_notMem_unwords h), splitSpaces_unwords h]

/-- The bytes of a line: its tokens and the spaces between them. -/
theorem byteLength_unwords (h : ws ≠ []) :
    byteLength (unwords ws) + 1 = (ws.map fun w => byteLength w + 1).sum := by
  induction ws with
  | nil => exact absurd rfl h
  | cons w ws ih =>
    cases ws with
    | nil => rfl
    | cons v vs =>
      have hv := ih (List.cons_ne_nil v vs)
      have hspace : (JsChar.char ' ').utf8Size = 1 := by decide
      rw [unwords_cons (List.cons_ne_nil v vs), byteLength_append, byteLength_cons, hspace,
        List.map_cons, List.sum_cons, ← hv]
      omega

/-! ### Well-formed commands -/

/-- A `SET` that is written as a line of tokens. -/
structure SetCommand.Printable (num : Numerals) (cmd : SetCommand) : Prop where
  key : IsToken cmd.key
  value : Dark cmd.value
  ex : ∀ n, cmd.ex = some n → num.IsNumber n

/-- The parts of a `SET` that its line can carry. -/
structure SetCommand.WellFormed (num : Numerals) (cmd : SetCommand) : Prop where
  key : IsToken cmd.key
  value : Dark cmd.value
  ex : ∀ n, cmd.ex = some n → 0 < n ∧ num.IsNumber n

/-- An inner command that a line can carry. -/
def InnerCommand.WellFormed (num : Numerals) : InnerCommand → Prop
  | .set cmd => cmd.WellFormed num
  | .del key => IsToken key
  | .delete key => IsToken key

/-- A command that a line can carry. -/
def Command.WellFormed (num : Numerals) : Command → Prop
  | .ping => True
  | .keyed _ key => IsToken key
  | .set cmd => cmd.WellFormed num
  | .repl inner => inner.WellFormed num

/-- The words of a `SET` after its name. -/
def setWords (num : Numerals) (cmd : SetCommand) : List JsString :=
  cmd.key :: ((if cmd.value = [] then [] else [cmd.value]) ++
    match cmd.ex with
    | none => []
    | some n => [js "EX", num.toText n])

variable {cmd : SetCommand} {key : JsString}

theorem SetCommand.WellFormed.printable (h : cmd.WellFormed num) : cmd.Printable num :=
  ⟨h.key, h.value, fun n hn => (h.ex n hn).2⟩

theorem setWords_line (h : cmd.Printable num) : Line (setWords num cmd) := by
  refine ⟨List.cons_ne_nil _ _, fun w hw => ?_⟩
  rcases List.mem_cons.1 hw with rfl | hw
  · exact h.key
  · rcases List.mem_append.1 hw with hw | hw
    · split_ifs at hw with hv
      · cases hw
      · rw [List.mem_singleton.1 hw]
        exact ⟨hv, h.value⟩
    · cases hex : cmd.ex with
      | none =>
        rw [hex] at hw
        cases hw
      | some n =>
        rw [hex] at hw
        rcases List.mem_cons.1 hw with rfl | hw
        · decide
        · rw [List.mem_singleton.1 hw]
          exact num.toText_isToken n (h.ex n hex)

/-- `formatCommand` of a `SET` writes its words. -/
theorem formatSet_eq (cmd : SetCommand) :
    formatSet num cmd = unwords (js "SET" :: setWords num cmd) ++ newline := by
  have hspace : js " " = [.char ' '] := rfl
  have hset : js "SET " = js "SET" ++ [.char ' '] := rfl
  have hex : js " EX " = .char ' ' :: (js "EX" ++ [.char ' ']) := rfl
  unfold formatSet setWords
  cases cmd.ex <;> by_cases hv : cmd.value = [] <;>
    simp [hv, hspace, hset, hex, unwords]

/-- `formatReplCommand` of a `SET` writes its words after `REPL`. -/
theorem formatReplSet_eq (h : cmd.WellFormed num) : formatReplCommand num (.set cmd) =
    unwords (js "REPL" :: js "SET" :: setWords num cmd) ++ newline := by
  have hrepl : js "REPL " = js "REPL" ++ [.char ' '] := rfl
  have hline : Line (js "SET" :: setWords num cmd) := (setWords_line h.printable).cons (by decide)
  rw [formatReplCommand, formatSet_eq, trimEnd_newline, trimEnd_unwords hline,
    unwords_cons (List.cons_ne_nil _ _), hrepl]
  simp

/-- `formatReplCommand` of a `DEL` or `DELETE` writes `REPL DEL key`. -/
theorem formatReplDel_eq (key : JsString) : formatReplCommand num (.del key) =
    unwords [js "REPL", js "DEL", key] ++ newline := by
  have hrepl : js "REPL DEL " = js "REPL" ++ .char ' ' :: (js "DEL" ++ [.char ' ']) := rfl
  rw [formatReplCommand, hrepl]
  simp [unwords]

/-! ### Reading a command back -/

theorem assertToken_ok {label : JsString} (h : w ≠ []) : assertToken w label = .ok () := if_neg h

theorem parseSeconds_toText {n : ℤ} (hn : num.IsNumber n) (hpos : 0 < n) :
    parseSeconds num (num.toText n) = .ok n := by
  simp only [parseSeconds, num.toNumber_toText n hn, if_neg (not_le.2 hpos)]

theorem parseSet_words (first : JsString) (h : cmd.WellFormed num) :
    parseSet num (first :: setWords num cmd) = .ok cmd := by
  obtain ⟨key, value, ex⟩ := cmd
  have hkey : key ≠ [] := h.key.1
  have hEX : toUpperCase (js "EX") = js "EX" := by decide
  cases ex with
  | none =>
    by_cases hv : value = []
    · subst hv
      simp only [setWords, if_pos, List.append_nil, parseSet, assertToken_ok hkey]
      rfl
    · simp only [setWords, if_neg hv, List.append_nil, parseSet, assertToken_ok hkey,
        assertToken_ok hv]
      rfl
  | some n =>
    obtain ⟨hpos, hn⟩ := h.ex n rfl
    by_cases hv : value = []
    · subst hv
      simp only [setWords, if_pos, List.nil_append, parseSet, hEX, assertToken_ok hkey,
        parseSeconds_toText hn hpos]
      rfl
    · simp only [setWords, if_neg hv, List.cons_append, List.nil_append, parseSet, hEX, if_pos,
        assertToken_ok hkey, assertToken_ok hv, parseSeconds_toText hn hpos]
      rfl

theorem parseParts_set (parts : List JsString) :
    parseParts num (js "SET" :: parts) = (parseSet num (js "SET" :: parts)).map .set := by
  have hname : toUpperCase (js "SET") = js "SET" := by decide
  have hping : js "SET" ≠ js "PING" := by decide
  have hkeyed : KeyedName.ofText (js "SET") = none := by decide
  simp only [parseParts, List.headD_cons, hname, if_neg hping, hkeyed, if_pos]

theorem parse_set (h : cmd.WellFormed num) :
    parseCommand num (unwords (js "SET" :: setWords num cmd)) = .ok (.set cmd) := by
  rw [parseCommand_unwords ((setWords_line h.printable).cons (by decide)), parseParts_set,
    parseSet_words _ h]
  rfl

/-- Seconds that are not positive are refused. -/
theorem parse_set_refused (h : cmd.Printable num) {n : ℤ} (hn : cmd.ex = some n) (hle : n ≤ 0) :
    parseCommand num (unwords (js "SET" :: setWords num cmd)) =
      .error (js "EX seconds must be a positive integer") := by
  have hEX : toUpperCase (js "EX") = js "EX" := by decide
  have hseconds : parseSeconds num (num.toText n) =
      .error (js "EX seconds must be a positive integer") := by
    simp only [parseSeconds, num.toNumber_toText n (h.ex n hn), if_pos hle]
  rw [parseCommand_unwords ((setWords_line h).cons (by decide)), parseParts_set]
  obtain ⟨key, value, ex⟩ := cmd
  obtain rfl : ex = some n := hn
  simp only [setWords]
  by_cases hv : value = []
  · simp only [if_pos hv, List.nil_append, parseSet, hEX, if_pos, assertToken_ok h.key.1, hseconds]
    rfl
  · simp only [if_neg hv, List.cons_append, List.nil_append, parseSet, hEX, if_pos,
      assertToken_ok h.key.1, assertToken_ok hv, hseconds]
    rfl

theorem KeyedName.ofText_text (name : KeyedName) : KeyedName.ofText name.text = some name := by
  cases name <;> decide

theorem isToken_keyedName (name : KeyedName) : IsToken name.text := by
  cases name <;> decide

theorem parseParts_keyed (name : KeyedName) (parts : List JsString) :
    parseParts num (name.text :: parts) = parseKeyed name (name.text :: parts) := by
  have hname : toUpperCase name.text = name.text := by cases name <;> decide
  have hping : name.text ≠ js "PING" := by cases name <;> decide
  simp only [parseParts, List.headD_cons, hname, if_neg hping, KeyedName.ofText_text]

theorem parse_keyed (name : KeyedName) (h : IsToken key) :
    parseCommand num (unwords [name.text, key]) = .ok (.keyed name key) := by
  rw [parseCommand_unwords ((line_singleton h).cons (isToken_keyedName name)), parseParts_keyed]
  simp only [parseKeyed, assertToken_ok h.1]
  rfl

theorem parseParts_repl (parts : List JsString) :
    parseParts num (js "REPL" :: parts) = (parseRepl num (js "REPL" :: parts)).map .repl := by
  have hname : toUpperCase (js "REPL") = js "REPL" := by decide
  have hping : js "REPL" ≠ js "PING" := by decide
  have hkeyed : KeyedName.ofText (js "REPL") = none := by decide
  have hset : js "REPL" ≠ js "SET" := by decide
  simp only [parseParts, List.headD_cons, hname, if_neg hping, hkeyed, if_neg hset, if_pos]

theorem parse_repl_set (h : cmd.WellFormed num) :
    parseCommand num (unwords (js "REPL" :: js "SET" :: setWords num cmd)) =
      .ok (.repl (.set cmd)) := by
  have hline : Line (js "SET" :: setWords num cmd) := (setWords_line h.printable).cons (by decide)
  have hname : toUpperCase (js "SET") = js "SET" := by decide
  rw [parseCommand_unwords (hline.cons (by decide)), parseParts_repl]
  simp only [parseRepl, hname, if_pos, parseSet_words _ h]
  rfl

theorem parse_repl_del (h : IsToken key) :
    parseCommand num (unwords [js "REPL", js "DEL", key]) = .ok (.repl (.del key)) := by
  have hline : Line [js "DEL", key] := (line_singleton h).cons (by decide)
  have hname : toUpperCase (js "DEL") = js "DEL" := by decide
  have hset : js "DEL" ≠ js "SET" := by decide
  rw [parseCommand_unwords (hline.cons (by decide)), parseParts_repl]
  simp only [parseRepl, hname, if_neg hset, if_pos, parseReplDel, assertToken_ok h.1]
  rfl

/-! ### What is accepted is well formed -/

theorem assertToken_eq_ok {label : JsString} {u : Unit} (h : assertToken w label = .ok u) :
    w ≠ [] := by
  unfold assertToken at h
  split_ifs at h with hw
  exact hw

theorem parseSeconds_eq_ok {n : ℤ} (h : parseSeconds num w = .ok n) : 0 < n ∧ num.IsNumber n := by
  unfold parseSeconds at h
  split at h
  · rename_i seconds hread
    split_ifs at h with hpos
    cases h
    exact ⟨by omega, num.isNumber_of_toNumber _ _ hread⟩
  · cases h

/-- What `assertToken` lets through goes on. -/
theorem bind_assertToken {α : Type} {label : JsString} {f : Unit → Except JsString α} {a : α}
    (h : (assertToken w label >>= f) = .ok a) : w ≠ [] ∧ f () = .ok a := by
  obtain ⟨u, hw, hf⟩ := bind_eq_ok_iff.1 h
  exact ⟨assertToken_eq_ok hw, hf⟩

/-- What `parseSeconds` lets through goes on. -/
theorem bind_parseSeconds {α : Type} {f : ℤ → Except JsString α} {a : α}
    (h : (parseSeconds num w >>= f) = .ok a) :
    ∃ n, (0 < n ∧ num.IsNumber n) ∧ f n = .ok a := by
  obtain ⟨n, hw, hf⟩ := bind_eq_ok_iff.1 h
  exact ⟨n, parseSeconds_eq_ok hw, hf⟩

/-- A `SET` that was put together from strings with a property. -/
structure SetCommand.Made (num : Numerals) (Q : JsString → Prop) (cmd : SetCommand) : Prop where
  key : cmd.key ≠ [] ∧ Q cmd.key
  value : Q cmd.value
  ex : ∀ n, cmd.ex = some n → 0 < n ∧ num.IsNumber n

/-- An inner command that was put together from strings with a property. -/
def InnerCommand.Made (num : Numerals) (Q : JsString → Prop) : InnerCommand → Prop
  | .set cmd => cmd.Made num Q
  | .del key | .delete key => key ≠ [] ∧ Q key

/-- A command that was put together from strings with a property. -/
def Command.Made (num : Numerals) (Q : JsString → Prop) : Command → Prop
  | .ping => True
  | .keyed _ key => key ≠ [] ∧ Q key
  | .set cmd => cmd.Made num Q
  | .repl inner => inner.Made num Q

section

variable {Q : JsString → Prop}

theorem made_of_parseSet {first : JsString} (hnil : Q []) (hwords : ∀ v ∈ ws, Q v)
    (h : parseSet num (first :: ws) = .ok cmd) : cmd.Made num Q := by
  have hnone (n : ℤ) (hn : (none : Option ℤ) = some n) : 0 < n ∧ num.IsNumber n := nomatch hn
  unfold parseSet at h
  split at h
  · rename_i key hparts
    cases hparts
    obtain ⟨hkey, h⟩ := bind_assertToken h
    cases h
    exact ⟨⟨hkey, hwords _ (by simp)⟩, hnil, hnone⟩
  · rename_i key value hparts
    cases hparts
    obtain ⟨hkey, h⟩ := bind_assertToken h
    obtain ⟨-, h⟩ := bind_assertToken h
    cases h
    exact ⟨⟨hkey, hwords _ (by simp)⟩, hwords _ (by simp), hnone⟩
  · rename_i key option seconds hparts
    cases hparts
    split_ifs at h
    obtain ⟨hkey, h⟩ := bind_assertToken h
    obtain ⟨n, hn, h⟩ := bind_parseSeconds h
    cases h
    exact ⟨⟨hkey, hwords _ (by simp)⟩, hnil, fun m hm => by cases hm; exact hn⟩
  · rename_i key value option seconds hparts
    cases hparts
    split_ifs at h
    obtain ⟨hkey, h⟩ := bind_assertToken h
    obtain ⟨-, h⟩ := bind_assertToken h
    obtain ⟨n, hn, h⟩ := bind_parseSeconds h
    cases h
    exact ⟨⟨hkey, hwords _ (by simp)⟩, hwords _ (by simp), fun m hm => by cases hm; exact hn⟩
  · cases h

theorem made_of_parseReplDel {innerName : JsString} {make : JsString → InnerCommand}
    {inner : InnerCommand} (hwords : ∀ v ∈ ws, Q v)
    (h : parseReplDel innerName make ws = .ok inner) :
    ∃ key, (key ≠ [] ∧ Q key) ∧ inner = make key := by
  unfold parseReplDel at h
  split at h
  · rename_i key
    obtain ⟨hkey, h⟩ := bind_assertToken h
    cases h
    exact ⟨key, ⟨hkey, hwords key (by simp)⟩, rfl⟩
  · cases h

theorem made_of_parseRepl {inner : InnerCommand} (hnil : Q []) (hwords : ∀ v ∈ ws, Q v)
    (h : parseRepl num ws = .ok inner) : inner.Made num Q := by
  unfold parseRepl at h
  split at h
  · rename_i first name rest
    have hrest : ∀ v ∈ rest, Q v := fun v hv => hwords v (by simp [hv])
    simp only at h
    split_ifs at h
    · obtain ⟨cmd, hset, rfl⟩ := map_eq_ok_iff.1 h
      exact made_of_parseSet hnil hrest hset
    · obtain ⟨key, hkey, rfl⟩ := made_of_parseReplDel hrest h
      exact hkey
    · obtain ⟨key, hkey, rfl⟩ := made_of_parseReplDel hrest h
      exact hkey
  · cases h

theorem made_of_parseKeyed {name : KeyedName} {c : Command} (hwords : ∀ v ∈ ws, Q v)
    (h : parseKeyed name ws = .ok c) : c.Made num Q := by
  unfold parseKeyed at h
  split at h
  · rename_i key
    obtain ⟨hkey, h⟩ := bind_assertToken h
    cases h
    exact ⟨hkey, hwords key (by simp)⟩
  · cases h

theorem made_of_parseParts {c : Command} (hnil : Q []) (hwords : ∀ v ∈ ws, Q v)
    (h : parseParts num ws = .ok c) : c.Made num Q := by
  unfold parseParts at h
  simp only at h
  by_cases hping : toUpperCase (ws.headD []) = js "PING"
  · rw [if_pos hping] at h
    split_ifs at h
    cases h
    trivial
  · rw [if_neg hping] at h
    cases hname : KeyedName.ofText (toUpperCase (ws.headD [])) with
    | some name =>
      rw [hname] at h
      exact made_of_parseKeyed hwords h
    | none =>
      rw [hname] at h
      simp only at h
      split_ifs at h
      · obtain ⟨cmd, hset, rfl⟩ := map_eq_ok_iff.1 h
        cases ws with
        | nil => cases hset
        | cons first rest =>
          exact made_of_parseSet hnil (fun v hv => hwords v (List.mem_cons_of_mem first hv)) hset
      · obtain ⟨inner, hrepl, rfl⟩ := map_eq_ok_iff.1 h
        exact made_of_parseRepl hnil hwords hrepl

/-- **An accepted command is made of the words of the line.** -/
theorem made_of_parse {line : JsString} {c : Command} (hnil : Q [])
    (hwords : ∀ w ∈ splitSpaces (trim line), nul ∉ w → Q w) (h : parseCommand num line = .ok c) :
    c.Made num Q := by
  unfold parseCommand at h
  simp only at h
  split_ifs at h with hempty hnul
  exact made_of_parseParts hnil (fun w hw => hwords w hw fun hmem =>
    hnul (mem_of_mem_splitSpaces hw hmem).1) h

/-- What is read in a well-formed text is made of such. -/
theorem unicode_of_parse {line : JsString} {c : Command} (hline : IsWellFormed line)
    (h : parseCommand num line = .ok c) : c.Made num IsWellFormed :=
  made_of_parse rfl (fun _ hw _ => hline.trim.word hw) h

end

theorem SetCommand.Made.wellFormed (h : cmd.Made num Dark) : cmd.WellFormed num :=
  ⟨h.key, h.value, h.ex⟩

/-- **Every command that `parseCommand` accepts is well formed.** -/
theorem wellFormed_of_parse {line : JsString} {c : Command} (h : parseCommand num line = .ok c) :
    c.WellFormed num := by
  have hmade : c.Made num Dark := made_of_parse (fun d hd => nomatch hd) (fun w hw hnul d hd =>
    ⟨(mem_of_mem_splitSpaces hw hd).2, fun hd' => hnul (hd' ▸ hd)⟩) h
  cases c with
  | ping => trivial
  | keyed name key => exact hmade
  | set cmd => exact SetCommand.Made.wellFormed hmade
  | repl inner =>
    cases inner with
    | set cmd => exact SetCommand.Made.wellFormed hmade
    | del key | delete key => exact hmade

end DistributedCache
