import Mathlib.Data.List.DropRight
import DistributedCache.Js.Value

/-!
# White space, words and letter case

The string operations of the wire protocol: `trim`, `trimEnd`, `split(/\s+/)`, `toUpperCase` as far
as it can produce ASCII letters, and the removal of a carriage return at the end of a line.

* `isSpace`: what `trim` removes and `\s` matches;
* `splitSpaces`: `split(/\s+/)`, one structural recursion;
* `Dark`, `IsToken`: characters that are neither white space nor NUL, and non-empty strings of them;
* `splitSpaces_cons`, `trim_eq_self`: how a line composed of tokens is taken apart again.
-/

namespace DistributedCache

/-- White space and line terminators, which `trim` removes and `\s` matches. -/
def isSpace (c : JsChar) : Bool :=
  let n := c.toNat
  decide (0x9 ≤ n ∧ n ≤ 0xD) || n == 0x20 || n == 0xA0 || n == 0x1680 ||
    decide (0x2000 ≤ n ∧ n ≤ 0x200A) || n == 0x2028 || n == 0x2029 || n == 0x202F ||
    n == 0x205F || n == 0x3000 || n == 0xFEFF

/-- `s.trimEnd()`. -/
def trimEnd (s : JsString) : JsString := s.rdropWhile isSpace

/-- `s.trim()`. -/
def trim (s : JsString) : JsString := trimEnd (s.dropWhile isSpace)

/-- Put a character in front of the first word. -/
def consFirst (c : JsChar) : List JsString → List JsString
  | [] => [[c]]
  | w :: ws => (c :: w) :: ws

/-- `s.split(/\s+/)`: a run of white space separates two words; it is passed over until its last
character. -/
def splitSpaces : JsString → List JsString
  | [] => [[]]
  | c :: s =>
      if isSpace c then
        if s.head?.any isSpace then splitSpaces s else [] :: splitSpaces s
      else consFirst c (splitSpaces s)

/-- `line.replace(/\r$/, '')`. -/
def dropCr (line : JsString) : JsString :=
  if line.getLast? = some (.char '\r') then line.dropLast else line

/-- `s.lastIndexOf(c)`; `none` is -1. -/
def lastIndexOf (c : JsChar) : JsString → Option ℕ
  | [] => none
  | d :: s => match lastIndexOf c s with
    | some i => some (i + 1)
    | none => if d = c then some 0 else none

/-- Cut a text at its newlines: the complete lines, and what follows the last newline. -/
def takeLines : JsString → List JsString × JsString
  | [] => ([], [])
  | c :: s =>
      let r := takeLines s
      if c = '\n' then ([] :: r.1, r.2)
      else match r.1 with
        | [] => ([], c :: r.2)
        | line :: lines => ((c :: line) :: lines, r.2)

/-- The upper case of a character. Listed are the characters whose upper case is made of ASCII
letters; any other keeps a character that is no ASCII capital, which is all that a comparison with
a command name can see. -/
def upperChar (c : JsChar) : JsString :=
  let n := c.toNat
  if 0x61 ≤ n ∧ n ≤ 0x7A then [.char (Char.ofNat (n - 0x20))]
  else if n = 0xDF then js "SS"
  else if n = 0x131 then js "I"
  else if n = 0x17F then js "S"
  else if n = 0xFB00 then js "FF"
  else if n = 0xFB01 then js "FI"
  else if n = 0xFB02 then js "FL"
  else if n = 0xFB03 then js "FFI"
  else if n = 0xFB04 then js "FFL"
  else if n = 0xFB05 ∨ n = 0xFB06 then js "ST"
  else [c]

/-- `s.toUpperCase()`, up to characters that no command name contains. -/
def toUpperCase (s : JsString) : JsString := s.flatMap upperChar

/-! ### Tokens -/

/-- The NUL character. -/
def nul : JsChar := Char.ofNat 0

/-- A string without white space and without NUL. -/
def Dark (s : JsString) : Prop := ∀ c ∈ s, isSpace c = false ∧ c ≠ nul

instance (s : JsString) : Decidable (Dark s) := List.decidableBAll _ s

/-- A non-empty string without white space and without NUL. -/
def IsToken (s : JsString) : Prop := s ≠ [] ∧ Dark s

instance (s : JsString) : Decidable (IsToken s) := inferInstanceAs (Decidable (_ ∧ _))

variable {s t w : JsString} {c : JsChar}

theorem Dark.append (hs : Dark s) (ht : Dark t) : Dark (s ++ t) := by
  intro c hc
  rcases List.mem_append.1 hc with hc | hc
  · exact hs c hc
  · exact ht c hc

theorem IsToken.exists_cons (h : IsToken s) : ∃ c t, s = c :: t ∧ isSpace c = false := by
  obtain ⟨hne, hdark⟩ := h
  cases s with
  | nil => exact absurd rfl hne
  | cons c t => exact ⟨c, t, rfl, (hdark c List.mem_cons_self).1⟩

/-! ### Splitting -/

theorem splitSpaces_ne_nil (s : JsString) : splitSpaces s ≠ [] := by
  induction s with
  | nil => exact List.cons_ne_nil _ _
  | cons c s ih =>
    rw [splitSpaces]
    split_ifs
    · exact ih
    · exact List.cons_ne_nil _ _
    · cases splitSpaces s <;> exact List.cons_ne_nil _ _

/-- A string without white space is one word. -/
theorem splitSpaces_dark (h : Dark w) : splitSpaces w = [w] := by
  induction w with
  | nil => rfl
  | cons c w ih =>
    have hc := (h c List.mem_cons_self).1
    rw [splitSpaces, if_neg (by rw [hc]; exact Bool.false_ne_true),
      ih fun d hd => h d (List.mem_cons_of_mem c hd)]
    rfl

/-- A word, a space, and something that does not start with white space. -/
theorem splitSpaces_cons (h : Dark w) (hs : s.head?.any isSpace = false) :
    splitSpaces (w ++ .char ' ' :: s) = w :: splitSpaces s := by
  induction w with
  | nil =>
    rw [List.nil_append, splitSpaces, if_pos (by decide), hs]
    rfl
  | cons c w ih =>
    have hc := (h c List.mem_cons_self).1
    rw [List.cons_append, splitSpaces, if_neg (by rw [hc]; exact Bool.false_ne_true),
      ih fun d hd => h d (List.mem_cons_of_mem c hd)]
    rfl

theorem head?_any_of_token (h : IsToken w) : (w ++ s).head?.any isSpace = false := by
  obtain ⟨c, t, rfl, hc⟩ := h.exists_cons
  exact hc

theorem head?_any_of_isToken (h : IsToken w) : w.head?.any isSpace = false := by
  obtain ⟨c, t, rfl, hc⟩ := h.exists_cons
  exact hc

/-- The words of a string contain no white space, and no character that the string lacks. -/
theorem mem_of_mem_splitSpaces (hw : w ∈ splitSpaces s) (hc : c ∈ w) :
    c ∈ s ∧ isSpace c = false := by
  induction s generalizing w with
  | nil =>
    rw [splitSpaces, List.mem_singleton] at hw
    rw [hw] at hc
    cases hc
  | cons d s ih =>
    rw [splitSpaces] at hw
    have old {w : JsString} (hw : w ∈ splitSpaces s) (hc : c ∈ w) : c ∈ d :: s ∧ isSpace c = false :=
      ⟨List.mem_cons_of_mem d (ih hw hc).1, (ih hw hc).2⟩
    split_ifs at hw with hd hs
    · exact old hw hc
    · rcases List.mem_cons.1 hw with rfl | hw
      · cases hc
      · exact old hw hc
    · cases hsplit : splitSpaces s with
      | nil => exact absurd hsplit (splitSpaces_ne_nil s)
      | cons v vs =>
        rw [hsplit] at hw
        rcases List.mem_cons.1 hw with rfl | hw
        · rcases List.mem_cons.1 hc with rfl | hc
          · exact ⟨List.mem_cons_self, by simpa using hd⟩
          · exact old (hsplit ▸ List.mem_cons_self) hc
        · exact old (hsplit ▸ List.mem_cons_of_mem v hw) hc

/-! ### Cutting lines -/

theorem takeLines_of_notMem (h : .char '\n' ∉ s) : takeLines s = ([], s) := by
  induction s with
  | nil => rfl
  | cons c s ih =>
    rw [List.mem_cons, not_or] at h
    rw [takeLines, ih h.2, if_neg fun heq => h.1 heq.symm]

theorem takeLines_line (h : .char '\n' ∉ s) : takeLines (s ++ [.char '\n']) = ([s], []) := by
  induction s with
  | nil => rfl
  | cons c s ih =>
    rw [List.mem_cons, not_or] at h
    rw [List.cons_append, takeLines, ih h.2, if_neg fun heq => h.1 heq.symm]

/-- What follows the last newline contains none. -/
theorem newline_notMem_takeLines (s : JsString) : .char '\n' ∉ (takeLines s).2 := by
  induction s with
  | nil => exact List.not_mem_nil
  | cons c s ih =>
    rw [takeLines]
    split_ifs with hc
    · exact ih
    · cases (takeLines s).1 with
      | nil =>
        rw [List.mem_cons, not_or]
        exact ⟨fun h => hc h.symm, ih⟩
      | cons line lines => exact ih

/-- **Cutting a text in two parts**: what the first part leaves unfinished goes in front of the
second. -/
theorem takeLines_append (s t : JsString) :
    takeLines (s ++ t) =
      ((takeLines s).1 ++ (takeLines ((takeLines s).2 ++ t)).1,
        (takeLines ((takeLines s).2 ++ t)).2) := by
  induction s with
  | nil => rfl
  | cons c s ih =>
    rw [List.cons_append, takeLines, takeLines, ih]
    split_ifs with hc
    · rfl
    · cases (takeLines s).1 with
      | nil =>
        simp only [List.nil_append, List.cons_append]
        rw [takeLines, if_neg hc]
      | cons line lines => rfl

/-- A text without a complete line. -/
theorem takeLines_snd_of_fst {s : JsString} (h : (takeLines s).1 = []) : (takeLines s).2 = s := by
  induction s with
  | nil => rfl
  | cons c s ih =>
    rw [takeLines] at h ⊢
    split_ifs at h ⊢
    cases hlines : (takeLines s).1 with
    | nil =>
      simp only
      rw [ih hlines]
    | cons line lines =>
      rw [hlines] at h
      cases h

theorem idxOf?_append (h : c ∉ s) (t : JsString) : (s ++ c :: t).idxOf? c = some s.length := by
  induction s with
  | nil => simp [List.idxOf?_cons]
  | cons d s ih =>
    rw [List.mem_cons, not_or] at h
    rw [List.cons_append, List.idxOf?_cons, beq_false_of_ne (Ne.symm h.1), ih h.2]
    rfl

theorem lastIndexOf_of_notMem (h : c ∉ s) : lastIndexOf c s = none := by
  induction s with
  | nil => rfl
  | cons d s ih =>
    rw [List.mem_cons, not_or] at h
    rw [lastIndexOf, ih h.2, if_neg (Ne.symm h.1)]

/-- The last occurrence, with none after it. -/
theorem lastIndexOf_append (s : JsString) (h : c ∉ t) :
    lastIndexOf c (s ++ c :: t) = some s.length := by
  induction s with
  | nil => rw [List.nil_append, lastIndexOf, lastIndexOf_of_notMem h, if_pos rfl, List.length_nil]
  | cons d s ih => rw [List.cons_append, lastIndexOf, ih, List.length_cons]

/-! ### Trimming -/

/-- The end of a text of two parts: of the second one, unless that is blank. -/
theorem trimEnd_append (s t : JsString) :
    trimEnd (s ++ t) = if trimEnd t = [] then trimEnd s else s ++ trimEnd t := by
  have hnil : trimEnd t = [] ↔ (t.reverse.dropWhile isSpace).isEmpty = true := by
    rw [trimEnd, List.rdropWhile, List.reverse_eq_nil_iff, List.isEmpty_iff]
  unfold trimEnd List.rdropWhile at *
  rw [List.reverse_append, List.dropWhile_append]
  split_ifs with hblank hend hend
  · rfl
  · exact absurd (hnil.2 hblank) hend
  · exact absurd (hnil.1 hend) hblank
  · rw [List.reverse_append, List.reverse_reverse]

theorem trimEnd_trim (s : JsString) : trimEnd (trim s) = trim s :=
  List.rdropWhile_idempotent _ _

/-- Nothing is trimmed after a character that is no white space. -/
theorem trimEnd_append_token (h : IsToken w) : trimEnd (s ++ w) = s ++ w := by
  have hne : s ++ w ≠ [] := fun h' => h.1 (List.append_eq_nil_iff.1 h').2
  refine List.rdropWhile_eq_self_iff.2 fun _ => ?_
  rw [List.getLast_append_of_ne_nil hne h.1, (h.2 _ (List.getLast_mem h.1)).1]
  exact Bool.false_ne_true

/-- Nothing is trimmed between two such characters. -/
theorem trim_eq_self (hs : s.head?.any isSpace = false) (h : IsToken w) :
    trim (s ++ w) = s ++ w := by
  have hdrop : (s ++ w).dropWhile isSpace = s ++ w := by
    cases s with
    | nil =>
      obtain ⟨c, t, rfl, hc⟩ := h.exists_cons
      exact List.dropWhile_cons_of_neg (by rw [hc]; exact Bool.false_ne_true)
    | cons c s =>
      have hc : isSpace c = false := hs
      exact List.dropWhile_cons_of_neg (by rw [hc]; exact Bool.false_ne_true)
  rw [trim, hdrop, trimEnd_append_token h]

/-- A trimmed text does not begin with white space. -/
theorem head?_trim (s : JsString) : (trim s).head?.any isSpace = false := by
  have hhead := List.head?_dropWhile_not isSpace s
  obtain ⟨rest, hrest⟩ := List.rdropWhile_prefix isSpace (s.dropWhile isSpace)
  cases htrim : trim s with
  | nil => rfl
  | cons c t =>
    have hcons : s.dropWhile isSpace = c :: (t ++ rest) := by
      rw [← hrest, ← List.cons_append, ← htrim]
      rfl
    rw [hcons] at hhead
    simpa using hhead

theorem trim_trim (s : JsString) : trim (trim s) = trim s := by
  have hdrop : (trim s).dropWhile isSpace = trim s := by
    have hhead := head?_trim s
    cases htrim : trim s with
    | nil => rfl
    | cons c t =>
      rw [htrim] at hhead
      have hc : isSpace c = false := hhead
      exact List.dropWhile_cons_of_neg (by rw [hc]; exact Bool.false_ne_true)
  rw [trim, hdrop, trimEnd_trim]

/-- A first character that is no white space stays the first one. -/
theorem trim_head? (h : s.head? = some c) (hc : isSpace c = false) : (trim s).head? = some c := by
  cases s with
  | nil => cases h
  | cons c' s =>
    obtain rfl : c' = c := Option.some.inj h
    have hdrop : (c' :: s).dropWhile isSpace = c' :: s :=
      List.dropWhile_cons_of_neg (by rw [hc]; exact Bool.false_ne_true)
    rw [trim, hdrop, trimEnd]
    obtain ⟨rest, hrest⟩ := List.rdropWhile_prefix isSpace (c' :: s)
    cases htrim : (c' :: s).rdropWhile isSpace with
    | nil =>
      have hspace := List.rdropWhile_eq_nil_iff.1 htrim c' List.mem_cons_self
      rw [hc] at hspace
      cases hspace
    | cons d t =>
      rw [htrim] at hrest
      exact congrArg some (List.cons.inj hrest).1

theorem dropCr_head? (h : s.head? = some c) (hc : c ≠ '\r') : (dropCr s).head? = some c := by
  cases s with
  | nil => cases h
  | cons c' s =>
    obtain rfl : c' = c := Option.some.inj h
    unfold dropCr
    split_ifs with hlast
    · cases s with
      | nil => exact absurd (Option.some.inj hlast) hc
      | cons d t => rfl
    · rfl

/-- A line that ends in a token keeps its end. -/
theorem dropCr_append_token (h : IsToken w) : dropCr (s ++ w) = s ++ w := by
  unfold dropCr
  rw [if_neg]
  rw [List.getLast?_append_of_ne_nil s h.1, List.getLast?_eq_getLast_of_ne_nil h.1]
  intro hcr
  have hspace := (h.2 _ (List.getLast_mem h.1)).1
  rw [Option.some.inj hcr] at hspace
  exact absurd hspace (by decide)

/-- Only white space is trimmed away altogether. -/
theorem trim_eq_nil_iff {s : JsString} : trim s = [] ↔ ∀ c ∈ s, isSpace c = true := by
  rw [trim, trimEnd, List.rdropWhile_eq_nil_iff]
  constructor
  · intro h
    refine List.dropWhile_eq_nil_iff.1 ?_
    have hhead := List.head?_dropWhile_not isSpace s
    cases hdrop : s.dropWhile isSpace with
    | nil => rfl
    | cons c t =>
      rw [hdrop] at h hhead
      have hspace := h c List.mem_cons_self
      simp [hspace] at hhead
  · intro h
    rw [List.dropWhile_eq_nil_iff.2 h]
    exact fun c hc => absurd hc List.not_mem_nil

/-- A carriage return does not make a line visible. -/
theorem trim_dropCr_ne_nil {s : JsString} (h : trim s ≠ []) : trim (dropCr s) ≠ [] := by
  intro hnil
  refine h (trim_eq_nil_iff.2 fun c hc => ?_)
  have hspace := trim_eq_nil_iff.1 hnil
  unfold dropCr at hspace
  split_ifs at hspace with hlast
  · have hsplit := List.dropLast_append_getLast? _ hlast
    rw [← hsplit] at hc
    rcases List.mem_append.1 hc with hc | hc
    · exact hspace c hc
    · rw [List.mem_singleton.1 hc]
      decide
  · exact hspace c hc

/-! ### Text as it arrives -/

/-- No surrogate is white space, and neither is U+FFFD. -/
theorem isSpace_toWellFormed (c : JsChar) : isSpace c.toWellFormed = isSpace c := by
  cases c with
  | char c => rfl
  | surrogate n =>
    have hreplaced : isSpace (.char '\uFFFD') = false := by decide
    have hnat : (JsChar.surrogate n).toNat = 0xD800 + n := rfl
    have hn := n.isLt
    rw [JsChar.toWellFormed, hreplaced, eq_comm, isSpace]
    simp only [hnat, Bool.or_eq_false_iff, decide_eq_false_iff_not, beq_eq_false_iff_ne]
    omega

theorem trim_toWellFormed (s : JsString) : trim (toWellFormed s) = toWellFormed (trim s) := by
  have hspace : isSpace ∘ JsChar.toWellFormed = isSpace := funext isSpace_toWellFormed
  simp only [trim, trimEnd, toWellFormed, List.rdropWhile, List.dropWhile_map, ← List.map_reverse,
    hspace]

theorem newline_notMem_toWellFormed (h : .char '\n' ∉ s) : .char '\n' ∉ toWellFormed s := by
  intro hmem
  obtain ⟨c, hc, hnewline⟩ := List.mem_map.1 hmem
  cases c with
  | char c => exact h (hnewline ▸ hc)
  | surrogate n =>
    rw [JsChar.toWellFormed] at hnewline
    exact absurd hnewline (by decide)

theorem IsWellFormed.trim (h : IsWellFormed s) : IsWellFormed (trim s) := by
  rw [IsWellFormed, ← trim_toWellFormed, h]

theorem IsWellFormed.trimEnd (h : IsWellFormed s) : IsWellFormed (trimEnd s) :=
  h.subset (List.rdropWhile_prefix _ s).subset

theorem IsWellFormed.dropCr (h : IsWellFormed s) : IsWellFormed (dropCr s) := by
  unfold DistributedCache.dropCr
  split_ifs
  · exact h.subset (List.dropLast_subset s)
  · exact h

/-- The words of a well-formed text are well formed. -/
theorem IsWellFormed.word (h : IsWellFormed s) (hw : w ∈ splitSpaces s) : IsWellFormed w :=
  h.subset fun _ hc => (mem_of_mem_splitSpaces hw hc).1

end DistributedCache
