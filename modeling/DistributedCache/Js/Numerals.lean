import DistributedCache.Js.Double
import DistributedCache.Js.Text

/-!
# Numbers as text

`Number(s)` and the decimal form `${n}` of an integral number are the JavaScript engine's. What the
programs rely on is stated once, as the laws of `Numerals`: text that was printed reads back as the
same number, it is a token, well formed, and short. Every integer that `Number` can return is a
number, and so is every double that is an integer.

`decimalNumerals` is an instance. It writes integers up to `2 ^ 53` in decimal, as the engine does,
and larger ones as a significand and a power of two.
-/

namespace DistributedCache

/-- `Number(s)`, and `${n}` for the integers that are numbers. -/
structure Numerals where
  /-- The integers that are numbers. -/
  IsNumber : ℤ → Prop
  /-- `Number(s)`. -/
  toNumber : JsString → JsNumber
  /-- `${n}`. -/
  toText : ℤ → JsString
  isNumber_of_toNumber : ∀ s n, toNumber s = .int n → IsNumber n
  isNumber_of_isDouble : ∀ n, IsDouble n → IsNumber n
  toNumber_toText : ∀ n, IsNumber n → toNumber (toText n) = .int n
  toText_isToken : ∀ n, IsNumber n → IsToken (toText n)
  toText_isWellFormed : ∀ n, IsNumber n → IsWellFormed (toText n)
  byteLength_toText : ∀ n, IsNumber n → byteLength (toText n) ≤ 24

theorem Numerals.isNumber_of_natAbs (num : Numerals) {n : ℤ} (h : n.natAbs ≤ 2 ^ 53) :
    num.IsNumber n :=
  num.isNumber_of_isDouble n (isDouble_of_natAbs_le h)

/-! ### An instance -/

/-- The decimal form of an integer. -/
def decimalText (n : ℤ) : JsString :=
  if n < 0 then .char '-' :: decimal n.natAbs else decimal n.natAbs

/-- The text of an integer: decimal, or a significand and a binary exponent. -/
def numeralText (n : ℤ) : JsString :=
  if n.natAbs ≤ 2 ^ 53 then decimalText n
  else
    let e := Rounding.lastDigit 53 n
    decimalText (n / 2 ^ e) ++ .char 'p' :: decimal e

/-- The natural number up to `2 ^ 53` that a string of digits denotes. -/
def readDigits (s : JsString) : Option ℕ :=
  let n := s.foldl (fun n c => 10 * n + (c.toNat - 0x30)) 0
  if s ≠ [] ∧ s.all JsChar.isDigit ∧ n ≤ 2 ^ 53 then some n else none

/-- The integer up to `2 ^ 53` that such a string denotes after an optional sign. -/
def readDecimal : JsString → Option ℤ
  | .char '-' :: s => (readDigits s).map fun n : ℕ => -(n : ℤ)
  | s => (readDigits s).map fun n : ℕ => (n : ℤ)

/-- The number that a text denotes; no others are read. -/
def readNumeral (s : JsString) : JsNumber :=
  match readDecimal (s.takeWhile (· ≠ .char 'p')), s.dropWhile (· ≠ .char 'p') with
  | some k, [] => .int k
  | some k, _ :: exponent =>
      match readDigits exponent with
      | some e =>
          if e < DOUBLE_DIGITS ∧ (k * 2 ^ e).natAbs < 2 ^ DOUBLE_DIGITS then .int (k * 2 ^ e)
          else .infinity
      | none => .nan
  | none, _ => .nan

theorem isDigit_of_mem_decimal {n : ℕ} {c : JsChar} (h : c ∈ decimal n) : c.isDigit = true := by
  obtain ⟨d, hd, rfl⟩ := List.mem_map.1 h
  exact Nat.isDigit_of_mem_toDigits (by decide) (by decide) hd

theorem decimal_ne_nil (n : ℕ) : decimal n ≠ [] :=
  fun h => Nat.toDigits_ne_nil (List.map_eq_nil_iff.1 h)

theorem readDigits_decimal {n : ℕ} (h : n ≤ 2 ^ 53) : readDigits (decimal n) = some n := by
  have hread : (decimal n).foldl (fun n c => 10 * n + (c.toNat - 0x30)) 0 = n := by
    rw [decimal, List.foldl_map]
    exact Nat.ofDigitChars_eq_foldl.symm.trans Nat.ofDigitChars_ten_toDigits
  simp only [readDigits, hread]
  exact if_pos ⟨decimal_ne_nil n, List.all_eq_true.2 fun c hc => isDigit_of_mem_decimal hc, h⟩

theorem readDigits_le {s : JsString} {n : ℕ} (h : readDigits s = some n) : n ≤ 2 ^ 53 := by
  simp only [readDigits] at h
  split_ifs at h with hs
  rw [← Option.some.inj h]
  exact hs.2.2

/-- A digit is one of ten characters. -/
theorem exists_char_of_isDigit {c : JsChar} (h : c.isDigit = true) :
    ∃ d : Char, c = d ∧ 0x30 ≤ d.toNat ∧ d.toNat ≤ 0x39 := by
  cases c with
  | surrogate n => cases h
  | char d =>
    simp only [JsChar.isDigit, Char.isDigit, Bool.and_eq_true, decide_eq_true_eq] at h
    exact ⟨d, rfl, UInt32.le_iff_toNat_le.1 h.1, UInt32.le_iff_toNat_le.1 h.2⟩

theorem isDigit_dark {c : JsChar} (h : c.isDigit = true) : isSpace c = false ∧ c ≠ nul := by
  obtain ⟨d, rfl, hlow, hhigh⟩ := exists_char_of_isDigit h
  constructor
  · have hnat : (JsChar.char d).toNat = d.toNat := rfl
    simp only [isSpace, hnat, Bool.or_eq_false_iff, decide_eq_false_iff_not, beq_eq_false_iff_ne,
      ne_eq]
    omega
  · intro hnul
    obtain rfl := JsChar.char.inj hnul
    exact absurd hlow (by decide)

theorem decimal_isToken (n : ℕ) : IsToken (decimal n) :=
  ⟨decimal_ne_nil n, fun _ hc => isDigit_dark (isDigit_of_mem_decimal hc)⟩

theorem decimal_isWellFormed (n : ℕ) : IsWellFormed (decimal n) := by
  simp only [IsWellFormed, toWellFormed, decimal, List.map_map]
  rfl

theorem notMem_decimal {c : JsChar} (h : c.isDigit = false) (n : ℕ) : c ∉ decimal n := by
  intro hc
  rw [isDigit_of_mem_decimal hc] at h
  cases h

theorem notMem_decimalText {c : JsChar} (hdigit : c.isDigit = false) (hminus : c ≠ '-') (n : ℤ) :
    c ∉ decimalText n := by
  unfold decimalText
  split_ifs
  · rw [List.mem_cons, not_or]
    exact ⟨hminus, notMem_decimal hdigit _⟩
  · exact notMem_decimal hdigit _

theorem readDecimal_decimal {n : ℕ} (h : n ≤ 2 ^ 53) : readDecimal (decimal n) = some (n : ℤ) := by
  have hminus := notMem_decimal (c := '-') (by decide) n
  unfold readDecimal
  split
  · rename_i s hs
    rw [hs] at hminus
    exact absurd List.mem_cons_self hminus
  · rw [readDigits_decimal h]
    rfl

theorem readDecimal_decimalText {n : ℤ} (h : n.natAbs ≤ 2 ^ 53) :
    readDecimal (decimalText n) = some n := by
  unfold decimalText
  split_ifs with hneg
  · simp only [readDecimal, readDigits_decimal h, Option.map_some, Option.some.injEq]
    omega
  · rw [readDecimal_decimal h, Option.some.injEq]
    omega

theorem natAbs_le_of_readDecimal {s : JsString} {n : ℤ} (h : readDecimal s = some n) :
    n.natAbs ≤ 2 ^ 53 := by
  unfold readDecimal at h
  split at h
  all_goals
    obtain ⟨m, hm, rfl⟩ := Option.map_eq_some_iff.1 h
    have hle := readDigits_le hm
    omega

theorem decimalText_isToken (n : ℤ) : IsToken (decimalText n) := by
  unfold decimalText
  split_ifs
  · refine ⟨List.cons_ne_nil _ _, fun c hc => ?_⟩
    rcases List.mem_cons.1 hc with rfl | hc
    · exact ⟨by decide, by decide⟩
    · exact (decimal_isToken _).2 c hc
  · exact decimal_isToken _

theorem decimalText_isWellFormed (n : ℤ) : IsWellFormed (decimalText n) := by
  unfold decimalText
  split_ifs
  · exact congrArg (_ :: ·) (decimal_isWellFormed n.natAbs)
  · exact decimal_isWellFormed n.natAbs

theorem byteLength_digits {s : JsString} (h : ∀ c ∈ s, c.isDigit = true) :
    byteLength s = s.length := by
  induction s with
  | nil => rfl
  | cons c s ih =>
    obtain ⟨d, rfl, -, hhigh⟩ := exists_char_of_isDigit (h c List.mem_cons_self)
    have hc : JsChar.utf8Size d = 1 := by
      rw [JsChar.utf8Size, Char.utf8Size_eq_one_iff]
      exact UInt32.le_iff_toNat_le.2 (show d.toNat ≤ 127 by omega)
    rw [byteLength_cons, hc, ih fun d hd => h d (List.mem_cons_of_mem _ hd), List.length_cons]
    omega

theorem byteLength_decimal {n k : ℕ} (hk : 0 < k) (h : n < 10 ^ k) :
    byteLength (decimal n) ≤ k := by
  rw [byteLength_digits fun c hc => isDigit_of_mem_decimal hc, decimal, List.length_map]
  exact Nat.toDigits_length 10 _ k hk h

theorem byteLength_decimalText {n : ℤ} (h : n.natAbs ≤ 2 ^ 53) :
    byteLength (decimalText n) ≤ 17 := by
  have hdigits : byteLength (decimal n.natAbs) ≤ 16 :=
    byteLength_decimal (by decide) (lt_of_le_of_lt h (by norm_num))
  have hminus : (JsChar.char '-').utf8Size = 1 := by decide
  unfold decimalText
  split_ifs
  · rw [byteLength_cons, hminus]
    omega
  · omega

/-- The significand and the exponent of a double. -/
theorem IsDouble.parts {n : ℤ} (h : IsDouble n) :
    (n / 2 ^ Rounding.lastDigit 53 n).natAbs ≤ 2 ^ 53 ∧ Rounding.lastDigit 53 n < DOUBLE_DIGITS ∧
      n / 2 ^ Rounding.lastDigit 53 n * 2 ^ Rounding.lastDigit 53 n = n := by
  obtain ⟨hrep, hlt⟩ := h
  have hdvd : (2 : ℤ) ^ Rounding.lastDigit 53 n ∣ n := by
    exact_mod_cast Rounding.dvd_of_representable (by decide) hrep
  have hmul := Int.ediv_mul_cancel hdvd
  refine ⟨?_, ?_, hmul⟩
  · have hle := Rounding.natAbs_le_digits 53 n
    have habs : n.natAbs =
        (n / 2 ^ Rounding.lastDigit 53 n).natAbs * 2 ^ Rounding.lastDigit 53 n := by
      conv_lhs => rw [← hmul]
      rw [Int.natAbs_mul, Int.natAbs_pow]
      rfl
    rw [habs] at hle
    exact Nat.le_of_mul_le_mul_right hle (Nat.two_pow_pos _)
  · unfold Rounding.lastDigit
    by_cases hzero : n.natAbs = 0
    · rw [hzero]
      decide
    · have := (Nat.log2_lt hzero).2 hlt
      omega

/-- A significand, and what follows it. -/
theorem span_decimalText (n : ℤ) (s : JsString) (hs : s.head?.all (· == .char 'p')) :
    (decimalText n ++ s).takeWhile (· ≠ .char 'p') = decimalText n ∧
      (decimalText n ++ s).dropWhile (· ≠ .char 'p') = s := by
  have hp := notMem_decimalText (c := .char 'p') (by decide) (by decide) n
  have hall : ∀ c ∈ decimalText n, decide (c ≠ .char 'p') = true :=
    fun c hc => decide_eq_true fun heq => hp (heq ▸ hc)
  rw [List.takeWhile_append_of_pos hall, List.dropWhile_append_of_pos hall]
  cases s with
  | nil => exact ⟨List.append_nil _, rfl⟩
  | cons c s =>
    obtain rfl : c = .char 'p' := by simpa using hs
    exact ⟨by simp, by simp⟩

theorem readNumeral_decimalText {n : ℤ} (h : n.natAbs ≤ 2 ^ 53) :
    readNumeral (decimalText n) = .int n := by
  obtain ⟨htake, hdrop⟩ := span_decimalText n [] rfl
  rw [List.append_nil] at htake hdrop
  rw [readNumeral, htake, hdrop, readDecimal_decimalText h]

theorem readNumeral_decimal {n : ℕ} (h : n ≤ 2 ^ 53) : readNumeral (decimal n) = .int n :=
  readNumeral_decimalText (n := n) h

theorem readNumeral_numeralText {n : ℤ} (h : IsDouble n) :
    readNumeral (numeralText n) = .int n := by
  unfold numeralText
  split_ifs with hsmall
  · exact readNumeral_decimalText hsmall
  · obtain ⟨hk, he, hmul⟩ := h.parts
    obtain ⟨htake, hdrop⟩ := span_decimalText (n / 2 ^ Rounding.lastDigit 53 n)
      (.char 'p' :: decimal (Rounding.lastDigit 53 n)) rfl
    have hread : readDigits (decimal (Rounding.lastDigit 53 n)) = some (Rounding.lastDigit 53 n) :=
      readDigits_decimal (he.le.trans (by decide))
    simp only [readNumeral, htake, hdrop, readDecimal_decimalText hk, hread, hmul]
    exact if_pos ⟨he, h.2⟩

theorem isDouble_of_readNumeral {s : JsString} {n : ℤ} (h : readNumeral s = .int n) :
    IsDouble n := by
  unfold readNumeral at h
  split at h
  · rename_i k hk hnil
    cases h
    exact isDouble_of_natAbs_le (natAbs_le_of_readDecimal hk)
  · rename_i k c exponent hk hcons
    split at h
    · rename_i e he
      split_ifs at h with hlt
      cases h
      exact ⟨⟨k, e, rfl, natAbs_le_of_readDecimal hk⟩, hlt.2⟩
    · cases h
  · cases h

theorem numeralText_isToken (n : ℤ) : IsToken (numeralText n) := by
  unfold numeralText
  split_ifs
  · exact decimalText_isToken n
  · obtain ⟨hne, hdark⟩ := decimalText_isToken (n / 2 ^ Rounding.lastDigit 53 n)
    have hexponent : Dark (.char 'p' :: decimal (Rounding.lastDigit 53 n)) :=
      Dark.append (s := [.char 'p']) (by decide) (decimal_isToken _).2
    exact ⟨List.append_ne_nil_of_left_ne_nil hne _, hdark.append hexponent⟩

theorem numeralText_isWellFormed (n : ℤ) : IsWellFormed (numeralText n) := by
  unfold numeralText
  split_ifs
  · exact decimalText_isWellFormed n
  · have hexponent : IsWellFormed (.char 'p' :: decimal (Rounding.lastDigit 53 n)) :=
      congrArg (_ :: ·) (decimal_isWellFormed _)
    exact (decimalText_isWellFormed _).append hexponent

theorem byteLength_numeralText {n : ℤ} (h : IsDouble n) : byteLength (numeralText n) ≤ 24 := by
  unfold numeralText
  split_ifs with hsmall
  · exact (byteLength_decimalText hsmall).trans (by decide)
  · obtain ⟨hk, he, -⟩ := h.parts
    have hp : (JsChar.char 'p').utf8Size = 1 := by decide
    have hk' := byteLength_decimalText hk
    have he' : byteLength (decimal (Rounding.lastDigit 53 n)) ≤ 4 :=
      byteLength_decimal (by decide) (he.trans (by decide))
    rw [byteLength_append, byteLength_cons, hp]
    omega

/-- The doubles that are integers. -/
def decimalNumerals : Numerals where
  IsNumber := IsDouble
  toNumber := readNumeral
  toText := numeralText
  isNumber_of_toNumber _ _ := isDouble_of_readNumeral
  isNumber_of_isDouble _ h := h
  toNumber_toText _ := readNumeral_numeralText
  toText_isToken n _ := numeralText_isToken n
  toText_isWellFormed n _ := numeralText_isWellFormed n
  byteLength_toText _ := byteLength_numeralText

end DistributedCache
