import Mathlib.Data.List.Basic
import Mathlib.Tactic

/-!
# JavaScript strings and numbers

Strings are sequences of code points: Unicode characters, and surrogates that are not part of a
pair. The only sizes the programs below look at are whether a string is empty and how many bytes its
UTF-8 form has; encoding puts U+FFFD in the place of a surrogate, so that a string that is written
to a socket arrives as `toWellFormed` of it. Numbers are split by what `Number.isInteger` and
`Number.isFinite` see of them; the integral ones carry their value exactly.

* `JsChar`, `JsString`, `js`, `byteLength` (`Buffer.byteLength(s, 'utf8')`), `decimal` (`${n}` for a
  natural), `toWellFormed`, `IsWellFormed`;
* `JsNumber`, `JsNumber.isFinite`.
-/

namespace DistributedCache

/-- A code point of a string; the surrogates are counted from U+D800. -/
inductive JsChar
  | char (c : Char)
  | surrogate (n : Fin 2048)
  deriving DecidableEq, Repr

instance : Coe Char JsChar := ⟨.char⟩

namespace JsChar

/-- The number of a code point. -/
def toNat : JsChar → ℕ
  | .char c => c.toNat
  | .surrogate n => 0xD800 + n

/-- How many bytes its UTF-8 form has. -/
def utf8Size : JsChar → ℕ
  | .char c => c.utf8Size
  | .surrogate _ => 3

@[simp] theorem char_beq (c d : Char) : (char c == char d) = (c == d) := by
  rw [Bool.eq_iff_iff, beq_iff_eq, beq_iff_eq, char.injEq]

/-- Whether it is an ASCII digit. -/
def isDigit : JsChar → Bool
  | .char c => c.isDigit
  | .surrogate _ => false

/-- The character that is encoded for it, U+FFFD for a surrogate. -/
def toWellFormed : JsChar → JsChar
  | .char c => .char c
  | .surrogate _ => .char '\uFFFD'

end JsChar

/-- A string, code point by code point. -/
abbrev JsString := List JsChar

/-- Strings are compared by decidable equality, so that results about maps and lists over any
decidable type apply to them as they stand. -/
instance (priority := high) jsStringBEq : BEq JsString := instBEqOfDecidableEq

/-- A string literal. -/
def js (s : String) : JsString := s.toList.map .char

/-- `Buffer.byteLength(s, 'utf8')`. -/
def byteLength (s : JsString) : ℕ := (s.map JsChar.utf8Size).sum

@[simp] theorem byteLength_nil : byteLength [] = 0 := rfl

@[simp] theorem byteLength_cons (c : JsChar) (s : JsString) :
    byteLength (c :: s) = c.utf8Size + byteLength s := by
  simp [byteLength]

@[simp] theorem byteLength_append (s t : JsString) :
    byteLength (s ++ t) = byteLength s + byteLength t := by
  simp [byteLength]

/-- The decimal digits of a natural number, as a template literal prints it. -/
def decimal (n : ℕ) : JsString := (Nat.toDigits 10 n).map .char

/-! ### Well-formed strings -/

/-- `s.toWellFormed()`, which is what arrives of a string that is written to a socket. -/
def toWellFormed (s : JsString) : JsString := s.map JsChar.toWellFormed

/-- `s.isWellFormed()`. -/
def IsWellFormed (s : JsString) : Prop := toWellFormed s = s

instance (s : JsString) : Decidable (IsWellFormed s) := inferInstanceAs (Decidable (_ = _))

@[simp] theorem toWellFormed_nil : toWellFormed [] = [] := rfl

@[simp] theorem toWellFormed_cons (c : JsChar) (s : JsString) :
    toWellFormed (c :: s) = c.toWellFormed :: toWellFormed s := rfl

@[simp] theorem toWellFormed_append (s t : JsString) :
    toWellFormed (s ++ t) = toWellFormed s ++ toWellFormed t :=
  List.map_append

@[simp] theorem toWellFormed_js (s : String) : toWellFormed (js s) = js s := by
  simp [toWellFormed, js, JsChar.toWellFormed]

theorem JsChar.toWellFormed_toWellFormed (c : JsChar) :
    c.toWellFormed.toWellFormed = c.toWellFormed := by
  cases c <;> rfl

@[simp] theorem isWellFormed_toWellFormed (s : JsString) : IsWellFormed (toWellFormed s) := by
  unfold IsWellFormed toWellFormed
  rw [List.map_map]
  exact List.map_congr_left fun c _ => c.toWellFormed_toWellFormed

theorem isWellFormed_iff {s : JsString} : IsWellFormed s ↔ ∀ c ∈ s, c.toWellFormed = c := by
  unfold IsWellFormed toWellFormed
  rw [← List.map_inj_left (g := fun c => c), List.map_id']

theorem IsWellFormed.subset {s t : JsString} (h : IsWellFormed s) (hsub : t ⊆ s) : IsWellFormed t :=
  isWellFormed_iff.2 fun c hc => isWellFormed_iff.1 h c (hsub hc)

theorem IsWellFormed.append {s t : JsString} (hs : IsWellFormed s) (ht : IsWellFormed t) :
    IsWellFormed (s ++ t) := by
  rw [IsWellFormed, toWellFormed_append, hs, ht]

/-- A number, by what the integrality and finiteness tests see. A finite number with a fractional
part is never computed with, so its value is left out. -/
inductive JsNumber
  | int (n : ℤ)
  | fraction
  | infinity
  | negInfinity
  | nan
  deriving DecidableEq, Repr

/-- `Number.isFinite`. -/
def JsNumber.isFinite : JsNumber → Bool
  | .int _ => true
  | .fraction => true
  | _ => false

end DistributedCache
