import Mathlib.Algebra.Order.Monoid.Unbundled.WithTop
import Mathlib.Tactic
import DistributedCache.Lib.Rounding

/-!
# Arithmetic on integral numbers

A number is a double: the integers among them have a significand of at most 53 binary digits and lie
below `2 ^ 1024`, and the result of a sum or a product is rounded to the nearest of them, or to
`Infinity` above them all. Integers up to `2 ^ 53` are not rounded.

* `IsDouble`: the integers that are numbers;
* `toDouble`: the number that stands for the result of an operation, `⊤` for `Infinity`; numbers
  stay as they are (`toDouble_of_isDouble`), and the order is kept (`toDouble_mono`).
-/

namespace DistributedCache

/-- The most binary digits that an integral number can have. -/
def DOUBLE_DIGITS : ℕ := 1024

/-- The integers that are numbers. -/
def IsDouble (n : ℤ) : Prop := Rounding.Representable 53 n ∧ n.natAbs < 2 ^ DOUBLE_DIGITS

/-- The number nearest to a result that is not too far below zero; `⊤` is `Infinity`. -/
def toDouble : WithTop ℤ → WithTop ℤ
  | ⊤ => ⊤
  | (n : ℤ) =>
      if DOUBLE_DIGITS ≤ Nat.log2 (Rounding.round 53 n).toNat then ⊤
      else (Rounding.round 53 n : ℤ)

theorem overflow_iff {n : ℤ} : DOUBLE_DIGITS ≤ Nat.log2 n.toNat ↔ 2 ^ DOUBLE_DIGITS ≤ n := by
  have hcast : (2 : ℤ) ^ DOUBLE_DIGITS ≤ n ↔ 2 ^ DOUBLE_DIGITS ≤ n.toNat := by
    have hpos : 0 < 2 ^ DOUBLE_DIGITS := Nat.two_pow_pos _
    rw [show (2 : ℤ) ^ DOUBLE_DIGITS = ((2 ^ DOUBLE_DIGITS : ℕ) : ℤ) from (Nat.cast_pow 2 _).symm]
    omega
  rw [hcast]
  rcases Nat.eq_zero_or_pos n.toNat with h | h
  · rw [h, Nat.log2_zero]
    exact iff_of_false (by decide) (not_le.2 (Nat.two_pow_pos _))
  · exact Nat.le_log2 h.ne'

theorem toDouble_coe (n : ℤ) : toDouble n =
    if 2 ^ DOUBLE_DIGITS ≤ Rounding.round 53 n then ⊤ else (Rounding.round 53 n : WithTop ℤ) := by
  simp only [toDouble, overflow_iff]

/-- Numbers are compared by evaluation. -/
instance (priority := high) decidableLEWithTop : DecidableLE (WithTop ℤ)
  | _, ⊤ => isTrue le_top
  | ⊤, (n : ℤ) => isFalse (WithTop.not_top_le_coe n)
  | (m : ℤ), (n : ℤ) => decidable_of_iff (m ≤ n) WithTop.coe_le_coe.symm

instance (priority := high) decidableLTWithTop : DecidableLT (WithTop ℤ) := fun x y =>
  decidable_of_iff (¬ y ≤ x) not_le

theorem isDouble_of_natAbs_le {n : ℤ} (h : n.natAbs ≤ 2 ^ 53) : IsDouble n :=
  ⟨Rounding.representable_of_natAbs_le h, h.trans_lt (Nat.pow_lt_pow_right (by decide) (by decide))⟩

theorem isDouble_two_pow {e : ℕ} (h : e < DOUBLE_DIGITS) : IsDouble (2 ^ e) := by
  refine ⟨⟨1, e, (one_mul _).symm, by decide⟩, ?_⟩
  have htwo : (2 : ℤ).natAbs = 2 := rfl
  rw [Int.natAbs_pow, htwo]
  exact Nat.pow_lt_pow_right (by decide) h

theorem toDouble_of_isDouble {n : ℤ} (h : IsDouble n) : toDouble n = n := by
  obtain ⟨hrep, hlt⟩ := h
  have hcast : (n.natAbs : ℤ) < 2 ^ DOUBLE_DIGITS := by exact_mod_cast hlt
  rw [toDouble_coe, Rounding.round_eq (by decide) hrep,
    if_neg (not_le.2 (Int.le_natAbs.trans_lt hcast))]

/-- **Small integers are not rounded.** -/
theorem toDouble_small {n : ℤ} (h : n.natAbs ≤ 2 ^ 53) : toDouble n = n :=
  toDouble_of_isDouble (isDouble_of_natAbs_le h)

theorem toDouble_coe_mono {m n : ℤ} (h : m ≤ n) : toDouble m ≤ toDouble n := by
  have hround := Rounding.round_mono (p := 53) (by decide) h
  rw [toDouble_coe, toDouble_coe]
  split_ifs with hm hn hn
  · exact le_rfl
  · exact absurd (hm.trans hround) hn
  · exact le_top
  · exact WithTop.coe_le_coe.2 hround

/-- **A larger result is no smaller a number.** -/
theorem toDouble_mono : Monotone toDouble := by
  intro x y h
  induction y using WithTop.recTopCoe with
  | top => exact le_top
  | coe n =>
    induction x using WithTop.recTopCoe with
    | top => exact absurd h (WithTop.not_top_le_coe n)
    | coe m => exact toDouble_coe_mono (WithTop.coe_le_coe.1 h)

/-- A number that a result reaches is reached by the number that stands for it. -/
theorem le_toDouble {n : ℤ} {x : WithTop ℤ} (hn : IsDouble n) (h : (n : WithTop ℤ) ≤ x) :
    (n : WithTop ℤ) ≤ toDouble x := by
  rw [← toDouble_of_isDouble hn]
  exact toDouble_mono h

theorem toDouble_eq_top {n : ℤ} (h : 2 ^ DOUBLE_DIGITS ≤ n) : toDouble n = ⊤ := by
  have hrep : Rounding.Representable 53 (2 ^ DOUBLE_DIGITS) :=
    ⟨1, DOUBLE_DIGITS, (one_mul _).symm, by decide⟩
  rw [toDouble_coe, if_pos (Rounding.le_round (by decide) hrep h)]

theorem lt_of_toDouble_eq_coe {x : WithTop ℤ} {m : ℤ} (h : toDouble x = m) :
    m < 2 ^ DOUBLE_DIGITS := by
  induction x using WithTop.recTopCoe with
  | top => cases h
  | coe n =>
    rw [toDouble_coe] at h
    split_ifs at h with hlt
    · cases h
    · rw [← WithTop.coe_injective h]
      exact not_le.1 hlt

/-- The integral part of the quotient of a number is a number. -/
theorem isDouble_max_floorQuotient {n : ℤ} {d : ℕ} (hd : 1 < d) (hn : n < 2 ^ DOUBLE_DIGITS) :
    IsDouble (max 0 (Rounding.floorQuotient 53 n d)) := by
  have hpos : 0 < d := by omega
  rcases le_total n 0 with hneg | hn0
  · rw [max_eq_left (Rounding.floorQuotient_nonpos hneg 53 hpos)]
    exact isDouble_of_natAbs_le (by decide)
  · have hq := Rounding.floorQuotient_nonneg hn0 53 d
    obtain ⟨hrep, hle⟩ := Rounding.floorQuotient_spec (p := 53) hn0 hpos
    rw [max_eq_right hq]
    refine ⟨hrep, ?_⟩
    have hdigits := Rounding.wholeDigits_lt (by omega) (by decide) hn0 hn
    have hcast : ((Rounding.floorQuotient 53 n d).natAbs : ℤ) < 2 ^ DOUBLE_DIGITS := by
      rw [Int.natAbs_of_nonneg hq]
      exact hle.trans_lt (pow_lt_pow_right₀ (by decide) hdigits)
    exact_mod_cast hcast

end DistributedCache
