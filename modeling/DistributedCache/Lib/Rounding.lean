import Mathlib.Data.Nat.Log
import Mathlib.Tactic

/-!
# Rounding to a number of binary digits

The integers that have a binary significand of at most `p` digits, and rounding to the nearest of
them, ties to even, with unbounded exponents.

* `nearest n d`: the integer nearest to `n / d`;
* `Representable p`, `round p`: what is representable is returned (`round_eq`), and the order is kept
  (`round_mono`);
* `floorQuotient p n d`: the integral part of the rounded quotient; it is `n / d` as long as `p`
  digits tell the quotient from the next integer (`floorQuotient_eq`).
-/

namespace DistributedCache

namespace Rounding

/-- The integer nearest to `n / d`, ties to even. -/
def nearest (n : ℤ) (d : ℕ) : ℤ :=
  if 2 * (n % d) < d ∨ 2 * (n % d) = d ∧ n / d % 2 = 0 then n / d else n / d + 1

theorem nearest_mul (k : ℤ) {d : ℕ} (hd : 0 < d) : nearest (k * d) d = k := by
  have hd' : (d : ℤ) ≠ 0 := by omega
  unfold nearest
  rw [Int.mul_emod_left, Int.mul_ediv_cancel k hd']
  exact if_pos (Or.inl (by omega))

/-- No integer is nearer than half the way to the next one. -/
theorem nearest_bounds (n : ℤ) {d : ℕ} (hd : 0 < d) :
    2 * n - d ≤ 2 * (nearest n d * d) ∧ 2 * (nearest n d * d) ≤ 2 * n + d := by
  have hdiv := Int.ediv_mul_add_emod n d
  have hlow := Int.emod_nonneg n (by omega : (d : ℤ) ≠ 0)
  have hhigh := Int.emod_lt_of_pos n (by omega : (0 : ℤ) < d)
  unfold nearest
  split_ifs with h
  · constructor <;> omega
  · rw [add_mul, one_mul]
    constructor <;> omega

theorem nearest_nonneg {n : ℤ} (hn : 0 ≤ n) (d : ℕ) : 0 ≤ nearest n d := by
  have hdiv : 0 ≤ n / d := Int.ediv_nonneg hn (by omega)
  unfold nearest
  split_ifs <;> omega

theorem nearest_le {n k : ℤ} {d : ℕ} (hd : 0 < d) (h : n ≤ k * d) : nearest n d ≤ k := by
  obtain ⟨-, hhigh⟩ := nearest_bounds n hd
  by_contra hlt
  have hmul : (k + 1) * d ≤ nearest n d * d :=
    mul_le_mul_of_nonneg_right (by omega) (by omega)
  rw [add_mul, one_mul] at hmul
  omega

theorem le_nearest {n k : ℤ} {d : ℕ} (hd : 0 < d) (h : k * d ≤ n) : k ≤ nearest n d := by
  obtain ⟨hlow, -⟩ := nearest_bounds n hd
  by_contra hlt
  have hmul : nearest n d * d ≤ (k - 1) * d :=
    mul_le_mul_of_nonneg_right (by omega) (by omega)
  rw [sub_mul, one_mul] at hmul
  omega

theorem nearest_mono {m n : ℤ} (h : m ≤ n) {d : ℕ} (hd : 0 < d) : nearest m d ≤ nearest n d := by
  have hle : m / d ≤ n / d := Int.ediv_le_ediv (by omega) h
  have hm := Int.ediv_mul_add_emod m d
  have hn := Int.ediv_mul_add_emod n d
  unfold nearest
  rcases hle.lt_or_eq with hlt | heq
  · split_ifs <;> omega
  · -- with one integral part, the larger of the two has the larger remainder
    rw [heq] at hm ⊢
    split_ifs <;> omega

/-! ### Significands -/

/-- An integer with a significand of at most `p` binary digits. -/
def Representable (p : ℕ) (n : ℤ) : Prop := ∃ (k : ℤ) (e : ℕ), n = k * 2 ^ e ∧ k.natAbs ≤ 2 ^ p

/-- The exponent of the last one of `p` digits. -/
def lastDigit (p : ℕ) (n : ℤ) : ℕ := Nat.log2 n.natAbs + 1 - p

/-- Round to `p` binary digits. -/
def round (p : ℕ) (n : ℤ) : ℤ := nearest n (2 ^ lastDigit p n) * 2 ^ lastDigit p n

theorem representable_of_natAbs_le {p : ℕ} {n : ℤ} (h : n.natAbs ≤ 2 ^ p) : Representable p n :=
  ⟨n, 0, by rw [pow_zero, mul_one], h⟩

theorem natAbs_le_digits (p : ℕ) (n : ℤ) :
    n.natAbs ≤ 2 ^ p * 2 ^ lastDigit p n := by
  rw [← pow_add]
  refine (Nat.lt_log2_self (n := n.natAbs)).le.trans (Nat.pow_le_pow_right (by decide) ?_)
  unfold lastDigit
  omega

/-- The last digit of a representable integer is no lower than that of its significand. -/
theorem dvd_of_representable {p : ℕ} (hp : 0 < p) {n : ℤ} (h : Representable p n) :
    ((2 ^ lastDigit p n : ℕ) : ℤ) ∣ n := by
  obtain ⟨k, e, rfl, hk⟩ := h
  by_cases hzero : k = 0
  · rw [hzero, zero_mul]
    exact dvd_zero _
  have habs : (k * 2 ^ e).natAbs = k.natAbs * 2 ^ e := by
    rw [Int.natAbs_mul, Int.natAbs_pow]
    rfl
  have hne : k.natAbs * 2 ^ e ≠ 0 :=
    Nat.mul_ne_zero (Int.natAbs_ne_zero.2 hzero) (Nat.two_pow_pos e).ne'
  unfold lastDigit
  rw [habs]
  have hlog : 2 ^ Nat.log2 (k.natAbs * 2 ^ e) ≤ 2 ^ (p + e) := by
    refine (Nat.log2_self_le hne).trans ?_
    rw [pow_add]
    exact Nat.mul_le_mul_right _ hk
  have hexp := (Nat.pow_le_pow_iff_right (by decide : 1 < 2)).1 hlog
  rcases Nat.lt_or_ge (Nat.log2 (k.natAbs * 2 ^ e)) (p + e) with hlt | hge
  · have hdvd : (2 : ℤ) ^ (Nat.log2 (k.natAbs * 2 ^ e) + 1 - p) ∣ 2 ^ e := pow_dvd_pow 2 (by omega)
    push_cast
    exact hdvd.mul_left k
  · -- a significand of `p + 1` digits that is allowed is a power of two
    have hpow : k.natAbs = 2 ^ p := by
      refine le_antisymm hk ?_
      have hself := Nat.log2_self_le hne
      rw [le_antisymm hexp hge, pow_add] at hself
      exact Nat.le_of_mul_le_mul_right hself (Nat.two_pow_pos e)
    rw [← Int.dvd_natAbs, habs, hpow, ← pow_add, Nat.log2_two_pow]
    exact Int.natCast_dvd_natCast.2 (pow_dvd_pow 2 (by omega))

/-- **What is representable is returned.** -/
theorem round_eq {p : ℕ} (hp : 0 < p) {n : ℤ} (h : Representable p n) : round p n = n := by
  obtain ⟨k, hk⟩ := dvd_of_representable hp h
  have hn : n = k * ((2 ^ lastDigit p n : ℕ) : ℤ) := by rw [mul_comm]; exact hk
  have hpos : 0 < 2 ^ lastDigit p n := Nat.two_pow_pos _
  have hnearest : nearest n (2 ^ lastDigit p n) = k := by
    generalize 2 ^ lastDigit p n = d at hn hpos
    rw [hn]
    exact nearest_mul k hpos
  rw [round, hnearest]
  exact_mod_cast hn.symm

/-! ### Order -/

theorem round_le_of_dvd {p : ℕ} {n r : ℤ} (hr : ((2 ^ lastDigit p n : ℕ) : ℤ) ∣ r) (h : n ≤ r) :
    round p n ≤ r := by
  obtain ⟨k, rfl⟩ := hr
  rw [mul_comm] at h ⊢
  have hle := nearest_le (Nat.two_pow_pos _) h
  unfold round
  exact_mod_cast mul_le_mul_of_nonneg_right hle (by positivity)

theorem le_round_of_dvd {p : ℕ} {n r : ℤ} (hr : ((2 ^ lastDigit p n : ℕ) : ℤ) ∣ r) (h : r ≤ n) :
    r ≤ round p n := by
  obtain ⟨k, rfl⟩ := hr
  rw [mul_comm] at h ⊢
  have hle := le_nearest (Nat.two_pow_pos _) h
  unfold round
  exact_mod_cast mul_le_mul_of_nonneg_right hle (by positivity)

/-- Where the last digits differ, a power of two lies between the two sizes. -/
theorem exists_pow_between {p : ℕ} (hp : 0 < p) {m n : ℤ} (h : lastDigit p m < lastDigit p n) :
    ∃ r : ℤ, m.natAbs < r ∧ r ≤ n.natAbs ∧ ((2 ^ lastDigit p m : ℕ) : ℤ) ∣ r ∧
      ((2 ^ lastDigit p n : ℕ) : ℤ) ∣ r := by
  have hdigit : lastDigit p n ≤ Nat.log2 n.natAbs := by
    unfold lastDigit
    omega
  have hlog : Nat.log2 m.natAbs + 1 ≤ Nat.log2 n.natAbs := by
    unfold lastDigit at h
    omega
  have hne : n.natAbs ≠ 0 := by
    intro hzero
    rw [hzero, Nat.log2_zero] at hlog
    omega
  refine ⟨((2 ^ Nat.log2 n.natAbs : ℕ) : ℤ), ?_, ?_, ?_, ?_⟩
  · exact_mod_cast (Nat.lt_log2_self (n := m.natAbs)).trans_le
      (Nat.pow_le_pow_right (by decide) hlog)
  · exact_mod_cast Nat.log2_self_le hne
  · exact Int.natCast_dvd_natCast.2 (pow_dvd_pow 2 (h.le.trans hdigit))
  · exact Int.natCast_dvd_natCast.2 (pow_dvd_pow 2 hdigit)

/-- **Rounding keeps the order.** -/
theorem round_mono {p : ℕ} (hp : 0 < p) {m n : ℤ} (h : m ≤ n) : round p m ≤ round p n := by
  rcases Nat.lt_trichotomy (lastDigit p m) (lastDigit p n) with hlt | heq | hgt
  · obtain ⟨r, hm, hn, hdvd, hdvd'⟩ := exists_pow_between hp hlt
    have hpos : 0 ≤ n := by omega
    exact (round_le_of_dvd hdvd (by omega)).trans (le_round_of_dvd hdvd' (by omega))
  · unfold round
    rw [heq]
    exact mul_le_mul_of_nonneg_right (nearest_mono h (Nat.two_pow_pos _)) (by positivity)
  · obtain ⟨r, hn, hm, hdvd, hdvd'⟩ := exists_pow_between hp hgt
    exact (round_le_of_dvd (hdvd'.neg_right) (by omega)).trans
      (le_round_of_dvd (hdvd.neg_right) (by omega))

/-- What is representable and not above a number is not above what the number is rounded to. -/
theorem le_round {p : ℕ} (hp : 0 < p) {r n : ℤ} (hr : Representable p r) (h : r ≤ n) :
    r ≤ round p n := by
  rw [← round_eq hp hr]
  exact round_mono hp h

/-! ### Quotients -/

/-- The digits of `n / d` in front of the point. -/
def wholeDigits (n : ℤ) (d : ℕ) : ℕ := if n.natAbs < d then 0 else Nat.log2 (n.natAbs / d) + 1

theorem lt_two_pow_wholeDigits (n : ℤ) {d : ℕ} (hd : 0 < d) :
    n.natAbs < d * 2 ^ wholeDigits n d := by
  unfold wholeDigits
  split_ifs with h
  · rwa [pow_zero, Nat.mul_one]
  · rw [Nat.mul_comm]
    exact (Nat.div_lt_iff_lt_mul hd).1 Nat.lt_log2_self

theorem wholeDigits_le {n : ℤ} {d c : ℕ} (hd : 0 < d) (h : n.natAbs < d * 2 ^ c) :
    wholeDigits n d ≤ c := by
  unfold wholeDigits
  split_ifs with hlt
  · exact Nat.zero_le c
  · have hne : n.natAbs / d ≠ 0 := (Nat.div_pos (not_lt.1 hlt) hd).ne'
    rw [Nat.mul_comm] at h
    exact (Nat.log2_lt hne).2 ((Nat.div_lt_iff_lt_mul hd).2 h)

/-- A quotient has fewer digits than what is divided by two or more. -/
theorem wholeDigits_lt {n : ℤ} {d e : ℕ} (hd : 1 < d) (he : 0 < e) (hn : 0 ≤ n) (h : n < 2 ^ e) :
    wholeDigits n d < e := by
  have hnat : n.natAbs < 2 ^ e := by
    have hcast : (n.natAbs : ℤ) < 2 ^ e := (Int.natAbs_of_nonneg hn).trans_lt h
    exact_mod_cast hcast
  have hle : 2 ^ e ≤ d * 2 ^ (e - 1) := by
    rw [← mul_pow_sub_one he.ne' 2]
    exact Nat.mul_le_mul_right _ hd
  exact Nat.lt_of_le_pred he (wholeDigits_le (by omega) (hnat.trans_le hle))

/-- The integral part of `n / d`, rounded to `p` binary digits. -/
def floorQuotient (p : ℕ) (n : ℤ) (d : ℕ) : ℤ :=
  let digits := wholeDigits n d
  if p ≤ digits then nearest n (d * 2 ^ (digits - p)) * 2 ^ (digits - p)
  else nearest (n * 2 ^ (p - digits)) d / 2 ^ (p - digits)

/-- As long as `p` digits reach `c` places behind the point, which is enough to tell `n / d` from
the next integer, rounding does not show in the integral part. -/
theorem floorQuotient_eq {p : ℕ} {n : ℤ} {d c : ℕ} (hn : 0 ≤ n) (hd : 0 < d) (hc : 0 < c)
    (hp : c < p) (hfine : d < 2 ^ (c + 1)) (hlt : n < d * 2 ^ (p - c)) :
    floorQuotient p n d = n / d := by
  have hdigits : wholeDigits n d ≤ p - c := by
    refine wholeDigits_le hd ?_
    have hlt' : (n.natAbs : ℤ) < ((d * 2 ^ (p - c) : ℕ) : ℤ) := by
      rw [Int.natAbs_of_nonneg hn]
      exact_mod_cast hlt
    exact_mod_cast hlt'
  unfold floorQuotient
  simp only
  generalize wholeDigits n d = digits at hdigits
  rw [if_neg (by omega)]
  -- the unit in the last place is `1 / u`, and `d` is less than `2 * u`
  have hu : d < 2 * 2 ^ (p - digits) := by
    refine hfine.trans_le ?_
    rw [← pow_succ']
    exact Nat.pow_le_pow_right (by decide) (by omega)
  have hupos : (0 : ℤ) < 2 ^ (p - digits) := by positivity
  have hcast : (d : ℤ) < 2 * 2 ^ (p - digits) := by exact_mod_cast hu
  generalize (2 : ℤ) ^ (p - digits) = u at hupos hcast
  have hdiv := Int.ediv_mul_add_emod n d
  have hrem := Int.emod_nonneg n (by omega : (d : ℤ) ≠ 0)
  have hrem' := Int.emod_lt_of_pos n (by omega : (0 : ℤ) < d)
  have hlow : n / d * u ≤ nearest (n * u) d := by
    refine le_nearest hd ?_
    nlinarith
  have hhigh : nearest (n * u) d < (n / d + 1) * u := by
    obtain ⟨-, hbound⟩ := nearest_bounds (n * u) hd
    nlinarith
  refine le_antisymm ?_ (Int.le_ediv_of_mul_le hupos hlow)
  exact Int.lt_add_one_iff.1 (Int.ediv_lt_of_lt_mul hupos hhigh)

theorem floorQuotient_nonneg {n : ℤ} (hn : 0 ≤ n) (p d : ℕ) : 0 ≤ floorQuotient p n d := by
  unfold floorQuotient
  simp only
  split_ifs
  · exact mul_nonneg (nearest_nonneg hn _) (by positivity)
  · exact Int.ediv_nonneg (nearest_nonneg (mul_nonneg hn (by positivity)) _) (by positivity)

theorem floorQuotient_nonpos {n : ℤ} (hn : n ≤ 0) (p : ℕ) {d : ℕ} (hd : 0 < d) :
    floorQuotient p n d ≤ 0 := by
  unfold floorQuotient
  simp only
  split_ifs
  · refine mul_nonpos_of_nonpos_of_nonneg (nearest_le (Nat.mul_pos hd (Nat.two_pow_pos _)) ?_)
      (by positivity)
    rwa [zero_mul]
  · refine Int.ediv_nonpos_of_nonpos_of_neg ?_ (by positivity)
    refine nearest_le hd ?_
    rw [zero_mul]
    exact mul_nonpos_of_nonpos_of_nonneg hn (by positivity)

/-- The integral part has a significand of `p` digits, and as many digits as that of `n / d`, or is
the next power of two. -/
theorem floorQuotient_spec {p : ℕ} {n : ℤ} {d : ℕ} (hn : 0 ≤ n) (hd : 0 < d) :
    Representable p (floorQuotient p n d) ∧ floorQuotient p n d ≤ 2 ^ wholeDigits n d := by
  have hlt : n < d * 2 ^ wholeDigits n d := by
    have hnat : (n.natAbs : ℤ) < ((d * 2 ^ wholeDigits n d : ℕ) : ℤ) := by
      exact_mod_cast lt_two_pow_wholeDigits n hd
    rw [Int.natAbs_of_nonneg hn] at hnat
    exact_mod_cast hnat
  have hpos := floorQuotient_nonneg hn p d
  unfold floorQuotient at hpos ⊢
  simp only at hpos ⊢
  generalize wholeDigits n d = digits at hlt hpos ⊢
  split_ifs at hpos ⊢ with hp
  · have hpow : (2 : ℤ) ^ digits = 2 ^ p * 2 ^ (digits - p) := by
      rw [← pow_add, Nat.add_sub_cancel' hp]
    have hk : nearest n (d * 2 ^ (digits - p)) ≤ 2 ^ p := by
      refine nearest_le (Nat.mul_pos hd (Nat.two_pow_pos _)) ?_
      push_cast
      rw [mul_left_comm, ← hpow]
      exact hlt.le
    have hk' := nearest_nonneg hn (d * 2 ^ (digits - p))
    have habs : ((nearest n (d * 2 ^ (digits - p))).natAbs : ℤ) ≤ ((2 ^ p : ℕ) : ℤ) := by
      rw [Int.natAbs_of_nonneg hk']
      exact_mod_cast hk
    refine ⟨⟨_, _, rfl, by exact_mod_cast habs⟩, ?_⟩
    rw [hpow]
    exact mul_le_mul_of_nonneg_right hk (by positivity)
  · have hpow : (2 : ℤ) ^ p = 2 ^ digits * 2 ^ (p - digits) := by
      rw [← pow_add, Nat.add_sub_cancel' (not_le.1 hp).le]
    have hk : nearest (n * 2 ^ (p - digits)) d ≤ 2 ^ digits * 2 ^ (p - digits) := by
      refine nearest_le hd ?_
      rw [mul_right_comm]
      refine mul_le_mul_of_nonneg_right ?_ (by positivity)
      rw [mul_comm]
      exact hlt.le
    have hle : nearest (n * 2 ^ (p - digits)) d / 2 ^ (p - digits) ≤ 2 ^ digits :=
      Int.ediv_le_of_le_mul (by positivity) hk
    refine ⟨representable_of_natAbs_le ?_, hle⟩
    have hmono : (2 : ℤ) ^ digits ≤ 2 ^ p := pow_le_pow_right₀ (by decide) (not_le.1 hp).le
    have habs : ((nearest (n * 2 ^ (p - digits)) d / 2 ^ (p - digits)).natAbs : ℤ) ≤
        ((2 ^ p : ℕ) : ℤ) := by
      rw [Int.natAbs_of_nonneg hpos]
      exact_mod_cast hle.trans hmono
    exact_mod_cast habs

end Rounding

end DistributedCache
