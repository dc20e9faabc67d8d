import Mathlib.Algebra.Order.Field.Power
import Mathlib.Algebra.Order.Round
import Mathlib.Data.Int.Log
import Mathlib.Data.Rat.Floor
import Mathlib.Tactic.Linarith
import Mathlib.Tactic.Positivity
import Mathlib.Tactic.Ring

/-!
# Rounded fractions

A score is a quotient of two counts in double precision: the exact fraction, rounded to a
**nearest number of 53 bits** (`RoundsToNearest`; ties may go either way, and `toBinary64` is one
way to round). Between zero and one such numbers lie at most `2 ^ -53` apart, so rounding moves a
number by no more than that, and two different fractions of counts below `2 ^ 26` lie more than
`2 ^ -52` apart (`IsSmallFraction.gap`). So **rounding keeps small fractions apart and in order**
(`RoundsToNearest.le_iff`): comparing what was rounded is comparing what was exact.
-/

namespace CodeNav

/-- A number from zero that double precision can hold: at most 53 bits, shifted. -/
def IsBinary64 (x : ℚ) : Prop :=
  ∃ (m : ℕ) (e : ℤ), m < 2 ^ 53 ∧ -1074 ≤ e ∧ e ≤ 971 ∧ x = m * 2 ^ e

/-- Numbers from zero to one go to a number of double precision that is as near as any. -/
structure RoundsToNearest (round : ℚ → ℚ) : Prop where
  binary64 : ∀ {x}, 0 ≤ x → x ≤ 1 → IsBinary64 (round x)
  nearest : ∀ {x}, 0 ≤ x → x ≤ 1 → ∀ {r}, IsBinary64 r → |x - round x| ≤ |x - r|

namespace IsBinary64

theorem nonneg {x : ℚ} (hx : IsBinary64 x) : 0 ≤ x := by
  obtain ⟨m, e, -, -, -, rfl⟩ := hx
  positivity

/-- Between zero and one every multiple of `2 ^ -53` can be held. -/
theorem of_grid {k : ℕ} (hk : k < 2 ^ 53) : IsBinary64 (k / 2 ^ 53) :=
  ⟨k, -53, hk, by decide, by decide, by rw [zpow_neg, div_eq_mul_inv]; rfl⟩

theorem zero : IsBinary64 0 := ⟨0, 0, by decide, by decide, by decide, by norm_num⟩

theorem one : IsBinary64 1 := ⟨1, 0, by decide, by decide, by decide, by norm_num⟩

/-- The grid of step `2 ^ -53` comes near every number from zero to one. -/
theorem exists_near {x : ℚ} (hzero : 0 ≤ x) (hone : x ≤ 1) :
    ∃ r, IsBinary64 r ∧ |x - r| ≤ 1 / 2 ^ 53 := by
  rcases hone.eq_or_lt with rfl | hlt
  · exact ⟨1, one, by norm_num⟩
  have hfloor : (⌊x * 2 ^ 53⌋₊ : ℚ) ≤ x * 2 ^ 53 := Nat.floor_le (by positivity)
  have habove : x * 2 ^ 53 < ⌊x * 2 ^ 53⌋₊ + 1 := Nat.lt_floor_add_one _
  have hk : ⌊x * 2 ^ 53⌋₊ < 2 ^ 53 := by
    rw [Nat.floor_lt (by positivity)]
    push_cast
    linarith
  refine ⟨_, of_grid hk, ?_⟩
  have hdiff : x - ⌊x * 2 ^ 53⌋₊ / 2 ^ 53 = (x * 2 ^ 53 - ⌊x * 2 ^ 53⌋₊) / 2 ^ 53 := by ring
  rw [hdiff, abs_of_nonneg (div_nonneg (sub_nonneg.mpr hfloor) (by positivity))]
  exact div_le_div_of_nonneg_right (by linarith) (by positivity)

end IsBinary64

/-- A part of fewer than `2 ^ 26` things, as a fraction. -/
def IsSmallFraction (x : ℚ) : Prop :=
  ∃ a b : ℕ, a ≤ b ∧ 0 < b ∧ b < 2 ^ 26 ∧ x = a / b

namespace IsSmallFraction

variable {x y : ℚ}

/-- A share is never negative. -/
theorem nonneg (hx : IsSmallFraction x) : 0 ≤ x := by
  obtain ⟨a, b, -, -, -, rfl⟩ := hx
  positivity

/-- A share is never more than all. -/
theorem le_one (hx : IsSmallFraction x) : x ≤ 1 := by
  obtain ⟨a, b, hle, -, -, rfl⟩ := hx
  exact div_le_one_of_le₀ (by exact_mod_cast hle) (by positivity)

theorem zero : IsSmallFraction 0 := ⟨0, 1, by decide, by decide, by decide, by norm_num⟩

theorem one : IsSmallFraction 1 := ⟨1, 1, by decide, by decide, by decide, by norm_num⟩

/-- **Different small fractions lie apart.** -/
theorem gap (hx : IsSmallFraction x) (hy : IsSmallFraction y) (hlt : x < y) :
    1 / 2 ^ 52 < y - x := by
  obtain ⟨a, b, -, hb, hbsmall, rfl⟩ := hx
  obtain ⟨c, d, -, hd, hdsmall, rfl⟩ := hy
  have hbq : (0 : ℚ) < b := by exact_mod_cast hb
  have hdq : (0 : ℚ) < d := by exact_mod_cast hd
  have hcross : (a * d + 1 : ℚ) ≤ c * b := by
    rw [div_lt_div_iff₀ hbq hdq] at hlt
    have hnat : a * d < c * b := by exact_mod_cast hlt
    exact_mod_cast Nat.succ_le_of_lt hnat
  have hsmall : (d * b : ℚ) < 2 ^ 52 := by
    have hnat : d * b < 2 ^ 26 * 2 ^ 26 := Nat.mul_lt_mul'' hdsmall hbsmall
    exact_mod_cast hnat
  rw [div_sub_div _ _ hdq.ne' hbq.ne', div_lt_div_iff₀ (by positivity) (by positivity)]
  linarith

end IsSmallFraction

namespace RoundsToNearest

variable {round : ℚ → ℚ} (hround : RoundsToNearest round)
include hround

/-- Rounding makes nothing negative, as it goes to a number that double precision can hold. -/
theorem nonneg {x : ℚ} (hzero : 0 ≤ x) (hone : x ≤ 1) : 0 ≤ round x :=
  (hround.binary64 hzero hone).nonneg

/-- No further off than the nearest place of the grid. -/
theorem near {x : ℚ} (hzero : 0 ≤ x) (hone : x ≤ 1) : |x - round x| ≤ 1 / 2 ^ 53 := by
  obtain ⟨r, hr, hnear⟩ := IsBinary64.exists_near hzero hone
  exact (hround.nearest hzero hone hr).trans hnear

/-- One can be held, so nothing below it is rounded above it. -/
theorem le_one {x : ℚ} (hzero : 0 ≤ x) (hone : x ≤ 1) : round x ≤ 1 := by
  have h := hround.nearest hzero hone IsBinary64.one
  rw [abs_sub_comm x 1, abs_of_nonneg (sub_nonneg.mpr hone), abs_le] at h
  linarith [h.1]

/-- What needs no rounding is left as it is. -/
theorem fixed {x : ℚ} (hzero : 0 ≤ x) (hone : x ≤ 1) (hx : IsBinary64 x) : round x = x := by
  have h := hround.nearest hzero hone hx
  rw [sub_self, abs_zero] at h
  exact (sub_eq_zero.mp (abs_nonpos_iff.mp h)).symm

theorem one : round 1 = 1 := hround.fixed zero_le_one le_rfl IsBinary64.one

theorem zero : round 0 = 0 := hround.fixed le_rfl zero_le_one IsBinary64.zero

variable {x y : ℚ}

/-- **Rounding keeps small fractions in order and apart**: they lie further apart than rounding
moves both of them. -/
theorem lt_of_lt (hx : IsSmallFraction x) (hy : IsSmallFraction y) (hlt : x < y) :
    round x < round y := by
  have hgap := hx.gap hy hlt
  have hleft := abs_le.mp (hround.near hx.nonneg hx.le_one)
  have hright := abs_le.mp (hround.near hy.nonneg hy.le_one)
  linarith [hleft.1, hright.2]

/-- **Small fractions compare after rounding as they did before.** -/
theorem le_iff (hx : IsSmallFraction x) (hy : IsSmallFraction y) :
    round x ≤ round y ↔ x ≤ y := by
  constructor
  · intro hle
    by_contra hlt
    exact absurd (hround.lt_of_lt hy hx (not_le.mp hlt)) (not_lt.mpr hle)
  · intro hle
    rcases hle.eq_or_lt with rfl | hlt
    · exact le_rfl
    · exact (hround.lt_of_lt hx hy hlt).le

/-- So equal scores are scores of equal fractions. -/
theorem eq_iff (hx : IsSmallFraction x) (hy : IsSmallFraction y) :
    round x = round y ↔ x = y := by
  rw [le_antisymm_iff, le_antisymm_iff, hround.le_iff hx hy, hround.le_iff hy hx]

end RoundsToNearest

/-- The shift that leaves 53 bits before the point, or the least there is. -/
def binary64Shift (x : ℚ) : ℤ := max (Int.log 2 x - 52) (-1074)

/-- Rounding at the last of 53 bits. -/
def toBinary64 (x : ℚ) : ℚ := round (x / 2 ^ binary64Shift x) * 2 ^ binary64Shift x

section toBinary64

variable {x : ℚ}

/-- A number up to one needs no large shift. -/
theorem binary64Shift_lt (hzero : 0 ≤ x) (hone : x ≤ 1) : binary64Shift x < 971 := by
  have hlog : Int.log 2 x ≤ 0 := by
    rcases hzero.eq_or_lt with rfl | hpos
    · exact (Int.log_zero_right 2).le
    · exact (Int.log_mono_right hpos hone).trans (Int.log_one_right 2).le
  simp only [binary64Shift]
  omega

/-- At most 53 bits are left, and the next power of two. -/
theorem round_shifted_le (hzero : 0 ≤ x) :
    ∃ m : ℕ, m ≤ 2 ^ 53 ∧ round (x / 2 ^ binary64Shift x) = m := by
  have hpow : (0 : ℚ) < 2 ^ binary64Shift x := by positivity
  have hbits : x / 2 ^ binary64Shift x < 2 ^ 53 := by
    have hshift : Int.log 2 x + 1 ≤ 53 + binary64Shift x := by
      simp only [binary64Shift]
      omega
    rw [div_lt_iff₀ hpow]
    calc x < 2 ^ (Int.log 2 x + 1) := by exact_mod_cast Int.lt_zpow_succ_log_self (by decide) x
      _ ≤ 2 ^ (53 + binary64Shift x) := zpow_le_zpow_right₀ one_le_two hshift
      _ = 2 ^ 53 * 2 ^ binary64Shift x := by rw [zpow_add₀ two_ne_zero]; rfl
  have hnonneg : 0 ≤ x / 2 ^ binary64Shift x := div_nonneg hzero hpow.le
  have hnear := abs_le.mp (abs_sub_round (x / 2 ^ binary64Shift x))
  have hlow : -1 < round (x / 2 ^ binary64Shift x) := by
    have hcast : ((-1 : ℤ) : ℚ) < round (x / 2 ^ binary64Shift x) := by
      push_cast
      linarith [hnear.2]
    exact_mod_cast hcast
  have hhigh : round (x / 2 ^ binary64Shift x) < 2 ^ 53 + 1 := by
    have hcast : (round (x / 2 ^ binary64Shift x) : ℚ) < ((2 ^ 53 + 1 : ℤ) : ℚ) := by
      push_cast
      linarith [hnear.1]
    exact_mod_cast hcast
  exact ⟨(round (x / 2 ^ binary64Shift x)).toNat, by omega, by omega⟩

/-- What is rounded so fits into 53 bits, shifted within the range of double precision. -/
theorem isBinary64_toBinary64 (hzero : 0 ≤ x) (hone : x ≤ 1) : IsBinary64 (toBinary64 x) := by
  obtain ⟨m, hm, hround⟩ := round_shifted_le hzero
  have hshift := binary64Shift_lt hzero hone
  rw [toBinary64, hround, Int.cast_natCast]
  rcases hm.eq_or_lt with rfl | hlt
  · refine ⟨2 ^ 52, binary64Shift x + 1, by decide, ?_, hshift, ?_⟩
    · exact (le_max_right _ _).trans (Int.le_add_one le_rfl)
    · rw [zpow_add_one₀ two_ne_zero]
      push_cast
      ring
  · exact ⟨m, _, hlt, le_max_right _ _, hshift.le, rfl⟩

/-- No multiple of the last bit is nearer. -/
theorem toBinary64_nearest_multiple (x : ℚ) (z : ℤ) :
    |x - toBinary64 x| ≤ |x - z * 2 ^ binary64Shift x| := by
  have hpow : (0 : ℚ) < 2 ^ binary64Shift x := by positivity
  have hscale (w : ℤ) : |x - w * 2 ^ binary64Shift x| =
      |x / 2 ^ binary64Shift x - w| * 2 ^ binary64Shift x := by
    rw [← abs_of_pos hpow, ← abs_mul, abs_of_pos hpow, sub_mul, div_mul_cancel₀ _ hpow.ne']
  rw [toBinary64, hscale, hscale]
  exact mul_le_mul_of_nonneg_right (round_le _ z) hpow.le

/-- **There is a rounding to the nearest.** A number that is not a multiple of the last bit has its
bits further down, and so lies below all that `x` was shifted for. -/
theorem roundsToNearest_toBinary64 : RoundsToNearest toBinary64 where
  binary64 := isBinary64_toBinary64
  nearest {x} hzero hone r hr := by
    obtain ⟨m, e, hm, hlow, -, rfl⟩ := hr
    rcases le_or_gt (binary64Shift x) e with hle | hlt
    · have hmultiple : (m * 2 ^ e : ℚ) =
          ((m * 2 ^ (e - binary64Shift x).toNat : ℤ) : ℚ) * 2 ^ binary64Shift x := by
        push_cast
        rw [mul_assoc, ← zpow_natCast, ← zpow_add₀ two_ne_zero]
        congr 2
        omega
      rw [hmultiple]
      exact toBinary64_nearest_multiple x _
    rcases hzero.eq_or_lt with rfl | hpos
    · have hstays : toBinary64 0 = 0 := by simp [toBinary64]
      rw [hstays, sub_self, abs_zero]
      exact abs_nonneg _
    -- the least number of 53 bits before the point stands between the other number and `x`
    have hshift : binary64Shift x = Int.log 2 x - 52 := by
      simp only [binary64Shift] at hlt ⊢
      omega
    have hbelow : (m * 2 ^ e : ℚ) ≤ 2 ^ 52 * 2 ^ binary64Shift x := by
      have hmq : (m : ℚ) ≤ 2 ^ 53 := by exact_mod_cast hm.le
      calc (m * 2 ^ e : ℚ) ≤ 2 ^ 53 * 2 ^ e := mul_le_mul_of_nonneg_right hmq (by positivity)
        _ = 2 ^ 52 * 2 ^ (e + 1) := by rw [zpow_add_one₀ two_ne_zero]; ring
        _ ≤ 2 ^ 52 * 2 ^ binary64Shift x :=
          mul_le_mul_of_nonneg_left (zpow_le_zpow_right₀ one_le_two hlt) (by positivity)
    have habove : (2 ^ 52 * 2 ^ binary64Shift x : ℚ) ≤ x := by
      calc (2 ^ 52 * 2 ^ binary64Shift x : ℚ) = 2 ^ (52 + binary64Shift x) := by
            rw [zpow_add₀ two_ne_zero]; rfl
        _ = 2 ^ Int.log 2 x := by rw [hshift]; congr 1; omega
        _ ≤ x := by exact_mod_cast Int.zpow_log_le_self (by decide) hpos
    have hnear := toBinary64_nearest_multiple x (2 ^ 52)
    rw [Int.cast_pow, Int.cast_ofNat, abs_of_nonneg (sub_nonneg.mpr habove)] at hnear
    rw [abs_of_nonneg (sub_nonneg.mpr (hbelow.trans habove))]
    linarith

end toBinary64

end CodeNav
