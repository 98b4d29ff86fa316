import Mathlib.Algebra.Order.Floor.Ring
import Mathlib.Algebra.Order.Round
import Mathlib.Data.Int.Log
import Mathlib.Data.Rat.Floor
import Mathlib.Tactic.Linarith
import Mathlib.Tactic.Positivity
import Mathlib.Tactic.Zify

/-! # `Lib.BinaryFloat` — correctly rounded binary numbers

The finite numbers of a binary format are the integers of so many bits, scaled by a power of two. A
rational is rounded to the nearest of them, and half-way to the even one; what is too large has no
rounded value. -/

/-- A binary format: how many bits, and the exponents of the last one. -/
structure BinaryFormat where
  precision : ℕ
  minExp : ℤ
  maxExp : ℤ
  precision_pos : 0 < precision
  minExp_le : minExp ≤ maxExp

namespace BinaryFormat

/-- The double precision of IEEE 754. -/
def binary64 : BinaryFormat where
  precision := 53
  minExp := -1074
  maxExp := 971
  precision_pos := by decide
  minExp_le := by decide

/-- The nearest integer, half-way the even one. -/
def roundHalfEven (x : ℚ) : ℤ :=
  if x - ⌊x⌋ < 1 / 2 then ⌊x⌋
  else if 1 / 2 < x - ⌊x⌋ then ⌊x⌋ + 1
  else if ⌊x⌋ % 2 = 0 then ⌊x⌋ else ⌊x⌋ + 1

variable (F : BinaryFormat)

/-- A finite number of the format. -/
def Representable (q : ℚ) : Prop :=
  ∃ m e : ℤ, |m| < 2 ^ F.precision ∧ F.minExp ≤ e ∧ e ≤ F.maxExp ∧ q = (m : ℚ) * 2 ^ e

/-- The exponent of the last bit of the numbers next to a rational. -/
def lastBit (q : ℚ) : ℤ := max (Int.log 2 |q| + 1 - F.precision) F.minExp

/-- The rounded value. -/
def round? (q : ℚ) : Option ℚ :=
  let rounded : ℚ := roundHalfEven (q / 2 ^ F.lastBit q) * 2 ^ F.lastBit q
  if |rounded| < 2 ^ (F.maxExp + F.precision) then some rounded else none

/-! ## Nearest integers -/

theorem floor_le_roundHalfEven (x : ℚ) : ⌊x⌋ ≤ roundHalfEven x := by
  unfold roundHalfEven
  split_ifs <;> omega

theorem roundHalfEven_le (x : ℚ) : roundHalfEven x ≤ ⌊x⌋ + 1 := by
  unfold roundHalfEven
  split_ifs <;> omega

@[simp] theorem roundHalfEven_intCast (n : ℤ) : roundHalfEven n = n := by
  unfold roundHalfEven
  rw [Int.floor_intCast, sub_self, if_pos (by norm_num)]

/-- Rounding stays within integer bounds. -/
theorem abs_roundHalfEven_le {x : ℚ} {n : ℕ} (h : |x| < n) : |roundHalfEven x| ≤ n := by
  obtain ⟨hlow, hhigh⟩ := abs_lt.mp h
  have hfloor : -(n : ℤ) ≤ ⌊x⌋ := Int.le_floor.mpr (by push_cast; exact hlow.le)
  have hlt : ⌊x⌋ < (n : ℤ) := Int.floor_lt.mpr (by exact_mod_cast hhigh)
  have hle := floor_le_roundHalfEven x
  have hge := roundHalfEven_le x
  exact abs_le.mpr ⟨by omega, by omega⟩

theorem le_abs_roundHalfEven {x : ℚ} {n : ℕ} (h : (n : ℚ) ≤ |x|) : (n : ℤ) ≤ |roundHalfEven x| := by
  rcases le_abs.mp h with hpos | hneg
  · have hfloor : (n : ℤ) ≤ ⌊x⌋ := Int.le_floor.mpr (by exact_mod_cast hpos)
    exact le_abs.mpr (.inl (hfloor.trans (floor_le_roundHalfEven x)))
  · by_cases hint : x = ((-(n : ℤ) : ℤ) : ℚ)
    · rw [hint, roundHalfEven_intCast, abs_neg]
      exact le_abs_self _
    · have hlt : x < ((-(n : ℤ) : ℤ) : ℚ) := lt_of_le_of_ne (by push_cast; linarith) hint
      have hfloor : ⌊x⌋ < -(n : ℤ) := Int.floor_lt.mpr hlt
      have hle := roundHalfEven_le x
      exact le_abs.mpr (.inr (by omega))

/-! ## Rounding -/

variable {F} {q r : ℚ}

theorem two_zpow_pos (e : ℤ) : (0 : ℚ) < 2 ^ e := zpow_pos two_pos e

theorem zpow_precision (e : ℤ) : (2 : ℚ) ^ (e + F.precision) = 2 ^ F.precision * 2 ^ e := by
  rw [zpow_add₀ two_ne_zero, zpow_natCast, mul_comm]

/-- In units that divide it a number is exact. -/
theorem roundHalfEven_mul_zpow (m : ℤ) {e k : ℤ} (h : e ≤ k) :
    (roundHalfEven ((m : ℚ) * 2 ^ k / 2 ^ e) : ℚ) * 2 ^ e = (m : ℚ) * 2 ^ k := by
  obtain ⟨d, rfl⟩ : ∃ d : ℕ, k = d + e := ⟨(k - e).toNat, by omega⟩
  have hquot : (m : ℚ) * 2 ^ ((d : ℤ) + e) / 2 ^ e = ((m * 2 ^ d : ℤ) : ℚ) := by
    rw [zpow_add₀ two_ne_zero, ← mul_assoc, mul_div_assoc, div_self (two_zpow_pos e).ne', mul_one,
      zpow_natCast]
    push_cast
    rfl
  rw [hquot, roundHalfEven_intCast, zpow_add₀ two_ne_zero, ← mul_assoc, zpow_natCast]
  push_cast
  rfl

/-- A number of the format is kept. -/
theorem round?_of_representable (h : F.Representable q) : F.round? q = some q := by
  obtain ⟨m, k, hm, hmin, hmax, rfl⟩ := h
  have hk := two_zpow_pos k
  have hlt : |(m : ℚ) * 2 ^ k| < 2 ^ (k + F.precision) := by
    rw [abs_mul, abs_of_pos hk, zpow_precision]
    exact mul_lt_mul_of_pos_right (by exact_mod_cast hm) hk
  have hrounded : (roundHalfEven ((m : ℚ) * 2 ^ k / 2 ^ F.lastBit ((m : ℚ) * 2 ^ k)) : ℚ) *
      2 ^ F.lastBit ((m : ℚ) * 2 ^ k) = (m : ℚ) * 2 ^ k := by
    by_cases hzero : m = 0
    · subst hzero
      have hround : roundHalfEven 0 = 0 := roundHalfEven_intCast 0
      simp [hround]
    · -- the last bit is not above the exponent the number is given with
      have hpos : 0 < |(m : ℚ) * 2 ^ k| := abs_pos.mpr (mul_ne_zero (by exact_mod_cast hzero) hk.ne')
      have hlog := (Int.lt_zpow_iff_log_lt (b := 2) (by decide) hpos).mp (by exact_mod_cast hlt)
      exact roundHalfEven_mul_zpow m (max_le (by omega) hmin)
  unfold round?
  dsimp only
  rw [hrounded]
  exact if_pos (hlt.trans_le (zpow_le_zpow_right₀ one_le_two (by omega)))

/-- Less than a power of two more bits fit between the last bit and the number. -/
theorem abs_div_lastBit_lt (q : ℚ) : |q / 2 ^ F.lastBit q| < (2 ^ F.precision : ℕ) := by
  have hpos := two_zpow_pos (F.lastBit q)
  have hlog : |q| < (2 : ℚ) ^ (Int.log 2 |q| + 1) := by
    exact_mod_cast Int.lt_zpow_succ_log_self (b := 2) (by decide) |q|
  have hle : (2 : ℚ) ^ (Int.log 2 |q| + 1) ≤ 2 ^ (F.lastBit q + F.precision) :=
    zpow_le_zpow_right₀ one_le_two (by have := le_max_left (Int.log 2 |q| + 1 - F.precision) F.minExp; unfold lastBit; omega)
  rw [abs_div, abs_of_pos hpos, div_lt_iff₀ hpos]
  push_cast
  rw [← zpow_precision]
  exact hlog.trans_le hle

/-- Above the smallest exponent the integer that is rounded to has its first bit set. -/
theorem le_abs_div_lastBit (hq : q ≠ 0) (h : F.minExp < F.lastBit q) :
    ((2 ^ (F.precision - 1) : ℕ) : ℚ) ≤ |q / 2 ^ F.lastBit q| := by
  have hpos := two_zpow_pos (F.lastBit q)
  have hlast : F.lastBit q = Int.log 2 |q| + 1 - F.precision := by
    unfold lastBit at h ⊢
    exact max_eq_left (by omega)
  have hlog : (2 : ℚ) ^ Int.log 2 |q| ≤ |q| := by
    exact_mod_cast Int.zpow_log_le_self (b := 2) (by decide) (abs_pos.mpr hq)
  have hexp : Int.log 2 |q| = ((F.precision - 1 : ℕ) : ℤ) + F.lastBit q := by
    have := F.precision_pos
    omega
  rw [abs_div, abs_of_pos hpos, le_div_iff₀ hpos]
  push_cast
  rw [← zpow_natCast, ← zpow_add₀ two_ne_zero, ← hexp]
  exact hlog

/-- What is rounded to is a number of the format. -/
theorem representable_of_round? (h : F.round? q = some r) : F.Representable r := by
  unfold round? at h
  dsimp only at h
  split at h
  · next hlt =>
    obtain rfl := Option.some.inj h
    set e := F.lastBit q with he
    set m := roundHalfEven (q / 2 ^ e) with hm
    have hpos := two_zpow_pos e
    have hprecision := F.precision_pos
    have hbound : |m| ≤ ((2 ^ F.precision : ℕ) : ℤ) := abs_roundHalfEven_le (abs_div_lastBit_lt q)
    have hmin : F.minExp ≤ e := le_max_right _ _
    rw [abs_mul, abs_of_pos hpos, ← Int.cast_abs] at hlt
    push_cast at hbound
    rcases lt_or_eq_of_le hbound with hlow | hfull
    · by_cases hmax : e ≤ F.maxExp
      · exact ⟨m, e, hlow, hmin, hmax, rfl⟩
      · -- above the largest exponent only zero is left
        have hzero : q = 0 := by
          by_contra hq
          have hfirst := le_abs_roundHalfEven (le_abs_div_lastBit (F := F) hq
            (lt_of_le_of_lt F.minExp_le (by omega)))
          have hlarge : (2 : ℚ) ^ (F.maxExp + F.precision) ≤ ((|m| : ℤ) : ℚ) * 2 ^ e := by
            calc (2 : ℚ) ^ (F.maxExp + F.precision)
                ≤ 2 ^ (((F.precision - 1 : ℕ) : ℤ) + e) := zpow_le_zpow_right₀ one_le_two (by omega)
              _ = ((2 ^ (F.precision - 1) : ℕ) : ℚ) * 2 ^ e := by
                rw [zpow_add₀ two_ne_zero, zpow_natCast]
                push_cast
                rfl
              _ ≤ ((|m| : ℤ) : ℚ) * 2 ^ e :=
                mul_le_mul_of_nonneg_right (by exact_mod_cast hfirst) hpos.le
          exact absurd hlt (not_lt.mpr hlarge)
        have hmzero : m = 0 := by
          rw [hm, hzero, zero_div]
          exact roundHalfEven_intCast 0
        exact ⟨0, F.minExp, by simp, le_rfl, F.minExp_le, by rw [hmzero]; simp⟩
    · -- a carry out of the last bit
      rw [hfull] at hlt
      push_cast at hlt
      rw [← zpow_precision] at hlt
      have hroom : e < F.maxExp := by
        have := (zpow_lt_zpow_iff_right₀ (a := (2 : ℚ)) one_lt_two).mp hlt
        omega
      have hhalf : (2 : ℤ) ^ F.precision = 2 ^ (F.precision - 1) * 2 := by
        rw [← pow_succ, Nat.sub_add_cancel hprecision]
      have hsmaller : (2 : ℤ) ^ (F.precision - 1) < 2 ^ F.precision :=
        pow_lt_pow_right₀ one_lt_two (by omega)
      have hcarry : ∀ n : ℤ, |n| < 2 ^ F.precision → m = n * 2 → F.Representable ((m : ℚ) * 2 ^ e) := by
        intro n hn hmn
        refine ⟨n, e + 1, hn, by omega, by omega, ?_⟩
        rw [hmn, zpow_add_one₀ two_ne_zero]
        push_cast
        ring
      rcases (abs_eq (by positivity)).mp hfull with hmp | hmn
      · refine hcarry (2 ^ (F.precision - 1)) ?_ (hmp.trans hhalf)
        rwa [abs_of_pos (by positivity)]
      · refine hcarry (-2 ^ (F.precision - 1)) ?_ ?_
        · rwa [abs_neg, abs_of_pos (by positivity)]
        · rw [hmn, hhalf, neg_mul]
  · cases h

/-- Rounding by hand: the last bit, and the integer in its units. -/
theorem round?_eq {e m : ℤ} (hlast : F.lastBit q = e) (hround : roundHalfEven (q / 2 ^ e) = m)
    (hlt : |(m : ℚ) * 2 ^ e| < 2 ^ (F.maxExp + F.precision)) : F.round? q = some ((m : ℚ) * 2 ^ e) := by
  unfold round?
  dsimp only
  rw [hlast, hround, if_pos hlt]

end BinaryFormat
