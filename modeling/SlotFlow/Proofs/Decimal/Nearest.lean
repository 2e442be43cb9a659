import Mathlib.Algebra.Order.Field.Power
import Mathlib.Data.Rat.Cast.Order
import Mathlib.Tactic.FieldSimp
import Mathlib.Tactic.GCongr
import Mathlib.Tactic.Linarith
import Mathlib.Tactic.NormNum
import Mathlib.Tactic.Positivity
import Mathlib.Tactic.Ring
import SlotFlow.Decimal.Shortest
import SlotFlow.Proofs.Decimal.Bits
/-!
# Numbers that round to a double

Around each finite double lies the interval of the numbers that no other double is nearer to. The ends of
it are the middles between the double and its neighbours, and they go to the double with the even mantissa.
This module shows that rounding a number from that interval gives the double.

* `RoundingInterval.Contains` — a number lies in an interval;
* `Binary64.RoundsTo` — a number lies in the interval of a double.

## Results

* `Binary64.exponentFor_spec` — the exponent that rounding takes leaves a mantissa of 53 bits, if it can;
* `Binary64.nearestBits_eq` — rounding a number from the interval of a double gives that double;
* `Binary64.ofDecimal_eq` — reading a decimal from the interval of a double gives that double.
-/

namespace SlotFlow

/-- A number lies in an interval of which the quarter places are as large as this. -/
def RoundingInterval.Contains (interval : RoundingInterval) (quarter value : ℚ) : Prop :=
  if interval.closed then interval.low * quarter ≤ value ∧ value ≤ interval.high * quarter
  else interval.low * quarter < value ∧ value < interval.high * quarter

namespace Binary64

/-- A number rounds to the double with this mantissa and exponent. -/
def RoundsTo (mantissa : Nat) (exponent : Int) (value : ℚ) : Prop :=
  (RoundingInterval.of mantissa exponent).Contains (2 ^ (exponent - 2)) value

variable {mantissa num den : Nat} {exponent : Int} {value : ℚ}

-- ---------------------------------------------------------------------------
-- Rounding to natural numbers
-- ---------------------------------------------------------------------------

/-- A quotient that is no more than half a unit from a number is rounded to that number, where a tie goes
to an even number. -/
theorem divNearest_eq {n : Nat} (hden : 0 < den) (hlow : den * (2 * n) ≤ 2 * num + den)
    (hhigh : 2 * num ≤ den * (2 * n + 1))
    (hodd : n % 2 = 1 → den * (2 * n) < 2 * num + den ∧ 2 * num < den * (2 * n + 1)) :
    divNearest num den = n := by
  have hwhole := Nat.div_add_mod num den
  have hrest := Nat.mod_lt num hden
  unfold divNearest
  generalize num / den = below at *
  generalize num % den = rest at *
  have hdouble (k : Nat) : den * (2 * k) = 2 * (den * k) := Nat.mul_left_comm ..
  have hnext (k : Nat) : den * (k + 1) = den * k + den := Nat.mul_succ ..
  rw [hnext, hdouble] at hhigh hodd
  rw [hdouble] at hlow
  -- the number is one of the two neighbours
  have hcases : n = below ∨ n = below + 1 := by
    rcases Nat.lt_trichotomy n below with hlt | heq | hgt
    · have := Nat.mul_le_mul_left den hlt
      rw [Nat.succ_eq_add_one, hnext] at this
      omega
    · exact .inl heq
    · rcases Nat.eq_or_lt_of_le hgt with heq | hgt
      · exact .inr heq.symm
      · have := Nat.mul_le_mul_left den hgt
        rw [Nat.succ_eq_add_one, hnext, hnext] at this
        omega
  dsimp only
  rcases hcases with rfl | rfl
  · split
    · rfl
    · split <;> omega
  · rw [hnext] at hlow hhigh hodd
    split
    · omega
    · split <;> omega

/-- The same, for the quotient as a number. -/
theorem divNearest_eq_of_quotient {n : Nat} (hden : 0 < den) (hlow : 2 * n - 1 ≤ (2 * (num / den) : ℚ))
    (hhigh : (2 * (num / den) : ℚ) ≤ 2 * n + 1)
    (hodd : n % 2 = 1 → 2 * n - 1 < (2 * (num / den) : ℚ) ∧ (2 * (num / den) : ℚ) < 2 * n + 1) :
    divNearest num den = n := by
  have hpos : (0 : ℚ) < den := by exact_mod_cast hden
  have hquotient : (num : ℚ) = den * (num / den) := by field_simp
  refine divNearest_eq hden ?_ ?_ fun h => ⟨?_, ?_⟩
  · have : (den * (2 * n) : ℚ) ≤ 2 * num + den := by
      rw [hquotient]
      nlinarith
    exact_mod_cast this
  · have : (2 * num : ℚ) ≤ den * (2 * n + 1) := by
      rw [hquotient]
      nlinarith
    exact_mod_cast this
  · have : (den * (2 * n) : ℚ) < 2 * num + den := by
      rw [hquotient]
      nlinarith [hodd h]
    exact_mod_cast this
  · have : (2 * num : ℚ) < den * (2 * n + 1) := by
      rw [hquotient]
      nlinarith [hodd h]
    exact_mod_cast this

-- ---------------------------------------------------------------------------
-- The exponent
-- ---------------------------------------------------------------------------

/-- Scaling a fraction divides it by a power of two. -/
theorem scaleDown_spec (num : Nat) (hden : 0 < den) (e : Int) :
    0 < (scaleDown num den e).2 ∧
      ((scaleDown num den e).1 / (scaleDown num den e).2 : ℚ) = num / den / 2 ^ e := by
  have hpow {k : Int} (h : 0 ≤ k) : ((Nat.pow 2 k.toNat : Nat) : ℚ) = 2 ^ k := by
    rw [Nat.pow_eq, Nat.cast_pow, Nat.cast_ofNat, ← zpow_natCast, Int.toNat_of_nonneg h]
  unfold scaleDown
  split
  · rename_i h
    refine ⟨Nat.mul_pos hden (Nat.pow_pos (by decide)), ?_⟩
    rw [Nat.cast_mul, hpow h, div_div]
  · rename_i h
    refine ⟨hden, ?_⟩
    rw [Nat.cast_mul, hpow (by omega), zpow_neg, ← div_eq_mul_inv, div_right_comm]

theorem zpow_log2_le {n : Nat} (h : 0 < n) : (2 : ℚ) ^ (n.log2 : Int) ≤ n := by
  rw [zpow_natCast]
  exact_mod_cast Nat.log2_self_le (Nat.ne_of_gt h)

theorem lt_zpow_log2 (n : Nat) : (n : ℚ) < 2 ^ (n.log2 + 1 : Int) := by
  rw [← Nat.cast_succ, zpow_natCast]
  exact_mod_cast Nat.lt_log2_self

theorem zpow_two_add (e k : Int) : (2 : ℚ) ^ (e + k) = 2 ^ e * 2 ^ k :=
  zpow_add₀ two_ne_zero e k

/-- Lengths of numbers give the order of magnitude of their quotient. -/
theorem quotient_bounds (hnum : 0 < num) (hden : 0 < den) :
    (2 : ℚ) ^ (num.log2 - den.log2 - 1 : Int) < num / den ∧
      (num / den : ℚ) < 2 ^ (num.log2 - den.log2 + 1 : Int) := by
  have hpos : (0 : ℚ) < den := by exact_mod_cast hden
  have hdenLow := zpow_log2_le hden
  have hdenHigh := lt_zpow_log2 den
  constructor
  · rw [lt_div_iff₀ hpos]
    calc (2 : ℚ) ^ (num.log2 - den.log2 - 1 : Int) * den
        < 2 ^ (num.log2 - den.log2 - 1 : Int) * 2 ^ (den.log2 + 1 : Int) := by gcongr
      _ = 2 ^ (num.log2 : Int) := by rw [← zpow_two_add]; congr 1; ring
      _ ≤ num := zpow_log2_le hnum
  · rw [div_lt_iff₀ hpos]
    calc (num : ℚ) < 2 ^ (num.log2 + 1 : Int) := lt_zpow_log2 num
      _ = 2 ^ (num.log2 - den.log2 + 1 : Int) * 2 ^ (den.log2 : Int) := by
          rw [← zpow_two_add]; congr 1; ring
      _ ≤ 2 ^ (num.log2 - den.log2 + 1 : Int) * den := by gcongr

/-- The exponent that rounding takes leaves a mantissa of 53 bits, unless it is the least there is. -/
theorem exponentFor_spec (hnum : 0 < num) (hden : 0 < den) :
    -1074 ≤ exponentFor num den ∧ (num / den : ℚ) < 2 ^ (exponentFor num den + 53) ∧
      ((2 : ℚ) ^ (exponentFor num den + 52) ≤ num / den ∨ exponentFor num den = -1074) := by
  obtain ⟨hlow, hhigh⟩ := quotient_bounds hnum hden
  dsimp only [exponentFor]
  generalize hguess : (num.log2 : Int) - den.log2 - 52 = guess
  obtain ⟨hpos, hscaled⟩ := scaleDown_spec num hden guess
  -- whether the quotient is below the power of two that was guessed
  have hbelow : (scaleDown num den guess).1 < hiddenBit * (scaleDown num den guess).2 ↔
      (num / den : ℚ) < 2 ^ (guess + 52) := by
    have hcast : (hiddenBit : ℚ) = 2 ^ (52 : Int) := by norm_num [hiddenBit_eq]
    rw [zpow_two_add, ← div_lt_iff₀' (by positivity), ← hscaled, div_lt_iff₀ (by exact_mod_cast hpos),
      ← hcast]
    exact_mod_cast Iff.rfl
  generalize hexact : (if (scaleDown num den guess).1 < hiddenBit * (scaleDown num den guess).2 then
    guess - 1 else guess) = exact
  have hbounds : (2 : ℚ) ^ (exact + 52) ≤ num / den ∧ (num / den : ℚ) < 2 ^ (exact + 53) := by
    subst hexact
    split
    · rename_i hlt
      refine ⟨hlow.le.trans' (le_of_eq ?_), (hbelow.mp hlt).trans_le (le_of_eq ?_)⟩
      · congr 1; omega
      · congr 1; omega
    · rename_i hge
      refine ⟨not_lt.mp fun hlt => hge (hbelow.mpr hlt), hhigh.trans_le (le_of_eq ?_)⟩
      congr 1; omega
  refine ⟨Int.le_max_right .., hbounds.2.trans_le ?_, ?_⟩
  · exact zpow_le_zpow_right₀ one_le_two (by omega)
  · rcases Int.le_total exact (-1074) with hle | hge
    · exact .inr (max_eq_right hle)
    · rw [max_eq_left hge]
      exact .inl hbounds.1

-- ---------------------------------------------------------------------------
-- Rounding to doubles
-- ---------------------------------------------------------------------------

/-- What rounds to a double is within half a unit of its last place, on an odd mantissa properly so, and
below a power of two within a quarter. -/
theorem RoundsTo.bounds (h : RoundsTo mantissa exponent value) (hpos : 0 < mantissa) :
    (2 * mantissa - 1) * 2 ^ exponent ≤ 2 * value ∧ 2 * value ≤ (2 * mantissa + 1) * 2 ^ exponent ∧
      (mantissa % 2 = 1 → (2 * mantissa - 1) * 2 ^ exponent < 2 * value ∧
        2 * value < (2 * mantissa + 1) * 2 ^ exponent) ∧
      (mantissa = hiddenBit → -1074 < exponent →
        (4 * mantissa - 1) * 2 ^ exponent ≤ 4 * value) := by
  have hquarter : (2 : ℚ) ^ (exponent - 2) = 2 ^ exponent / 4 := by
    rw [sub_eq_add_neg, zpow_two_add]
    norm_num
    ring
  have hunit : (0 : ℚ) < 2 ^ exponent := by positivity
  rw [RoundsTo, RoundingInterval.Contains, hquarter] at h
  simp only [RoundingInterval.of, decide_eq_true_eq] at h
  generalize (2 : ℚ) ^ exponent = unit at *
  have hhigh : ((4 * mantissa + 2 : Nat) : ℚ) = 4 * mantissa + 2 := by push_cast; rfl
  obtain ⟨low, hlow, hedge, hcast⟩ : ∃ low : ℚ, 4 * mantissa - 2 ≤ low ∧
      (mantissa = hiddenBit → -1074 < exponent → low = 4 * mantissa - 1) ∧
      ((4 * mantissa - (if mantissa = hiddenBit ∧ -1074 < exponent then 1 else 2) : Nat) : ℚ) =
        low := by
    refine ⟨_, ?_, fun hbit hleast => ?_, rfl⟩
    · split <;> rw [Nat.cast_sub (by omega)] <;> push_cast <;> linarith
    · rw [if_pos ⟨hbit, hleast⟩, Nat.cast_sub (by omega)]
      push_cast
      rfl
  rw [hhigh, hcast] at h
  have hstep : (4 * mantissa - 2) * (unit / 4) ≤ low * (unit / 4) := by gcongr
  have hweak : low * (unit / 4) ≤ value ∧ value ≤ (4 * mantissa + 2) * (unit / 4) := by
    split at h
    · exact h
    · exact ⟨h.1.le, h.2.le⟩
  refine ⟨by linarith, by linarith, fun hodd => ?_, fun hbit hleast => ?_⟩
  · rw [if_neg (by omega)] at h
    exact ⟨by linarith, by linarith⟩
  · rw [hedge hbit hleast] at hweak
    linarith

/-- A mantissa has at most 53 bits. -/
theorem Canonical.succ_le (h : Canonical mantissa exponent) : (mantissa + 1 : ℚ) ≤ 2 ^ (53 : Int) := by
  have hbound := h.bound
  rw [hiddenBit_eq] at hbound
  norm_num
  exact_mod_cast hbound

/-- A fraction is rounded with the exponent of the double it rounds to, or with the one below if it rounds
up to a power of two. -/
theorem RoundsTo.exponentFor_cases (h : RoundsTo mantissa exponent (num / den))
    (hcanonical : Canonical mantissa exponent) (hpos : 0 < mantissa) (hnum : 0 < num) (hden : 0 < den) :
    exponentFor num den = exponent ∨
      exponentFor num den = exponent - 1 ∧ mantissa = hiddenBit ∧ -1074 < exponent := by
  obtain ⟨hlow, hhigh, -, hedge⟩ := h.bounds hpos
  obtain ⟨hleast, hbelow, hfull⟩ := exponentFor_spec hnum hden
  generalize exponentFor num den = e at *
  have hunit : (0 : ℚ) < 2 ^ exponent := by positivity
  have hatMost : e ≤ exponent := by
    by_contra hgt
    have hge : (2 : ℚ) ^ (exponent + 53) ≤ 2 ^ (e + 52) := zpow_le_zpow_right₀ one_le_two (by omega)
    have hle := hfull.resolve_right (by have := hcanonical.least; omega)
    have hmantissa := hcanonical.succ_le
    rw [zpow_two_add exponent] at hge
    norm_num at hge hmantissa
    nlinarith
  rcases Int.lt_or_eq_of_le hatMost with hlt | heq
  · -- a double with this exponent has all of its bits, and the number is below the power of two
    have hbit := hcanonical.full.resolve_right (by omega)
    have hmost : (2 : ℚ) ^ (e + 53) ≤ 2 ^ (exponent + 52) := zpow_le_zpow_right₀ one_le_two (by omega)
    rw [zpow_two_add exponent] at hmost
    have hleBit : mantissa = hiddenBit := by
      refine Nat.le_antisymm (Nat.lt_succ_iff.mp ?_) hbit
      by_contra hgt
      have hge : (4503599627370497 : ℚ) ≤ mantissa := by exact_mod_cast not_lt.mp hgt
      norm_num at hmost
      nlinarith
    refine .inr ⟨?_, hleBit, by omega⟩
    by_contra hne
    have hmost : (2 : ℚ) ^ (e + 53) ≤ 2 ^ (exponent + 51) := zpow_le_zpow_right₀ one_le_two (by omega)
    rw [zpow_two_add exponent] at hmost
    have hedge := hedge hleBit (by omega)
    rw [hleBit] at hedge
    norm_num [hiddenBit_eq] at hedge hmost
    nlinarith
  · exact .inl heq

/-- With the exponent of the double, its mantissa is the nearest natural number. -/
theorem RoundsTo.divNearest_eq (h : RoundsTo mantissa exponent (num / den)) (hpos : 0 < mantissa)
    (hden : 0 < den) :
    divNearest (scaleDown num den exponent).1 (scaleDown num den exponent).2 = mantissa := by
  obtain ⟨hlow, hhigh, hodd, -⟩ := h.bounds hpos
  obtain ⟨hscale, hscaled⟩ := scaleDown_spec num hden exponent
  have hunit : (0 : ℚ) < 2 ^ exponent := by positivity
  rw [divNearest_eq_of_quotient hscale] <;> rw [hscaled]
  · rw [← mul_div_assoc, le_div_iff₀ hunit]
    exact hlow
  · rw [← mul_div_assoc, div_le_iff₀ hunit]
    exact hhigh
  · rw [← mul_div_assoc, lt_div_iff₀ hunit, div_lt_iff₀ hunit]
    exact hodd

/-- With the exponent below, the nearest natural number is the next power of two. -/
theorem RoundsTo.divNearest_carry (h : RoundsTo hiddenBit exponent (num / den)) (hden : 0 < den)
    (hleast : -1074 < exponent) (hbelow : (num / den : ℚ) < 2 ^ (exponent - 1 + 53)) :
    divNearest (scaleDown num den (exponent - 1)).1 (scaleDown num den (exponent - 1)).2 =
      2 * hiddenBit := by
  obtain ⟨-, -, -, hedge⟩ := h.bounds (by decide)
  obtain ⟨hscale, hscaled⟩ := scaleDown_spec num hden (exponent - 1)
  have hunit : (0 : ℚ) < 2 ^ exponent := by positivity
  have hhalf : (2 : ℚ) ^ (exponent - 1) = 2 ^ exponent / 2 := by
    rw [sub_eq_add_neg, zpow_two_add]
    norm_num
    ring
  have hdouble : (2 * ((scaleDown num den (exponent - 1)).1 /
      (scaleDown num den (exponent - 1)).2) : ℚ) = 4 * (num / den) / 2 ^ exponent := by
    rw [hscaled, hhalf]
    field_simp
    ring
  refine divNearest_eq_of_quotient hscale ?_ ?_ fun hodd => ?_
  · rw [hdouble, le_div_iff₀ hunit]
    have hlow := hedge rfl hleast
    push_cast
    linarith
  · rw [hdouble, div_le_iff₀ hunit]
    rw [show exponent - 1 + 53 = exponent + 52 by ring, zpow_two_add exponent] at hbelow
    norm_num [hiddenBit_eq] at hbelow ⊢
    linarith
  · omega

/-- **Rounding a number from the interval of a double gives that double.** -/
theorem nearestBits_eq (hcanonical : Canonical mantissa exponent) (hpos : 0 < mantissa)
    (hnum : 0 < num) (hden : 0 < den) (h : RoundsTo mantissa exponent (num / den)) :
    nearestBits num den = magnitudeBits mantissa exponent := by
  have hcases := h.exponentFor_cases hcanonical hpos hnum hden
  obtain ⟨-, hbelow, -⟩ := exponentFor_spec hnum hden
  dsimp only [nearestBits]
  generalize exponentFor num den = e at *
  have hbits : (e + 1074).toNat * hiddenBit +
      divNearest (scaleDown num den e).1 (scaleDown num den e).2 = magnitudeBits mantissa exponent := by
    rcases hcases with rfl | ⟨rfl, rfl, hleast⟩
    · rw [h.divNearest_eq hpos hden, magnitudeBits]
    · -- the mantissa carries into the exponent
      have hcarry : (exponent + 1074).toNat = (exponent - 1 + 1074).toNat + 1 := by omega
      rw [h.divNearest_carry hden hleast hbelow, magnitudeBits, hcarry,
        Nat.succ_mul (exponent - 1 + 1074).toNat]
      omega
  rw [hbits, Nat.min_eq_right]
  have hbound := hcanonical.bound
  have hmost := hcanonical.most
  have hfield : (exponent + 1074).toNat * hiddenBit ≤ 2045 * hiddenBit :=
    Nat.mul_le_mul_right _ (by omega)
  rw [magnitudeBits, infinityBits]
  omega

-- ---------------------------------------------------------------------------
-- Doubles
-- ---------------------------------------------------------------------------

variable {x : Float} {negative : Bool}

theorem nearest_eq (hx : ofFloat x = .finite negative mantissa exponent) (hpos : 0 < mantissa)
    (hnum : 0 < num) (hden : 0 < den) (h : RoundsTo mantissa exponent (num / den)) :
    nearest negative num den = x := by
  have hbits := nearestBits_eq (ofFloat_eq_finite hx).1 hpos hnum hden h
  dsimp only [nearest]
  rw [if_neg (Nat.ne_of_gt hnum), hbits, ofBits_magnitudeBits hx]

/-- Zero keeps its sign. -/
theorem nearest_zero (hx : ofFloat x = .finite negative 0 exponent) (den : Nat) :
    nearest negative 0 den = x := by
  have hleast : exponent = -1074 :=
    (ofFloat_eq_finite hx).1.full.resolve_left (by rw [hiddenBit_eq]; omega)
  rw [← ofBits_magnitudeBits hx, hleast]
  rfl

/-- A number lies between the powers of ten that its length says. -/
theorem decimalLength_bounds {n : Nat} (h : 0 < n) :
    (10 : ℚ) ^ (decimalLength n - 1 : Int) ≤ n ∧ (n : ℚ) < 10 ^ (decimalLength n : Int) := by
  have hlength : 0 < decimalLength n := Nat.length_toDigits_pos
  have hcast : (decimalLength n - 1 : Int) = ((decimalLength n - 1 : Nat) : Int) := by omega
  rw [hcast, zpow_natCast, zpow_natCast]
  constructor
  · norm_cast
    rcases Nat.eq_zero_or_pos (decimalLength n - 1) with hone | hmore
    · rw [hone]
      exact h
    · by_contra hlt
      have := (Nat.length_toDigits_le_iff (by decide) hmore).mpr (not_le.mp hlt)
      rw [← decimalLength] at this
      omega
  · norm_cast
    exact (Nat.length_toDigits_le_iff (by decide) hlength).mp (Nat.le_refl _)

/-- What rounds to a double is neither too small nor too large for its order of magnitude to decide. -/
theorem RoundsTo.magnitude (h : RoundsTo mantissa exponent value)
    (hcanonical : Canonical mantissa exponent) (hpos : 0 < mantissa) :
    (10 : ℚ) ^ (-330 : Int) ≤ value ∧ value < 10 ^ (310 : Int) := by
  obtain ⟨hlow, hhigh, -, -⟩ := h.bounds hpos
  have hleast : (2 : ℚ) ^ (-1074 : Int) ≤ 2 ^ exponent :=
    zpow_le_zpow_right₀ one_le_two hcanonical.least
  have hmost : (2 : ℚ) ^ exponent ≤ 2 ^ (971 : Int) := zpow_le_zpow_right₀ one_le_two hcanonical.most
  have hunit : (0 : ℚ) < 2 ^ exponent := by positivity
  have hone : (1 : ℚ) ≤ mantissa := by exact_mod_cast hpos
  have hmantissa := hcanonical.succ_le
  constructor
  · have hsmall : (10 : ℚ) ^ (-330 : Int) ≤ 2 ^ (-1075 : Int) := by
      rw [zpow_neg, zpow_neg]
      refine inv_anti₀ (by positivity) ?_
      exact_mod_cast (by decide +kernel : 2 ^ 1075 ≤ 10 ^ 330)
    have hhalf : (2 : ℚ) ^ (-1074 : Int) = 2 ^ (-1075 : Int) * 2 := by
      rw [show (-1074 : Int) = -1075 + 1 by ring, zpow_two_add, zpow_one]
    have hvalue : (2 : ℚ) ^ exponent ≤ 2 * value := by nlinarith only [hlow, hone, hunit]
    linarith only [hvalue, hleast, hhalf, hsmall]
  · have hlarge : (2 : ℚ) ^ (1024 : Int) < 10 ^ (310 : Int) := by
      exact_mod_cast (by decide +kernel : 2 ^ 1024 < 10 ^ 310)
    have hsplit : (2 : ℚ) ^ (1024 : Int) = 2 ^ (53 : Int) * 2 ^ (971 : Int) := by
      rw [show (1024 : Int) = 53 + 971 by ring, zpow_two_add]
    calc value < (mantissa + 1) * 2 ^ exponent := by linarith only [hhigh, hunit]
      _ ≤ 2 ^ (53 : Int) * 2 ^ (971 : Int) := by gcongr
      _ = 2 ^ (1024 : Int) := hsplit.symm
      _ < 10 ^ (310 : Int) := hlarge

theorem RoundsTo.digits_pos {digits : Nat} {k : Int}
    (h : RoundsTo mantissa exponent (digits * 10 ^ k)) (hcanonical : Canonical mantissa exponent)
    (hpos : 0 < mantissa) : 0 < digits := by
  obtain ⟨hsmall, -⟩ := h.magnitude hcanonical hpos
  rcases Nat.eq_zero_or_pos digits with rfl | hdigits
  · rw [Nat.cast_zero, zero_mul] at hsmall
    have : (0 : ℚ) < 10 ^ (-330 : Int) := by positivity
    linarith only [hsmall, this]
  · exact hdigits

/-- **Reading a decimal from the interval of a double gives that double.** -/
theorem ofDecimal_eq (hx : ofFloat x = .finite negative mantissa exponent) (hpos : 0 < mantissa)
    {digits : Nat} {k : Int} (h : RoundsTo mantissa exponent (digits * 10 ^ k)) :
    ofDecimal negative digits k = x := by
  obtain ⟨hsmall, hlarge⟩ := h.magnitude (ofFloat_eq_finite hx).1 hpos
  have hpow {k : Int} (h : 0 ≤ k) : ((Nat.pow 10 k.toNat : Nat) : ℚ) = 10 ^ k := by
    rw [Nat.pow_eq, Nat.cast_pow, Nat.cast_ofNat, ← zpow_natCast, Int.toNat_of_nonneg h]
  have hdigits := h.digits_pos (ofFloat_eq_finite hx).1 hpos
  obtain ⟨hshort, hlong⟩ := decimalLength_bounds hdigits
  have hten (a b : Int) : (10 : ℚ) ^ (a + b) = 10 ^ a * 10 ^ b := zpow_add₀ (by norm_num) a b
  dsimp only [ofDecimal]
  rw [if_neg, if_neg]
  · split
    · rename_i hk
      refine nearest_eq hx hpos (Nat.mul_pos hdigits (Nat.pow_pos (by decide))) (by decide) ?_
      rw [Nat.cast_mul, hpow hk, Nat.cast_one, div_one]
      exact h
    · rename_i hk
      refine nearest_eq hx hpos hdigits (Nat.pow_pos (by decide)) ?_
      rw [hpow (by omega), zpow_neg, div_inv_eq_mul]
      exact h
  · -- the number is below the power of ten beyond which all are infinite
    intro horder
    have hle : (10 : ℚ) ^ (310 : Int) ≤ 10 ^ (decimalLength digits - 1 + k : Int) :=
      zpow_le_zpow_right₀ (by norm_num) (by omega)
    have hvalue : (10 : ℚ) ^ (decimalLength digits - 1 + k : Int) ≤ digits * 10 ^ k := by
      rw [hten]
      gcongr
    linarith
  · rintro (hzero | horder)
    · omega
    · have hle : (10 : ℚ) ^ (decimalLength digits + k : Int) ≤ 10 ^ (-330 : Int) :=
        zpow_le_zpow_right₀ (by norm_num) (by omega)
      have hvalue : (digits * 10 ^ k : ℚ) < 10 ^ (decimalLength digits + k : Int) := by
        rw [hten]
        gcongr
      linarith

end Binary64

end SlotFlow
