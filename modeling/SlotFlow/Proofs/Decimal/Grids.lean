import SlotFlow.Proofs.Decimal.Nearest
/-!
# The shortest decimal rounds to its double

The search for the shortest decimal goes over grids that become finer and finer, and takes a point of the
first grid that has one in the interval of the double. What it takes lies in that interval because it looks;
that it takes anything needs a grid that is fine enough among those it tries: one with a step below half a
unit of the double's last place. The last grid is one, whatever the order of magnitude of the double is.

* `Decimal.value` — the number that a decimal stands for.

## Results

* `Decimal.search_roundsTo` — the search finds a number that rounds to the double, if a grid is fine enough;
* `Decimal.shortest_roundsTo` — the shortest decimal rounds to its double.
-/

namespace SlotFlow

open Binary64

/-- The number that a decimal stands for. -/
def Decimal.value (d : Decimal) : ℚ :=
  d.digits * 10 ^ d.exponent

-- ---------------------------------------------------------------------------
-- Points of a grid
-- ---------------------------------------------------------------------------

namespace RoundingInterval

variable {interval : RoundingInterval} {scale unit n : Nat} {tie : Tie}

/-- Comparing multiples of two fractions without dividing. -/
theorem crossed_le {a b c d : Nat} (hb : 0 < b) (hd : 0 < d) (k l : Nat) :
    k * (a * d) ≤ l * (c * b) ↔ (k * (a / b) : ℚ) ≤ l * (c / d) := by
  rw [← mul_div_assoc, ← mul_div_assoc, div_le_div_iff₀ (by exact_mod_cast hb)
    (by exact_mod_cast hd), mul_assoc, mul_assoc]
  exact_mod_cast Iff.rfl

/-- Looking whether a point of a grid lies in an interval, with the quarter place and the step of the grid
as fractions. -/
theorem holds_iff {a b c d : Nat} (hb : 0 < b) (hd : 0 < d) :
    interval.holds (a * d) (c * b) n = true ↔ interval.Contains (a / b) (n * (c / d)) := by
  rw [holds, Contains]
  split
  · rw [Bool.and_eq_true, decide_eq_true_eq, decide_eq_true_eq, crossed_le hb hd, crossed_le hd hb]
  · rw [Bool.and_eq_true, decide_eq_true_eq, decide_eq_true_eq, ← not_le, ← not_le, crossed_le hb hd,
      crossed_le hd hb, not_le, not_le]

/-- What is taken from a grid lies in the interval. -/
theorem holds_of_nearestOn (h : interval.nearestOn tie scale unit = some n) :
    interval.holds scale unit n = true := by
  dsimp only [nearestOn] at h
  split at h
  · cases h
  · cases h
    assumption
  · cases h
    assumption
  · rename_i hbelow habove
    split at h
    · cases h
      exact hbelow
    · split at h
      · cases h
        exact habove
      · cases tie <;> cases h
        · exact habove
        · rcases Nat.mod_two_eq_zero_or_one (interval.value * scale / unit) with heven | hodd
          · rw [heven]
            exact hbelow
          · rw [hodd]
            exact habove

/-- Something is taken from a grid with a step below half a unit of the last place: the point above the
double lies below the upper end of its interval. -/
theorem nearestOn_ne_none {mantissa : Nat} {exponent : Int} (hpos : 0 < mantissa) (hunit : 0 < unit)
    (h : unit < 2 * scale) : (of mantissa exponent).nearestOn tie scale unit ≠ none := by
  have hholds : (of mantissa exponent).holds scale unit
      ((of mantissa exponent).value * scale / unit + 1) = true := by
    have hlow : (of mantissa exponent).low < (of mantissa exponent).value := by
      dsimp only [of]
      split <;> omega
    have hhigh : (of mantissa exponent).high = (of mantissa exponent).value + 2 := rfl
    generalize of mantissa exponent = interval at *
    have hvalue := Nat.div_add_mod (interval.value * scale) unit
    have hrest := Nat.mod_lt (interval.value * scale) hunit
    have habove : (interval.value * scale / unit + 1) * unit =
        unit * (interval.value * scale / unit) + unit := by
      rw [Nat.succ_mul, Nat.mul_comm]
    have hbefore : interval.low * scale < (interval.value * scale / unit + 1) * unit := by
      have := Nat.mul_le_mul_right scale (Nat.le_of_lt hlow)
      omega
    have hafter : (interval.value * scale / unit + 1) * unit < interval.high * scale := by
      rw [hhigh, Nat.add_mul interval.value]
      omega
    rw [holds]
    split
    · simpa using ⟨Nat.le_of_lt hbefore, Nat.le_of_lt hafter⟩
    · simpa using ⟨hbefore, hafter⟩
  dsimp only [nearestOn]
  rw [hholds]
  cases (of mantissa exponent).holds scale unit ((of mantissa exponent).value * scale / unit)
  · exact nofun
  · dsimp only
    split
    · exact nofun
    · split
      · exact nofun
      · cases tie <;> exact nofun

end RoundingInterval

-- ---------------------------------------------------------------------------
-- The search
-- ---------------------------------------------------------------------------

namespace Decimal

theorem splitPower_spec (base : Nat) (hbase : 0 < base) (k : Int) :
    0 < (splitPower base k).1 ∧ 0 < (splitPower base k).2 ∧
      ((splitPower base k).1 / (splitPower base k).2 : ℚ) = base ^ k := by
  have hpow {k : Int} (h : 0 ≤ k) : ((Nat.pow base k.toNat : Nat) : ℚ) = base ^ k := by
    rw [Nat.pow_eq, Nat.cast_pow, ← zpow_natCast, Int.toNat_of_nonneg h]
  unfold splitPower
  split
  · rename_i h
    exact ⟨Nat.pow_pos hbase, Nat.one_pos, by rw [Nat.cast_one, div_one, hpow h]⟩
  · rename_i h
    refine ⟨Nat.one_pos, Nat.pow_pos hbase, ?_⟩
    rw [Nat.cast_one, hpow (by omega), zpow_neg, one_div, inv_inv]

variable {mantissa : Nat} {exponent k : Int} {tie : Tie} {grids : Nat}

/-- The search finds a number that rounds to the double, if one of the grids it tries is fine enough. -/
theorem search_roundsTo (hpos : 0 < mantissa)
    (h : ∃ j < grids, (10 : ℚ) ^ (k - j) < 2 ^ (exponent - 1)) :
    RoundsTo mantissa exponent (search (.of mantissa exponent) tie exponent grids k).value := by
  obtain ⟨-, htwo, htwoEq⟩ := splitPower_spec 2 (by decide) (exponent - 2)
  induction grids generalizing k with
  | zero =>
    obtain ⟨j, hj, -⟩ := h
    omega
  | succ grids ih =>
    obtain ⟨hunit, hten, htenEq⟩ := splitPower_spec 10 (by decide) k
    rw [search]
    split
    · rename_i n hn
      have hholds := RoundingInterval.holds_of_nearestOn hn
      rw [RoundingInterval.holds_iff htwo hten, htwoEq, htenEq] at hholds
      exact hholds
    · rename_i hnone
      obtain ⟨j, hj, hfine⟩ := h
      cases j with
      | zero =>
        -- the step of this grid is below half a unit of the last place
        refine absurd hnone (RoundingInterval.nearestOn_ne_none hpos (Nat.mul_pos hunit htwo) ?_)
        rw [Nat.cast_zero, sub_zero, show exponent - 1 = exponent - 2 + 1 by ring, zpow_two_add,
          zpow_one] at hfine
        rw [← not_le, ← Nat.one_mul ((splitPower 10 k).1 * _), RoundingInterval.crossed_le htwo hten,
          htwoEq, htenEq]
        push_cast
        linarith
      | succ j =>
        refine ih ⟨j, by omega, ?_⟩
        rw [show k - 1 - (j : Int) = k - ((j + 1 : Nat) : Int) by push_cast; ring]
        exact hfine

/-- Moving zeros into the exponent does not change the number. -/
theorem value_stripZeros (fuel : Nat) (d : Decimal) : (stripZeros fuel d).value = d.value := by
  induction fuel generalizing d with
  | zero => rfl
  | succ fuel ih =>
    rw [stripZeros]
    split
    · rename_i hzero
      rw [ih, value, value, zpow_add₀ (by norm_num), zpow_one]
      have hdigits : (d.digits : ℚ) = (d.digits / 10 : Nat) * 10 := by
        exact_mod_cast (Nat.div_mul_cancel (Nat.dvd_of_mod_eq_zero hzero.1)).symm
      rw [hdigits]
      dsimp only
      ring
    · rfl

/-- For every order of magnitude that doubles have, the last grid has a step below half a unit of the last
place. -/
theorem fine_enough : ∀ i : Nat, i < 2098 →
    (splitPower 10 (((i : Int) - 1074) * 30103 / 100000 - 21)).1 *
        (splitPower 2 ((i : Int) - 1127)).2 <
      (splitPower 2 ((i : Int) - 1127)).1 *
        (splitPower 10 (((i : Int) - 1074) * 30103 / 100000 - 21)).2 := by
  decide +kernel

/-- **The shortest decimal rounds to its double.** -/
theorem shortest_roundsTo (hcanonical : Canonical mantissa exponent) (hpos : 0 < mantissa)
    (tie : Tie) : RoundsTo mantissa exponent (shortest tie mantissa exponent).value := by
  have hlog : mantissa.log2 < 53 := (Nat.log2_lt (Nat.ne_of_gt hpos)).mpr hcanonical.bound
  have hleast := hcanonical.least
  have hmost := hcanonical.most
  rw [shortest, value_stripZeros]
  refine search_roundsTo hpos ⟨23, by decide, ?_⟩
  generalize hi : (mantissa.log2 + exponent + 1074).toNat = i
  have horder : (mantissa.log2 + exponent : Int) = i - 1074 := by omega
  have hfine := fine_enough i (by omega)
  generalize hk : ((i : Int) - 1074) * 30103 / 100000 - 21 = k at hfine
  have hgrid : (mantissa.log2 + exponent) * 30103 / 100000 + 2 - ((23 : Nat) : Int) = k := by
    rw [horder, ← hk]
    push_cast
    ring
  obtain ⟨-, hten, htenEq⟩ := splitPower_spec 10 (by decide) k
  obtain ⟨-, htwo, htwoEq⟩ := splitPower_spec 2 (by decide) ((i : Int) - 1127)
  rw [hgrid]
  calc (10 : ℚ) ^ k < 2 ^ ((i : Int) - 1127) := by
        rw [← not_le, ← Nat.one_mul ((splitPower 10 k).1 * _),
          ← Nat.one_mul ((splitPower 2 _).1 * _), RoundingInterval.crossed_le htwo hten, htwoEq,
          htenEq] at hfine
        push_cast at hfine
        linarith
    _ ≤ 2 ^ (exponent - 1) := zpow_le_zpow_right₀ one_le_two (by omega)

end Decimal

end SlotFlow
