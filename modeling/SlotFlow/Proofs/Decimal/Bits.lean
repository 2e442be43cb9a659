import Mathlib
import SlotFlow.Decimal.Binary64
/-!
# The bits of a double

A double is its bits, and the bits of a finite double are its exact number: the sign above the exponent,
the exponent above the mantissa. The leading bit of a mantissa is not stored, so it counts for one in the
field of the exponent.

* `Binary64.Canonical` — the mantissas and exponents that finite doubles have;
* `Binary64.magnitudeBits` — how they stand in the bits.

## Results

* `Binary64.ofBits_toBits` — a double is made of its bits;
* `Binary64.ofFloat_eq_finite` — the bits of a finite double are its sign, its exponent and its mantissa.
-/

namespace SlotFlow.Binary64

-- ---------------------------------------------------------------------------
-- Words and their parts
-- ---------------------------------------------------------------------------

section Words

open Float.Model (Format)
open Float.Model.UnpackedFloat

/-- A word is made of its sign, its exponent and its mantissa. -/
theorem join_parts (word : BitVec Format.binary64.numBits) :
    packComponents Format.binary64 (Sign.ofBitVec (unpackSign word)) (unpackExponent word)
      (unpackMantissa word) = word := by
  have hsign : (Sign.ofBitVec (unpackSign word)).toBitVec = unpackSign word := by
    generalize unpackSign word = sign
    revert sign
    decide
  rw [packComponents, hsign]
  refine BitVec.eq_of_getLsbD_eq fun i hi => ?_
  change i < 64 at hi
  simp only [unpackSign, unpackExponent, unpackMantissa, BitVec.getLsbD_append,
    BitVec.getLsbD_cast, BitVec.getLsbD_extractLsb]
  split
  · rw [decide_eq_true (by omega), Bool.true_and, Nat.zero_add]
  · split
    · rw [decide_eq_true (by omega), Bool.true_and, Nat.add_sub_cancel' (by omega)]
    · rw [decide_eq_true (by omega), Bool.true_and, show 52 + 11 + (i - 52 - 11) = i by omega]

/-- A mantissa that is too small for a leading bit is packed as it is. -/
theorem pack_subnormal (sign : Sign) {fraction : BitVec 52} (hpos : 0 < fraction.toNat) :
    pack Format.binary64 (.finite sign fraction.toNat (-1074) hpos) =
      packComponents Format.binary64 sign 0#11 fraction := by
  have hlog : fraction.toNat.log2 < 52 := (Nat.log2_lt (Nat.ne_of_gt hpos)).mpr fraction.isLt
  have hbits : fraction.toNat.log2 + 1 ≠ Format.binary64.mantissaBits := by
    change _ ≠ 53
    omega
  rw [pack]
  dsimp only
  rw [if_neg (by decide), if_neg hbits, BitVec.ofNat_toNat, BitVec.setWidth_eq]

/-- Of a mantissa that has its leading bit the others are packed. -/
theorem pack_normal (sign : Sign) {field : BitVec 11} (hfield : field ≠ -1#11) (fraction : BitVec 52)
    (hpos : 0 < (1#1 ++ fraction).toNat) :
    pack Format.binary64 (.finite sign (1#1 ++ fraction).toNat (field.toNat - 1075) hpos) =
      packComponents Format.binary64 sign field fraction := by
  have hlast : field.toNat ≠ 2047 := fun hlast => hfield (BitVec.eq_of_toNat_eq hlast)
  have happend : (1#1 ++ fraction).toNat = 2 ^ 52 + fraction.toNat := by
    rw [BitVec.toNat_append, ← Nat.shiftLeft_add_eq_or_of_lt fraction.isLt]
    rfl
  have hlog : (1#1 ++ fraction).toNat.log2 = 52 := by
    rw [happend, Nat.log2_eq_iff (by omega)]
    omega
  have hbias : ((field.toNat : Int) - 1075 + Format.binary64.exponentBias + (52 : Nat)).toNat =
      field.toNat := by
    change ((field.toNat : Int) - 1075 + (1023 : Nat) + (52 : Nat)).toNat = _
    omega
  have hfinite : ¬2 ^ Format.binary64.exponentBits ≤ field.toNat + 1 := by
    change ¬2048 ≤ _
    omega
  have hdrop : BitVec.ofNat 52 (2 ^ 52 + fraction.toNat) = fraction := by
    refine BitVec.eq_of_toNat_eq ?_
    rw [BitVec.toNat_ofNat, Nat.add_mod_left, Nat.mod_eq_of_lt fraction.isLt]
  have hbits : 52 + 1 = Format.binary64.mantissaBits := rfl
  rw [pack]
  dsimp only
  rw [hlog, happend, hbias, if_neg hfinite, if_pos hbits, hdrop, BitVec.ofNat_toNat,
    BitVec.setWidth_eq]

/-- Packing a number that was unpacked gives its word again: of the words that are no numbers, only one
is in use. -/
theorem pack_unpack {word : BitVec Format.binary64.numBits} (h : Format.binary64.Valid word) :
    pack Format.binary64 (unpack Format.binary64 word) = word := by
  have hparts := join_parts word
  rw [unpack]
  split
  · rename_i hexponent
    split
    · rename_i hmantissa
      rw [hexponent, hmantissa] at hparts
      exact hparts
    · rename_i hmantissa
      exact (h.eq_packedNaN hexponent hmantissa).symm
  · rename_i hspecial
    split
    · rename_i hexponent
      rw [hexponent] at hparts
      split
      · rename_i hmantissa
        rw [hmantissa] at hparts
        exact hparts
      · rw [hexponent]
        exact (pack_subnormal ..).trans hparts
    · exact (pack_normal _ hspecial ..).trans hparts

end Words

/-- A double is made of its bits. -/
theorem ofBits_toBits (x : Float) : Float.ofBits x.toBits = x := by
  obtain ⟨bits, hvalid⟩ := x
  rw [Float.ofBits, Float.toBits, Float.Model.ofBits, Float.Model.pack]
  congr 2
  dsimp only
  rw [pack_unpack hvalid]

-- ---------------------------------------------------------------------------
-- Finite doubles
-- ---------------------------------------------------------------------------

/-- Whether a double is a number. -/
def isFinite : Binary64 → Bool
  | .finite .. => true
  | _ => false

theorem isFinite_iff {value : Binary64} :
    value.isFinite = true ↔ ∃ negative mantissa exponent, value = .finite negative mantissa exponent := by
  cases value <;> simp [isFinite]

/-- The mantissas and exponents of finite doubles: a mantissa has all of its bits, unless the exponent is
the least there is. -/
structure Canonical (mantissa : Nat) (exponent : Int) : Prop where
  bound : mantissa < 2 * hiddenBit
  least : -1074 ≤ exponent
  most : exponent ≤ 971
  full : hiddenBit ≤ mantissa ∨ exponent = -1074

/-- The bits of a finite double without its sign. -/
def magnitudeBits (mantissa : Nat) (exponent : Int) : Nat :=
  (exponent + 1074).toNat * hiddenBit + mantissa

variable {x : Float} {negative : Bool} {mantissa : Nat} {exponent : Int}

theorem hiddenBit_eq : hiddenBit = 4503599627370496 := rfl

theorem signBit_eq : signBit = 9223372036854775808 := rfl

/-- The bits of a finite double are its sign, its exponent and its mantissa. -/
theorem ofFloat_eq_finite (h : ofFloat x = .finite negative mantissa exponent) :
    Canonical mantissa exponent ∧
      x.toBits.toNat = (if negative then signBit else 0) + magnitudeBits mantissa exponent := by
  dsimp only [ofFloat] at h
  have hbits : x.toBits.toNat < 2 ^ 64 := x.toBits.toBitVec.isLt
  generalize x.toBits.toNat = bits at *
  have hsign : (if decide (bits / signBit = 1) then signBit else 0) = bits / signBit * signBit := by
    by_cases hone : bits / signBit = 1
    · rw [decide_eq_true hone, if_pos rfl, hone, Nat.one_mul]
    · rw [decide_eq_false hone, if_neg Bool.false_ne_true]
      rw [signBit_eq] at hone ⊢
      omega
  have hsplit : bits = bits / signBit * signBit +
      (bits / hiddenBit % 2048 * hiddenBit + bits % hiddenBit) := by
    rw [signBit_eq, hiddenBit_eq]
    omega
  have hfraction : bits % hiddenBit < hiddenBit := Nat.mod_lt _ (by decide)
  have hfield : bits / hiddenBit % 2048 < 2048 := Nat.mod_lt _ (by decide)
  rw [magnitudeBits]
  generalize bits / signBit * signBit = sign at hsign hsplit
  generalize bits / hiddenBit % 2048 = field at *
  generalize bits % hiddenBit = fraction at *
  split at h
  · split at h <;> cases h
  · rename_i hlast
    split at h <;> cases h
    · rename_i hzero
      refine ⟨⟨by omega, by omega, by omega, .inr rfl⟩, ?_⟩
      rw [hsign, hsplit, hzero]
      rfl
    · rename_i hzero
      obtain ⟨field, rfl⟩ := Nat.exists_eq_succ_of_ne_zero hzero
      refine ⟨⟨by omega, by omega, by omega, .inl (by omega)⟩, ?_⟩
      have hexponent : (((field + 1 : Nat) : Int) - 1075 + 1074).toNat = field := by omega
      rw [hsign, hexponent, hsplit, Nat.succ_mul, Nat.add_assoc]

/-- A finite double is made of its sign, its exponent and its mantissa. -/
theorem ofBits_magnitudeBits (h : ofFloat x = .finite negative mantissa exponent) :
    Float.ofBits (UInt64.ofNat ((if negative then signBit else 0) +
      magnitudeBits mantissa exponent)) = x := by
  rw [← (ofFloat_eq_finite h).2, UInt64.ofNat_toNat, ofBits_toBits]

end SlotFlow.Binary64
