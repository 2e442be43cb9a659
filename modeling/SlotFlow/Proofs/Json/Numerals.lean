import SlotFlow.Json.Node
import SlotFlow.Proofs.Decimal.Grids
/-!
# Numbers are read as they were written

A number is written as its sign, whole digits, decimal places and an exponent. The reader takes as many
digits as there are, so what it reads is what was written only where the text that follows does not go on
with the number. Which double it then takes is up to the conversion: the nearest one is the double that was
written, and a quicker conversion may take another.

* `Json.Node.Clear` — a text that does not go on with a number;
* `Json.Node.Whole` — digits that may stand before the point;
* `Json.Conversion.reread?` — the double that the text of a double is read as.

## Results

* `Json.Node.readUnsigned_magnitude` — the digits of a decimal are read as that decimal;
* `Json.Node.readNumber_float` — the text of a finite double is read alike, whatever follows;
* `Json.Conversion.reread?_nearest` — the nearest double to it is the double that was written;
* `Json.Node.readNumber_int` — the text of an integer of 64 bits is read as that integer.
-/

namespace SlotFlow.Json

namespace Node

-- ---------------------------------------------------------------------------
-- What follows a number
-- ---------------------------------------------------------------------------

/-- A text that does not go on with digits. -/
def Stops (rest : List Char) : Prop :=
  ∀ c ∈ rest.head?, c.isDigit = false

/-- A text that does not go on with a number. -/
structure Clear (rest : List Char) : Prop where
  stops : Stops rest
  point : rest.head? ≠ some '.'
  lower : rest.head? ≠ some 'e'
  upper : rest.head? ≠ some 'E'

theorem clear_nil : Clear [] :=
  ⟨nofun, nofun, nofun, nofun⟩

variable {conversion : Conversion} {whole places digits rest : List Char}

theorem takeWhile_digits (h : ∀ c ∈ digits, c.isDigit = true) (hrest : Stops rest) :
    (digits ++ rest).takeWhile Char.isDigit = digits := by
  rw [List.takeWhile_append_of_pos h]
  cases rest with
  | nil => simp
  | cons c cs => rw [List.takeWhile_cons_of_neg (by simp [hrest c rfl]), List.append_nil]

theorem dropWhile_digits (h : ∀ c ∈ digits, c.isDigit = true) (hrest : Stops rest) :
    (digits ++ rest).dropWhile Char.isDigit = rest := by
  rw [List.dropWhile_append_of_pos h]
  cases rest with
  | nil => simp
  | cons c cs => rw [List.dropWhile_cons_of_neg (by simp [hrest c rfl])]

-- ---------------------------------------------------------------------------
-- The parts of a number
-- ---------------------------------------------------------------------------

theorem readPlaces_none (h : rest.head? ≠ some '.') : readPlaces rest = some ([], rest) := by
  unfold readPlaces
  split
  · exact absurd rfl h
  · rfl

theorem readPlaces_some (hne : places ≠ []) (h : ∀ c ∈ places, c.isDigit = true)
    (hrest : Stops rest) : readPlaces ('.' :: (places ++ rest)) = some (places, rest) := by
  rw [readPlaces, takeWhile_digits h hrest, dropWhile_digits h hrest, if_neg hne]

theorem readExponent_none (h : Clear rest) : readExponent rest = some (none, rest) := by
  cases rest with
  | nil => rfl
  | cons c cs =>
    have hmark : ¬(c = 'e' ∨ c = 'E') := by
      rintro (rfl | rfl)
      · exact h.lower rfl
      · exact h.upper rfl
    rw [readExponent, if_neg hmark]

theorem readExponent_some (hne : digits ≠ []) (h : ∀ c ∈ digits, c.isDigit = true)
    (hrest : Stops rest) (negative : Bool) :
    readExponent ('e' :: (if negative then '-' else '+') :: (digits ++ rest)) =
      some (some (if negative then -(Numeral.digitsValue digits : Int)
        else Numeral.digitsValue digits), rest) := by
  have hsign : Numeral.takeSign ((if negative then '-' else '+') :: (digits ++ rest)) =
      (negative, digits ++ rest) := by
    cases negative <;> rfl
  rw [readExponent, if_pos (.inl rfl)]
  dsimp only
  rw [hsign]
  dsimp only
  rw [takeWhile_digits h hrest, dropWhile_digits h hrest, if_neg hne]

/-- The text of an integer is its digits, with a sign if it is negative. -/
theorem toList_toString (i : Int) : (toString i).toList =
    (if i < 0 then ['-'] else []) ++ Nat.toDigits 10 i.natAbs := by
  cases i with
  | ofNat n => exact Nat.toList_repr
  | negSucc n =>
    rw [if_pos (Int.negSucc_lt_zero n)]
    exact String.toList_append.trans (congrArg _ Nat.toList_repr)

/-- Digits that may stand before the point: a zero, or digits of which the first is no zero. -/
inductive Whole : List Char → Prop where
  | zero : Whole ['0']
  | digits {c : Char} {cs : List Char} (hfirst : c ≠ '0') (h : ∀ d ∈ c :: cs, d.isDigit = true) :
      Whole (c :: cs)

theorem readUnsigned_whole (hwhole : Whole whole) (hrest : Stops rest) (negative : Bool) :
    readUnsigned conversion negative (whole ++ rest) = (do
      let (places, rest) ← readPlaces rest
      let (exponent, rest) ← readExponent rest
      return (ofNumeral conversion negative whole places exponent, rest)) := by
  cases hwhole with
  | zero => rfl
  | @digits c cs hfirst h =>
    have hhead (other : List Char) : c :: cs ++ rest = '0' :: other → False := by
      intro heq
      cases heq
      exact hfirst rfl
    rw [readUnsigned.eq_def]
    split
    · exact absurd ‹_› (hhead _)
    · rw [takeWhile_digits h hrest, dropWhile_digits h hrest, if_neg (List.cons_ne_nil c cs)]
      rfl

-- ---------------------------------------------------------------------------
-- Digits
-- ---------------------------------------------------------------------------

theorem digitsValue_append_zeros (cs : List Char) (n : Nat) :
    Numeral.digitsValue (cs ++ List.replicate n '0') = Numeral.digitsValue cs * 10 ^ n := by
  change Nat.ofDigitChars 10 _ 0 = Nat.ofDigitChars 10 _ 0 * 10 ^ n
  rw [Nat.ofDigitChars_append, Nat.ofDigitChars_replicate_zero, Nat.mul_comm]

theorem digitsValue_zeros_append (n : Nat) (cs : List Char) :
    Numeral.digitsValue (List.replicate n '0' ++ cs) = Numeral.digitsValue cs := by
  change Nat.ofDigitChars 10 _ 0 = Nat.ofDigitChars 10 _ 0
  rw [Nat.ofDigitChars_append, Nat.ofDigitChars_replicate_zero, Nat.mul_zero]

theorem digitsValue_toDigits (n : Nat) : Numeral.digitsValue (Nat.toDigits 10 n) = n :=
  Nat.ofDigitChars_ten_toDigits

theorem isDigit_of_mem_toDigits {n : Nat} : ∀ c ∈ Nat.toDigits 10 n, c.isDigit = true :=
  fun _ => Nat.isDigit_of_mem_toDigits (by decide) (by decide)

/-- A number that is not zero does not start with a zero. -/
theorem exists_toDigits_eq_cons {n : Nat} (h : 0 < n) :
    ∃ c cs, Nat.toDigits 10 n = c :: cs ∧ c ≠ '0' := by
  induction n using Nat.base_induction 10 (by decide) with
  | single m hm =>
    refine ⟨_, [], Nat.toDigits_of_lt_base hm, fun hzero => ?_⟩
    have hvalue := Nat.toNat_digitChar_sub_48_of_lt_ten hm
    rw [hzero] at hvalue
    exact Nat.ne_of_lt h hvalue
  | digit m k hk hm ih =>
    obtain ⟨c, cs, hcons, hc⟩ := ih hm
    refine ⟨c, cs ++ Nat.toDigits 10 k, ?_, hc⟩
    rw [← Nat.toDigits_append_toDigits (by decide) hm hk, hcons, List.cons_append]

theorem whole_toDigits (n : Nat) : Whole (Nat.toDigits 10 n) := by
  rcases Nat.eq_zero_or_pos n with rfl | hpos
  · exact .zero
  · obtain ⟨c, cs, hcons, hc⟩ := exists_toDigits_eq_cons hpos
    have hdigits := @isDigit_of_mem_toDigits n
    rw [hcons] at hdigits ⊢
    exact .digits hc hdigits

-- ---------------------------------------------------------------------------
-- Decimals
-- ---------------------------------------------------------------------------

/-- The parts of a number stand for a decimal, and are not those of an integer. -/
structure Spells (d : Decimal) (whole places : List Char) (exponent : Option Int) : Prop where
  fractional : places ≠ [] ∨ exponent ≠ none
  value : (Numeral.digitsValue (whole ++ places) * 10 ^ (exponent.getD 0 - places.length) : ℚ) = d.value

theorem readUnsigned_point (hwhole : Whole whole) (hne : places ≠ [])
    (h : ∀ c ∈ places, c.isDigit = true) (hrest : Clear rest) (negative : Bool) :
    readUnsigned conversion negative (whole ++ '.' :: places ++ rest) =
      some (ofNumeral conversion negative whole places none, rest) := by
  have hstops : Stops ('.' :: (places ++ rest)) := by
    rintro c ⟨⟩
    rfl
  rw [List.append_assoc, List.cons_append, readUnsigned_whole hwhole hstops,
    readPlaces_some hne h hrest.stops]
  dsimp only [Option.bind_eq_bind, Option.bind_some]
  rw [readExponent_none hrest]
  rfl

section Point

variable {d : Decimal} {digits : List Char} {n : Nat}

theorem isDigit_of_mem_zeros : ∀ c ∈ List.replicate n '0', c.isDigit = true := by
  intro c hc
  rw [List.eq_of_mem_replicate hc]
  rfl

/-- The point stands before the digits, with zeros between. -/
theorem spells_before (hne : digits ≠ []) (hvalue : Numeral.digitsValue digits = d.digits)
    (hn : (n : Int) = -(d.exponent + digits.length)) :
    Spells d ['0'] (List.replicate n '0' ++ digits) none where
  fractional := .inl (by simp [hne])
  value := by
    have hexponent : none.getD (0 : Int) - ((List.replicate n '0' ++ digits).length : Int) =
        d.exponent := by
      rw [List.length_append, List.length_replicate, Option.getD_none]
      omega
    have hzeros : ['0'] ++ (List.replicate n '0' ++ digits) =
        List.replicate (n + 1) '0' ++ digits := rfl
    rw [hexponent, hzeros, digitsValue_zeros_append, hvalue, Decimal.value]

/-- The point stands after the digits, with zeros between. -/
theorem spells_after (hvalue : Numeral.digitsValue digits = d.digits)
    (hn : (n : Int) = d.exponent) :
    Spells d (digits ++ List.replicate n '0') ['0'] none where
  fractional := .inl (by simp)
  value := by
    have hzeros : digits ++ List.replicate n '0' ++ ['0'] = digits ++ List.replicate (n + 1) '0' := by
      rw [List.replicate_succ', List.append_assoc]
    have hexponent : ((n + 1 : Nat) : Int) + (none.getD (0 : Int) - 1) = d.exponent := by
      rw [Option.getD_none]
      omega
    rw [hzeros, digitsValue_append_zeros, hvalue, Nat.cast_mul, Nat.cast_pow, Nat.cast_ofNat,
      mul_assoc, ← zpow_natCast, List.length_singleton, Nat.cast_one, ← zpow_add₀ (by norm_num),
      hexponent, Decimal.value]

/-- The point stands among the digits. -/
theorem spells_among (hvalue : Numeral.digitsValue digits = d.digits) (hdrop : digits.drop n ≠ [])
    (hn : (n : Int) = d.exponent + digits.length) :
    Spells d (digits.take n) (digits.drop n) none where
  fractional := .inl hdrop
  value := by
    have hlength := List.length_pos_iff.mpr hdrop
    have hexponent : none.getD (0 : Int) - ((digits.drop n).length : Int) = d.exponent := by
      rw [List.length_drop] at hlength ⊢
      rw [Option.getD_none]
      omega
    rw [hexponent, List.take_append_drop, hvalue, Decimal.value]

/-- A point among digits does not change them. -/
theorem readUnsigned_placePoint (hd : 0 < d.digits) (negative : Bool) :
    ∃ whole places, Spells d whole places none ∧ ∀ rest, Clear rest →
      readUnsigned conversion negative (NumberFormat.placePoint (Nat.toDigits 10 d.digits)
        (d.exponent + (Nat.toDigits 10 d.digits).length) true ++ rest) =
      some (ofNumeral conversion negative whole places none, rest) := by
  have hdigits := @isDigit_of_mem_toDigits d.digits
  have hvalue := digitsValue_toDigits d.digits
  have hne : Nat.toDigits 10 d.digits ≠ [] := Nat.toDigits_ne_nil
  obtain ⟨first, others, hcons, hfirst⟩ := exists_toDigits_eq_cons hd
  generalize Nat.toDigits 10 d.digits = digits at *
  unfold NumberFormat.placePoint
  split
  · rename_i hpoint
    generalize hn : (-(d.exponent + (digits.length : Int))).toNat = n
    refine ⟨_, _, spells_before hne hvalue (n := n) (by omega), fun rest hrest =>
      readUnsigned_point .zero (by simp [hne]) ?_ hrest negative⟩
    exact List.forall_mem_append.mpr ⟨isDigit_of_mem_zeros, hdigits⟩
  · rename_i hpoint
    generalize hn : (d.exponent + (digits.length : Int)).toNat = n
    dsimp only
    split
    · rename_i hdrop
      have hlength : digits.length ≤ n := List.drop_eq_nil_iff.mp hdrop
      rw [List.take_of_length_le hlength, if_pos rfl]
      have hwhole : Whole (digits ++ List.replicate (n - digits.length) '0') := by
        have hall := List.forall_mem_append.mpr
          ⟨hdigits, isDigit_of_mem_zeros (n := n - digits.length)⟩
        rw [hcons, List.cons_append] at hall ⊢
        exact .digits hfirst hall
      exact ⟨_, _, spells_after hvalue (by omega), fun rest hrest =>
        readUnsigned_point hwhole (by simp) (List.forall_mem_singleton.mpr rfl) hrest negative⟩
    · rename_i hdrop
      obtain ⟨k, rfl⟩ : ∃ k, n = k + 1 := ⟨n - 1, by omega⟩
      have hwhole : Whole (digits.take (k + 1)) := by
        have hall : ∀ c ∈ digits.take (k + 1), c.isDigit = true :=
          fun c hc => hdigits c (List.mem_of_mem_take hc)
        rw [hcons, List.take_succ_cons] at hall ⊢
        exact .digits hfirst hall
      exact ⟨_, _, spells_among hvalue hdrop (by omega), fun rest hrest =>
        readUnsigned_point hwhole hdrop (fun c hc => hdigits c (List.mem_of_mem_drop hc)) hrest
          negative⟩

end Point

/-- An exponent with its sign is read as itself. -/
theorem readExponent_order (order : Int) (hrest : Stops rest) :
    readExponent ('e' :: ((if order < 0 then "" else "+").toList ++ (toString order).toList) ++ rest) =
      some (some order, rest) := by
  have hsigned : (if order < 0 then "" else "+").toList ++ (toString order).toList =
      (if decide (order < 0) then '-' else '+') :: Nat.toDigits 10 order.natAbs := by
    rw [toList_toString]
    by_cases h : order < 0
    · simp [h]
    · simp [h]
  have hvalue : (if decide (order < 0) then -(order.natAbs : Int) else order.natAbs) = order := by
    by_cases h : order < 0
    · rw [decide_eq_true h, if_pos rfl]
      omega
    · rw [decide_eq_false h, if_neg Bool.false_ne_true]
      omega
  have hread := readExponent_some Nat.toDigits_ne_nil (isDigit_of_mem_toDigits (n := order.natAbs))
    hrest (order < 0)
  rw [digitsValue_toDigits, hvalue] at hread
  rw [hsigned]
  exact hread

theorem readUnsigned_withExponent {d : Decimal} (hd : 0 < d.digits) (negative : Bool) :
    ∃ whole places exponent, Spells d whole places exponent ∧ ∀ rest, Clear rest →
      readUnsigned conversion negative (NumberFormat.withExponent (Nat.toDigits 10 d.digits)
        (d.exponent + (Nat.toDigits 10 d.digits).length - 1) "+" ++ rest) =
      some (ofNumeral conversion negative whole places exponent, rest) := by
  have hdigits := @isDigit_of_mem_toDigits d.digits
  have hvalue := digitsValue_toDigits d.digits
  obtain ⟨first, others, hcons, hfirst⟩ := exists_toDigits_eq_cons hd
  have hwhole : Whole [first] := by
    refine .digits hfirst fun c hc => hdigits c ?_
    rw [List.mem_singleton.mp hc, hcons]
    exact List.mem_cons_self
  obtain ⟨order, horder⟩ : ∃ order, order = d.exponent + (Nat.toDigits 10 d.digits).length - 1 :=
    ⟨_, rfl⟩
  rw [← horder]
  rw [hcons] at hdigits hvalue horder ⊢
  refine ⟨[first], others, some order, ⟨.inr (by simp), ?_⟩, fun rest hrest => ?_⟩
  · have hexponent : (some order).getD 0 - (others.length : Int) = d.exponent := by
      rw [Option.getD_some, horder, List.length_cons]
      omega
    rw [hexponent, List.singleton_append, hvalue, Decimal.value]
  · have hexponent := readExponent_order order hrest.stops
    have hhead : ('e' :: ((if order < 0 then "" else "+").toList ++ (toString order).toList) ++
        rest).head? = some 'e' := rfl
    dsimp only [NumberFormat.withExponent]
    generalize 'e' :: ((if order < 0 then "" else "+").toList ++ (toString order).toList) =
      written at *
    have hstops : Stops (written ++ rest) := by
      rw [Stops, hhead]
      rintro c ⟨⟩
      rfl
    cases others with
    | nil =>
      dsimp only
      rw [List.append_assoc, readUnsigned_whole hwhole hstops, readPlaces_none (by simp [hhead])]
      dsimp only [Option.bind_eq_bind, Option.bind_some]
      rw [hexponent]
      rfl
    | cons second others =>
      have hplaces : ∀ c ∈ second :: others, c.isDigit = true := fun c hc =>
        hdigits c (List.mem_cons_of_mem _ hc)
      have hshape : first :: '.' :: second :: others ++ written ++ rest =
          [first] ++ '.' :: (second :: others ++ (written ++ rest)) := by simp
      have hpoint : Stops ('.' :: (second :: others ++ (written ++ rest))) := by
        rintro c ⟨⟩
        rfl
      dsimp only
      rw [hshape, readUnsigned_whole hwhole hpoint, readPlaces_some (by simp) hplaces hstops]
      dsimp only [Option.bind_eq_bind, Option.bind_some]
      rw [hexponent]
      rfl

/-- The text of a decimal is read as that decimal. -/
theorem readUnsigned_magnitude {d : Decimal} (hd : 0 < d.digits) (negative : Bool) :
    ∃ whole places exponent, Spells d whole places exponent ∧ ∀ rest, Clear rest →
      readUnsigned conversion negative (NumberFormat.json.magnitude d ++ rest) =
        some (ofNumeral conversion negative whole places exponent, rest) := by
  dsimp only [NumberFormat.magnitude, NumberFormat.json]
  split
  · rw [Int.sub_add_cancel]
    obtain ⟨whole, places, h⟩ := readUnsigned_placePoint hd negative
    exact ⟨whole, places, none, h⟩
  · exact readUnsigned_withExponent hd negative

-- ---------------------------------------------------------------------------
-- Doubles and integers
-- ---------------------------------------------------------------------------

variable {x : Float} {negative : Bool} {mantissa : Nat} {exponent : Int}

/-- What is read without its sign is read with it, too. -/
theorem readNumber_of_readUnsigned {cs : List Char} {answer : Node × List Char}
    (h : readUnsigned conversion negative cs = some answer) :
    readNumber conversion ((if negative then ['-'] else []) ++ cs) = some answer := by
  cases negative with
  | true => exact h
  | false =>
    rw [if_neg Bool.false_ne_true, List.nil_append, readNumber.eq_def]
    split
    · -- no number without its sign starts with one
      cases h
    · exact h

/-- A number with a point or an exponent is read as a double. -/
theorem ofNumeral_eq_ofDouble {power : Option Int} (hfractional : places ≠ [] ∨ power ≠ none) :
    ofNumeral conversion negative whole places power =
      ofDouble (conversion.double negative whole places power) := by
  have hintegral : ¬(places = [] ∧ power = none) := fun h => hfractional.elim (· h.1) (· h.2)
  rw [ofNumeral, if_neg fun h => hintegral ⟨h.1, h.2.1⟩]

theorem exists_readUnsigned (hx : Binary64.ofFloat x = .finite negative mantissa exponent)
    (hpos : 0 < mantissa) (tie : Tie) :
    ∃ whole places power, Conversion.nearest.double negative whole places power = x ∧
      ∀ rest, Clear rest →
        readUnsigned conversion negative
            (NumberFormat.json.magnitude (.shortest tie mantissa exponent) ++ rest) =
          some (ofDouble (conversion.double negative whole places power), rest) := by
  have hrounds := Decimal.shortest_roundsTo (Binary64.ofFloat_eq_finite hx).1 hpos tie
  generalize Decimal.shortest tie mantissa exponent = d at *
  have hd : 0 < d.digits := hrounds.digits_pos (Binary64.ofFloat_eq_finite hx).1 hpos
  obtain ⟨whole, places, power, hspells, hread⟩ := readUnsigned_magnitude hd negative
  refine ⟨whole, places, power, Binary64.ofDecimal_eq hx hpos (hspells.value ▸ hrounds),
    fun rest hrest => ?_⟩
  rw [hread rest hrest, ofNumeral_eq_ofDouble hspells.fractional]

/-- The text of a finite double is read as the double of its parts. The double nearest to these is the one
that was written. -/
theorem exists_readNumber (hx : Binary64.ofFloat x = .finite negative mantissa exponent) :
    ∃ whole places power, Conversion.nearest.double negative whole places power = x ∧
      ∀ rest, Clear rest →
        readNumber conversion ((NumberFormat.json.render x).toList ++ rest) =
          some (ofDouble (conversion.double negative whole places power), rest) := by
  have hsigned (text : String) : (if negative then "-" ++ text else text).toList =
      (if negative then ['-'] else []) ++ text.toList := by
    cases negative with
    | true => exact String.toList_append
    | false => rfl
  dsimp only [NumberFormat.render]
  rw [hx]
  dsimp only
  rw [hsigned]
  by_cases hmantissa : mantissa = 0
  · subst hmantissa
    rw [if_pos rfl]
    have hzero : Conversion.nearest.double negative ['0'] ['0'] none = x := by
      show Binary64.ofDecimal negative 0 (0 - 1) = x
      rw [Binary64.ofDecimal, if_pos (.inl rfl), Binary64.nearest_zero hx]
    refine ⟨['0'], ['0'], none, hzero, fun rest hrest => ?_⟩
    have hread := @readUnsigned_point conversion _ ['0'] rest .zero (by simp)
      (List.forall_mem_singleton.mpr rfl) hrest negative
    rw [ofNumeral_eq_ofDouble (.inl (by simp))] at hread
    rw [List.append_assoc]
    exact readNumber_of_readUnsigned hread
  · obtain ⟨whole, places, power, hnearest, hread⟩ := @exists_readUnsigned conversion _ _ _ _ hx
      (Nat.pos_of_ne_zero hmantissa) NumberFormat.json.tie
    refine ⟨whole, places, power, hnearest, fun rest hrest => ?_⟩
    rw [if_neg hmantissa, String.toList_ofList, List.append_assoc]
    exact readNumber_of_readUnsigned (hread rest hrest)

end Node

/-- The double that the text of a double is read as. There is none if the double is not finite, or if the
conversion takes it to be beyond the doubles. -/
def Conversion.reread? (conversion : Conversion) (x : Float) : Option Float :=
  match Node.readNumber conversion (NumberFormat.json.render x).toList with
  | some (.float y, []) => some y
  | _ => none

/-- The double that a double becomes when its text is read. -/
def Conversion.reread (conversion : Conversion) (x : Float) : Float :=
  (conversion.reread? x).getD x

/-- The text of a double does not stop a reader: it stands for a double, unless it is absent. -/
def Conversion.Legible (conversion : Conversion) (x : Float) : Prop :=
  (Binary64.ofFloat x).isFinite = true → (conversion.reread? x).isSome = true

/-- The double nearest to the text of a finite double is that double. -/
theorem Conversion.reread?_nearest {x : Float} (hx : (Binary64.ofFloat x).isFinite = true) :
    nearest.reread? x = some x := by
  obtain ⟨negative, mantissa, exponent, hfinite⟩ := Binary64.isFinite_iff.mp hx
  obtain ⟨whole, places, power, hnearest, hread⟩ := Node.exists_readNumber hfinite
  have halone := hread [] Node.clear_nil
  rw [List.append_nil, hnearest, Node.ofDouble, hfinite] at halone
  rw [reread?, halone]

theorem Conversion.legible_nearest (x : Float) : nearest.Legible x := by
  intro hx
  rw [reread?_nearest hx, Option.isSome_some]

/-- What is not finite is not read as a double. -/
theorem Conversion.reread?_of_not_finite (conversion : Conversion) {x : Float}
    (hx : (Binary64.ofFloat x).isFinite = false) : conversion.reread? x = none := by
  rw [reread?, NumberFormat.render]
  cases h : Binary64.ofFloat x with
  | nan => rfl
  | infinite negative => cases negative <;> rfl
  | finite => simp [h, Binary64.isFinite] at hx

/-- Under the conversion that takes the nearest double, the doubles that come back are the finite ones. -/
theorem Conversion.reread?_nearest_eq_self_iff {x : Float} :
    nearest.reread? x = some x ↔ (Binary64.ofFloat x).isFinite = true := by
  refine ⟨fun hback => ?_, reread?_nearest⟩
  by_contra hx
  rw [reread?_of_not_finite _ (Bool.eq_false_iff.mpr hx)] at hback
  cases hback

/-- A double comes back if it is finite and its text stands for it. -/
theorem Conversion.reread?_eq_self_iff {conversion : Conversion} {x : Float} (h : conversion.Legible x) :
    conversion.reread? x = some x ↔
      (Binary64.ofFloat x).isFinite = true ∧ conversion.reread x = x := by
  rw [reread]
  cases hx : (Binary64.ofFloat x).isFinite with
  | false => simp [conversion.reread?_of_not_finite hx]
  | true =>
    obtain ⟨y, hy⟩ := Option.isSome_iff_exists.mp (h hx)
    simp [hy]

/-- Not every finite double comes back under the conversion of documents: 100.78399658203125 becomes the double
before it. -/
example : Conversion.scaled.reread? (Float.ofBits 0x4059322D00000000) =
    some (Float.ofBits 0x4059322CFFFFFFFF) := by
  decide +kernel

namespace Node

variable {conversion : Conversion} {rest : List Char}

/-- **The text of a finite double is read alike, whatever follows.** -/
theorem readNumber_float {x : Float} (hx : (Binary64.ofFloat x).isFinite = true) (hrest : Clear rest) :
    readNumber conversion ((NumberFormat.json.render x).toList ++ rest) =
      some (((conversion.reread? x).map float).getD unusable, rest) := by
  obtain ⟨negative, mantissa, exponent, hfinite⟩ := Binary64.isFinite_iff.mp hx
  obtain ⟨whole, places, power, -, hread⟩ := exists_readNumber hfinite
  have halone := hread [] clear_nil
  rw [List.append_nil] at halone
  rw [hread rest hrest, Conversion.reread?, halone, ofDouble]
  cases Binary64.ofFloat (conversion.double negative whole places power) <;> rfl

/-- **The text of an integer of 64 bits is read as that integer.** -/
theorem readNumber_int {i : Int} (hleast : Int64.minValue.toInt ≤ i)
    (hmost : i ≤ Int64.maxValue.toInt) (hrest : Clear rest) :
    readNumber conversion ((toString i).toList ++ rest) = some (.int i, rest) := by
  have hsign : (if i < 0 then ['-'] else []) = (if decide (i < 0) then ['-'] else []) := by
    simp
  rw [toList_toString, hsign, List.append_assoc]
  refine readNumber_of_readUnsigned ?_
  rw [readUnsigned_whole (whole_toDigits _) hrest.stops, readPlaces_none hrest.point]
  dsimp only [Option.bind_eq_bind, Option.bind_some]
  rw [readExponent_none hrest]
  dsimp only [Option.bind_some]
  change -9223372036854775808 ≤ i at hleast
  change i ≤ 9223372036854775807 at hmost
  rw [ofNumeral, List.append_nil, digitsValue_toDigits]
  have hsize : UInt64.size = 18446744073709551616 := rfl
  by_cases hnegative : i < 0
  · simp only [decide_eq_true hnegative, if_true]
    rw [if_pos ⟨trivial, trivial, by omega, by omega⟩, show -(i.natAbs : Int) = i by omega]
    rfl
  · simp only [decide_eq_false hnegative, Bool.false_eq_true, if_false]
    rw [if_pos ⟨trivial, trivial, by omega⟩, show (i.natAbs : Int) = i by omega]
    rfl

end Node

end SlotFlow.Json
