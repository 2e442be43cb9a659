import SlotFlow.Proofs.Naming.Identifier
import SlotFlow.Decimal.Format
import SlotFlow.Graph.Slot
/-!
# Line breaks

A text that is written on one line must not hold a line break. Literals hold none, whatever they stand
for: a quoted text has escapes in their place, and numbers consist of digits and a few signs.

* `Text.Unbroken` — a text holds no line break.

## Results

* `Text.unbroken_append`, `Text.unbroken_intercalate` — texts that are put together;
* `Text.unbroken_quote`, `Text.unbroken_of_isWord`, `NumberFormat.unbroken_render` — texts that never
  hold one.
-/

namespace SlotFlow

namespace Text

/-- Whether a character breaks a line. -/
def isBreak (c : Char) : Bool :=
  c = '\n' || c = '\r'

/-- A text holds no line break. -/
def Unbroken (text : String) : Prop :=
  ∀ c ∈ text.toList, isBreak c = false

-- The characters of the text are gone through, not all there are.
instance (text : String) : Decidable (Unbroken text) :=
  List.decidableBAll (isBreak · = false) text.toList

theorem isBreak_eq_true {c : Char} : isBreak c = true ↔ c = '\n' ∨ c = '\r' := by
  rw [isBreak, Bool.or_eq_true, decide_eq_true_eq, decide_eq_true_eq]

/-- What no line break has is a reason for being none. -/
theorem not_isBreak_of {p : Char → Bool} (hfeed : p '\n' = false) (hreturn : p '\r' = false) {c : Char}
    (h : p c = true) : isBreak c = false := by
  by_contra hbreak
  rw [Bool.not_eq_false, isBreak_eq_true] at hbreak
  rcases hbreak with rfl | rfl
  · rw [hfeed] at h
    cases h
  · rw [hreturn] at h
    cases h

theorem not_isBreak_of_isDigit {c : Char} (h : c.isDigit = true) : isBreak c = false :=
  not_isBreak_of rfl rfl h

-- ---------------------------------------------------------------------------
-- Texts that are put together
-- ---------------------------------------------------------------------------

theorem unbroken_ofList {cs : List Char} :
    Unbroken (String.ofList cs) ↔ ∀ c ∈ cs, isBreak c = false := by
  rw [Unbroken, String.toList_ofList]

/-- A text may be checked letter by letter. -/
theorem unbroken_of_any {cs : List Char} (h : cs.any isBreak = false) :
    Unbroken (String.ofList cs) := by
  rw [unbroken_ofList]
  simpa using h

@[simp] theorem unbroken_append {a b : String} : Unbroken (a ++ b) ↔ Unbroken a ∧ Unbroken b := by
  simp only [Unbroken, String.toList_append, List.mem_append, or_imp, forall_and]

/-- Texts with commas between them. -/
@[simp] theorem unbroken_intercalate {texts : List String} :
    Unbroken (", ".intercalate texts) ↔ ∀ text ∈ texts, Unbroken text := by
  induction texts with
  | nil => simp [Unbroken]
  | cons text texts ih =>
    cases texts with
    | nil => simp
    | cons next rest =>
      rw [String.intercalate_cons_cons, unbroken_append, unbroken_append, ih,
        and_iff_left (by decide : Unbroken ", "), List.forall_mem_cons (l := next :: rest)]

-- ---------------------------------------------------------------------------
-- Literals
-- ---------------------------------------------------------------------------

/-- The literal of a text has escapes for line breaks. -/
@[simp] theorem unbroken_quote (text : String) : Unbroken (quote text) := by
  rw [quote, unbroken_ofList]
  intro c hc
  have hcontrol := not_isControl_of_mem_quoteChars hc
  exact not_isBreak_of (p := fun c => !isControl c) rfl rfl (by rw [hcontrol]; rfl)

/-- An identifier holds no line break. -/
theorem unbroken_of_isWord {name : String} (h : Identifier.IsWord name) : Unbroken name := by
  obtain ⟨c, cs, hname, hc, hcs⟩ := h
  have hpart : ∀ d : Char, d.isAlphanum = true ∨ d = '_' → isBreak d = false := fun d hd =>
    not_isBreak_of (p := Identifier.isPart) rfl rfl (Identifier.isPart_iff.mpr hd)
  intro d hd
  rw [hname, List.mem_cons] at hd
  rcases hd with rfl | hd
  · refine hpart d (hc.imp_left fun halpha => ?_)
    rw [Char.isAlphanum, halpha, Bool.true_or]
  · exact hpart d (hcs d hd)

theorem unbroken_nat (n : Nat) : Unbroken (toString n) :=
  fun _ hc => not_isBreak_of_isDigit (Identifier.isDigit_of_mem_toString hc)

theorem unbroken_int (n : Int) : Unbroken (toString n) := by
  cases n with
  | ofNat n => exact unbroken_nat n
  | negSucc n => exact unbroken_append.mpr ⟨by decide, unbroken_nat (n + 1)⟩

end Text

/-- The literal of an object id holds no line break. -/
@[simp] theorem ObjectId.unbroken_literal (id : ObjectId) : Text.Unbroken id.literal := by
  cases id with
  | index value => exact Text.unbroken_int _
  | name value => exact Text.unbroken_quote value

-- ---------------------------------------------------------------------------
-- Numbers
-- ---------------------------------------------------------------------------

namespace NumberFormat

variable {digits : List Char} {c : Char}

theorem not_isBreak_of_mem_placePoint (h : ∀ c ∈ digits, Text.isBreak c = false) {point : Int}
    {keepsPoint : Bool} (hc : c ∈ placePoint digits point keepsPoint) : Text.isBreak c = false := by
  have hzeros : ∀ {n : Nat}, c ∈ List.replicate n '0' → Text.isBreak c = false := by
    intro n hin
    rw [(List.mem_replicate.mp hin).2]
    rfl
  unfold placePoint at hc
  split at hc
  · simp only [List.mem_cons, List.mem_append] at hc
    rcases hc with rfl | rfl | hc | hc
    · rfl
    · rfl
    · exact hzeros hc
    · exact h c hc
  · dsimp only at hc
    split at hc
    · simp only [List.mem_append] at hc
      rcases hc with (hc | hc) | hc
      · exact h c (List.mem_of_mem_take hc)
      · exact hzeros hc
      · split at hc
        · simp only [List.mem_cons, List.not_mem_nil, or_false] at hc
          rcases hc with rfl | rfl <;> rfl
        · cases hc
    · simp only [List.mem_append, List.mem_cons] at hc
      rcases hc with hc | rfl | hc
      · exact h c (List.mem_of_mem_take hc)
      · rfl
      · exact h c (List.mem_of_mem_drop hc)

theorem not_isBreak_of_mem_withExponent (h : ∀ c ∈ digits, Text.isBreak c = false) {order : Int}
    {sign : String} (hsign : Text.Unbroken sign) (hc : c ∈ withExponent digits order sign) :
    Text.isBreak c = false := by
  unfold withExponent at hc
  simp only [List.mem_append, List.mem_cons] at hc
  rcases hc with hc | rfl | hc | hc
  · split at hc
    · simp only [List.mem_cons] at hc
      rcases hc with rfl | rfl | hc
      · exact h _ (by simp)
      · rfl
      · exact h c (by simp [hc])
    · exact h c hc
  · rfl
  · split at hc
    · cases hc
    · exact hsign c hc
  · exact Text.unbroken_int order c hc

/-- A number is written without a line break, if the words of the format hold none. -/
theorem unbroken_render {format : NumberFormat} (hsign : Text.Unbroken format.exponentSign)
    (hnan : Text.Unbroken format.nan) (hinfinity : Text.Unbroken format.infinity) (x : Float) :
    Text.Unbroken (format.render x) := by
  have hsigned : ∀ {negative : Bool} {text : String}, Text.Unbroken text →
      Text.Unbroken (if negative then "-" ++ text else text) := by
    intro negative text h
    cases negative with
    | false => exact h
    | true => exact Text.unbroken_append.mpr ⟨by decide, h⟩
  unfold render
  dsimp only
  split
  · exact hnan
  · exact hsigned hinfinity
  · refine hsigned ?_
    split
    · split <;> decide
    · rw [Text.unbroken_ofList]
      intro c hc
      have hdigits : ∀ d : Decimal, ∀ c ∈ Nat.toDigits 10 d.digits, Text.isBreak c = false :=
        fun d c hc => Text.not_isBreak_of_isDigit
          (Nat.isDigit_of_mem_toDigits (b := 10) (by decide) (by decide) hc)
      have hcases : ∀ {p : Prop} [Decidable p] {xs ys : List Char},
          c ∈ (if p then xs else ys) → c ∈ xs ∨ c ∈ ys := by
        intro p _ xs ys hin
        split at hin
        · exact .inl hin
        · exact .inr hin
      rcases hcases hc with hc | hc
      · exact not_isBreak_of_mem_placePoint (hdigits _) hc
      · exact not_isBreak_of_mem_withExponent (hdigits _) hsign hc

end NumberFormat

/-- The name of a type holds no line break. -/
theorem SlotType.unbroken_name (type : SlotType) : Text.Unbroken type.name := by
  cases type <;> decide

end SlotFlow
