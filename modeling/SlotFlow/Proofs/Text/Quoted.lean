import Mathlib.Data.List.Basic
import Mathlib.Logic.Function.Basic
import SlotFlow.Json.Node
import SlotFlow.Text.Quoted
/-!
# Reading quoted text

A literal says which text it stands for: read by the rules of the language of the programs, it gives the
text back, whatever stands after it. So no two texts have the same literal.

* `Text.readLiteral?` — the text that a literal stands for, and what follows the literal;
* `Text.bareQuotes` — where the quotes stand that no backslash escapes.

## Results

* `Text.readQuoted_escape` — a character that is written is read;
* `Text.bareQuotes_quoteChars` — only the first and the last character of a literal are bare quotes;
* `Text.readLiteral?_quote` — a literal is read back, whatever follows;
* `Text.quote_injective` — no two texts have the same literal;
* `Text.quote_readsBack` — all of this for every text.
-/

namespace SlotFlow.Text

open Json.Node (hexValue?)

-- ---------------------------------------------------------------------------
-- Reading
-- ---------------------------------------------------------------------------

/-- The character that a backslash and one further character stand for. -/
def shortEscape? : Char → Option Char
  | '\\' => some '\\'
  | '\'' => some '\''
  | 'n' => some '\n'
  | 'r' => some '\r'
  | 't' => some '\t'
  | _ => none

/-- The character that an escape with two hexadecimal digits stands for. -/
def hexEscape? (high low : Char) : Option Char := do
  let high ← hexValue? high
  let low ← hexValue? low
  return Char.ofNat (16 * high + low)

/-- Reads a literal after its opening quote, up to the closing one: the characters that it stands for,
and what follows. A literal does not go beyond the end of its line, and there are no other escapes. -/
def readQuoted : List Char → Option (List Char × List Char)
  | [] => none
  | '\'' :: rest => some ([], rest)
  | '\\' :: 'x' :: high :: low :: rest =>
    match hexEscape? high low with
    | some c => (readQuoted rest).map (Prod.map (c :: ·) id)
    | none => none
  | '\\' :: mark :: rest =>
    match shortEscape? mark with
    | some c => (readQuoted rest).map (Prod.map (c :: ·) id)
    | none => none
  | c :: rest => if c = '\n' ∨ c = '\r' then none else (readQuoted rest).map (Prod.map (c :: ·) id)

/-- The text that the literal at the start of a text stands for, and what follows the literal. -/
def readLiteral? (text : String) : Option (String × String) :=
  match text.toList with
  | '\'' :: rest => (readQuoted rest).map (Prod.map String.ofList String.ofList)
  | _ => none

/-- Where the quotes of a text stand that no backslash escapes, counted from a number on. -/
def bareQuotes : Nat → List Char → List Nat
  | _, [] => []
  | i, '\\' :: _ :: rest => bareQuotes (i + 2) rest
  | i, c :: rest => if c = '\'' then i :: bareQuotes (i + 1) rest else bareQuotes (i + 1) rest

-- ---------------------------------------------------------------------------
-- Characters
-- ---------------------------------------------------------------------------

/-- The two digits that a small number is written with stand for it. -/
theorem hexEscape?_hexDigit {n : Nat} (h : n < 128) :
    hexEscape? (hexDigit (n / 16)) (hexDigit (n % 16)) = some (Char.ofNat n) := by
  have all : ∀ k : Fin 128,
      hexEscape? (hexDigit (k.val / 16)) (hexDigit (k.val % 16)) = some (Char.ofNat k.val) := by
    decide
  exact all ⟨n, h⟩

theorem toNat_lt_of_isControl {c : Char} (h : isControl c = true) : c.toNat < 128 := by
  simp only [isControl, Bool.or_eq_true, decide_eq_true_eq] at h
  omega

/-- **A character that is written is read**, whatever follows. -/
theorem readQuoted_escape (c : Char) (rest : List Char) :
    readQuoted (escape c ++ rest) = (readQuoted rest).map (Prod.map (c :: ·) id) := by
  unfold escape
  split
  case h_6 =>
    split
    case isTrue hcontrol =>
      show (match hexEscape? (hexDigit (c.toNat / 16)) (hexDigit (c.toNat % 16)) with
        | some d => (readQuoted rest).map (Prod.map (d :: ·) id)
        | none => none) = _
      rw [hexEscape?_hexDigit (toNat_lt_of_isControl hcontrol), Char.ofNat_toNat]
    case isFalse =>
      rw [List.singleton_append, readQuoted.eq_def]
      split <;> simp_all
  all_goals rfl

/-- The quotes of what is written for a character are escaped. -/
theorem bareQuotes_escape (i : Nat) (c : Char) (rest : List Char) :
    bareQuotes i (escape c ++ rest) = bareQuotes (i + (escape c).length) rest := by
  have hdigit : ∀ n < 16, ∀ (i : Nat) (rest : List Char),
      bareQuotes i (hexDigit n :: rest) = bareQuotes (i + 1) rest := by
    intro n hn i rest
    have hplain : ∀ k : Fin 16, hexDigit k.val ≠ '\\' ∧ hexDigit k.val ≠ '\'' := by decide
    obtain ⟨hbackslash, hquote⟩ := hplain ⟨n, hn⟩
    rw [bareQuotes.eq_3 _ _ _ fun _ _ heq _ => hbackslash heq, if_neg hquote]
  unfold escape
  split
  case h_6 hbackslash hquote _ _ _ =>
    split
    case isTrue hcontrol =>
      have hsmall := toNat_lt_of_isControl hcontrol
      show bareQuotes (i + 2) (hexDigit (c.toNat / 16) :: hexDigit (c.toNat % 16) :: rest) = _
      rw [hdigit _ (by omega), hdigit _ (Nat.mod_lt _ (by decide))]
      rfl
    case isFalse =>
      rw [List.singleton_append, bareQuotes.eq_3 _ _ _ fun _ _ heq _ => hbackslash heq,
        if_neg hquote]
      rfl
  all_goals rfl

-- ---------------------------------------------------------------------------
-- Texts
-- ---------------------------------------------------------------------------

/-- Characters that are written one after the other are read up to the quote after them. -/
theorem readQuoted_flatMap (cs rest : List Char) :
    readQuoted (cs.flatMap escape ++ '\'' :: rest) = some (cs, rest) := by
  induction cs with
  | nil => rfl
  | cons c cs ih =>
    rw [List.flatMap_cons, List.append_assoc, readQuoted_escape, ih]
    rfl

theorem bareQuotes_flatMap (i : Nat) (cs rest : List Char) :
    bareQuotes i (cs.flatMap escape ++ rest) =
      bareQuotes (i + (cs.flatMap escape).length) rest := by
  induction cs generalizing i with
  | nil => rfl
  | cons c cs ih =>
    rw [List.flatMap_cons, List.append_assoc, bareQuotes_escape, ih, List.length_append,
      Nat.add_assoc]

/-- **Only the first and the last character of a literal are bare quotes.** -/
theorem bareQuotes_quoteChars (cs : List Char) :
    bareQuotes 0 (quoteChars cs) = [0, (quoteChars cs).length - 1] := by
  have hend : (quoteChars cs).length - 1 = 1 + (cs.flatMap escape).length := by
    rw [quoteChars, List.length_cons, List.length_append, List.length_singleton]
    omega
  show 0 :: bareQuotes 1 (cs.flatMap escape ++ ['\'']) = _
  rw [bareQuotes_flatMap, hend]
  rfl

/-- **A literal is read back**, whatever follows. -/
theorem readLiteral?_quote (text rest : String) :
    readLiteral? (quote text ++ rest) = some (text, rest) := by
  have hchars : (quote text ++ rest).toList =
      '\'' :: (text.toList.flatMap escape ++ '\'' :: rest.toList) := by
    rw [String.toList_append, quote, String.toList_ofList, quoteChars, List.cons_append,
      List.append_assoc, List.singleton_append]
  rw [readLiteral?, hchars]
  show (readQuoted (text.toList.flatMap escape ++ '\'' :: rest.toList)).map
    (Prod.map String.ofList String.ofList) = _
  rw [readQuoted_flatMap]
  simp only [Option.map_some, Prod.map_apply, String.ofList_toList]

/-- An escape has two digits; a digit that comes after them stands for itself. -/
example : readLiteral? (quote "\x1f2" ++ "f'") = some ("\x1f2", "f'") := by decide +kernel

/-- **No two texts have the same literal.** -/
theorem quote_injective {a b : String} (h : quote a = quote b) : a = b := by
  have hread := readLiteral?_quote a ""
  rw [h, readLiteral?_quote] at hread
  exact (Prod.mk.inj (Option.some.inj hread)).1.symm

/-- **Quoting is undone by reading.** The literal of a text has bare quotes as its first and last
character and nowhere else, and no control characters. It is read back as the text, and what follows the
literal is left over. So no two texts have the same literal. -/
theorem quote_readsBack :
    (∀ text : String,
      bareQuotes 0 (quote text).toList = [0, (quote text).toList.length - 1] ∧
      1 < (quote text).toList.length ∧
      (∀ c ∈ (quote text).toList, 0x20 ≤ c.toNat ∧ c.toNat ≠ 0x7f) ∧
      readLiteral? (quote text) = some (text, "") ∧
      ∀ rest : String, readLiteral? (quote text ++ rest) = some (text, rest)) ∧
    Function.Injective quote := by
  refine ⟨fun text => ?_, fun _ _ => quote_injective⟩
  have hchars : (quote text).toList = quoteChars text.toList := String.toList_ofList
  have halone := readLiteral?_quote text ""
  rw [String.append_empty] at halone
  refine ⟨?_, ?_, fun c hc => ?_, halone, readLiteral?_quote text⟩
  · rw [hchars]
    exact bareQuotes_quoteChars text.toList
  · rw [hchars, quoteChars, List.length_cons, List.length_append, List.length_singleton]
    omega
  · rw [hchars] at hc
    have hplain := not_isControl_of_mem_quoteChars hc
    simp only [isControl, Bool.or_eq_false_iff, decide_eq_false_iff_not] at hplain
    omega

end SlotFlow.Text
