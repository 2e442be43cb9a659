/-!
# Quoted text

The single-quoted string literal of the programs that are generated: `Text.quote`. A backslash, a
quote and the control characters are written as escapes, every other character stands for itself.
-/

namespace SlotFlow.Text

/-- The lower-case hexadecimal digit of a number below sixteen. -/
def hexDigit (n : Nat) : Char :=
  Nat.digitChar n

/-- The control characters of ASCII. -/
def isControl (c : Char) : Bool :=
  c.toNat < 0x20 || c.toNat = 0x7f

/-- How one character is written between quotes. -/
def escape (c : Char) : List Char :=
  match c with
  | '\\' => ['\\', '\\']
  | '\'' => ['\\', '\'']
  | '\n' => ['\\', 'n']
  | '\r' => ['\\', 'r']
  | '\t' => ['\\', 't']
  | _ =>
    if isControl c then ['\\', 'x', hexDigit (c.toNat / 16), hexDigit (c.toNat % 16)] else [c]

/-- A hexadecimal digit is no control character. -/
theorem isControl_hexDigit {n : Nat} (h : n < 16) : isControl (hexDigit n) = false := by
  have all : ∀ k : Fin 16, isControl (hexDigit k.val) = false := by decide
  exact all ⟨n, h⟩

/-- No control character is written as it is. -/
theorem not_isControl_of_mem_escape {c x : Char} (h : x ∈ escape c) : isControl x = false := by
  unfold escape at h
  split at h
  case h_6 =>
    split at h
    case isTrue hc =>
      have small : c.toNat / 16 < 16 := by
        simp only [isControl, Bool.or_eq_true, decide_eq_true_eq] at hc
        omega
      simp only [List.mem_cons, List.not_mem_nil, or_false] at h
      rcases h with rfl | rfl | rfl | rfl
      · rfl
      · rfl
      · exact isControl_hexDigit small
      · exact isControl_hexDigit (Nat.mod_lt _ (by decide))
    case isFalse hc => simp_all
  all_goals
    simp only [List.mem_cons, List.not_mem_nil, or_false] at h
    rcases h with rfl | rfl <;> rfl

/-- The characters of the literal that stands for a text. -/
def quoteChars (cs : List Char) : List Char :=
  '\'' :: (cs.flatMap escape ++ ['\''])

/-- A literal has no control characters. -/
theorem not_isControl_of_mem_quoteChars {cs : List Char} {x : Char} (h : x ∈ quoteChars cs) :
    isControl x = false := by
  simp only [quoteChars, List.mem_cons, List.mem_append, List.mem_flatMap, List.not_mem_nil,
    or_false] at h
  rcases h with rfl | ⟨c, -, hx⟩ | rfl
  · rfl
  · exact not_isControl_of_mem_escape hx
  · rfl

/-- The literal that stands for a text. -/
def quote (text : String) : String :=
  String.ofList (quoteChars text.toList)

end SlotFlow.Text
