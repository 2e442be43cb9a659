import Mathlib.Data.List.Nodup
import Mathlib.Data.List.Perm.Subperm
import SlotFlow.Naming.Assignment
/-!
# Names that are identifiers

What a name has to look like to stand for an attribute of a generated class, and where such names
come from: from the name that a user chose, or from a stem and a number.

* `Identifier.IsWord` — the shape of identifiers;
* `Identifier.IsLegal` — identifiers that say something and are no keywords;
* `Identifier.IsUsable` — identifiers that are free for attributes.

## Results

* `Identifier.isLegal_of_ofName?` — what is made of a user's name is a legal identifier;
* `Identifier.ofName?_eq_self_iff` — nothing else is made of a name exactly if it is one already;
* `Identifier.isWord_numbered` — a stem with a number after it is an identifier as well;
* `firstFree_spec` — the first free name is the one with the least number that is not taken.
-/

namespace SlotFlow

namespace Identifier

-- ---------------------------------------------------------------------------
-- Shape
-- ---------------------------------------------------------------------------

/-- The shape of identifiers: a letter or an underscore, and after it letters, digits and
underscores, all of them ASCII. -/
def IsWord (name : String) : Prop :=
  ∃ c cs, name.toList = c :: cs ∧ (c.isAlpha ∨ c = '_') ∧ ∀ d ∈ cs, d.isAlphanum ∨ d = '_'

instance (name : String) : Decidable (IsWord name) :=
  match h : name.toList with
  | [] => .isFalse fun ⟨_, _, hcons, _⟩ => by simp [h] at hcons
  | c :: cs =>
    decidable_of_iff ((c.isAlpha || c = '_') && cs.all fun d => d.isAlphanum || d = '_') <| by
      simp [IsWord, h]

/-- What can be made of a user's name: an identifier that holds more than underscores and is no
keyword. -/
structure IsLegal (name : String) : Prop where
  word : IsWord name
  speaks : ∃ c ∈ name.toList, c ≠ '_'
  keyword : name ∉ keywords

/-- An identifier that an attribute of a generated class may have. -/
structure IsUsable (name : String) : Prop where
  word : IsWord name
  keyword : name ∉ keywords
  reserved : name ∉ reservedMembers

theorem isPart_iff {c : Char} : isPart c = true ↔ c.isAlphanum ∨ c = '_' := by
  simp [isPart]

theorem isPart_part (c : Char) : isPart (part c) = true := by
  unfold part
  split
  · assumption
  · decide

theorem all_startLegally (cs : List Char) :
    (startLegally cs).all (· = '_') = cs.all (· = '_') := by
  unfold startLegally
  split
  · split <;> rfl
  · rfl

/-- What starts legally is an identifier. -/
theorem isWord_startLegally {cs : List Char} (hpart : ∀ c ∈ cs, isPart c = true) (hne : cs ≠ []) :
    IsWord (String.ofList (startLegally cs)) := by
  cases cs with
  | nil => exact absurd rfl hne
  | cons c cs =>
    rw [IsWord, String.toList_ofList, startLegally]
    split
    · exact ⟨'_', c :: cs, rfl, .inr rfl, fun d hd => isPart_iff.mp (hpart d hd)⟩
    · rename_i hdigit
      refine ⟨c, cs, rfl, ?_, fun d hd => isPart_iff.mp (hpart d (List.mem_cons_of_mem _ hd))⟩
      rcases isPart_iff.mp (hpart c List.mem_cons_self) with hc | hc
      · rw [Char.isAlphanum, Bool.or_eq_true] at hc
        exact .inl (hc.resolve_right hdigit)
      · exact .inr hc

/-- **What is made of a user's name is a legal identifier.** -/
theorem isLegal_of_ofName? {name identifier : String} (h : ofName? name = some identifier) :
    IsLegal identifier := by
  dsimp only [ofName?] at h
  generalize hparts : (Text.trim name.toList).map part = parts at h
  have hpart : ∀ c ∈ parts, isPart c = true := by
    intro c hc
    rw [← hparts, List.mem_map] at hc
    obtain ⟨d, -, rfl⟩ := hc
    exact isPart_part d
  split at h
  · cases h
  · rename_i hsome
    split at h
    · cases h
    · rename_i hkeyword
      cases h
      have hne : parts ≠ [] := by
        rintro rfl
        exact hsome rfl
      refine ⟨isWord_startLegally hpart hne, ?_, hkeyword⟩
      rw [String.toList_ofList]
      rw [← all_startLegally, List.all_eq_true] at hsome
      push Not at hsome
      simpa using hsome

theorem isWord_of_ofName? {name identifier : String} (h : ofName? name = some identifier) :
    IsWord identifier ∧ identifier ∉ keywords :=
  ⟨(isLegal_of_ofName? h).word, (isLegal_of_ofName? h).keyword⟩

/-- Letters lie in two ranges. -/
theorem toNat_of_isAlpha {c : Char} (h : c.isAlpha = true) :
    (65 ≤ c.toNat ∧ c.toNat ≤ 90) ∨ (97 ≤ c.toNat ∧ c.toNat ≤ 122) := by
  have hcase : (c.isUpper || c.isLower) = true := h
  rcases Bool.or_eq_true_iff.mp hcase with hupper | hlower
  · obtain ⟨hfrom, hto⟩ := of_decide_eq_true hupper
    exact .inl ⟨UInt32.le_iff_toNat_le.mp hfrom, UInt32.le_iff_toNat_le.mp hto⟩
  · obtain ⟨hfrom, hto⟩ := Bool.and_eq_true_iff.mp hlower
    exact .inr ⟨UInt32.le_iff_toNat_le.mp (of_decide_eq_true hfrom),
      UInt32.le_iff_toNat_le.mp (of_decide_eq_true hto)⟩

theorem toNat_of_isDigit {c : Char} (h : c.isDigit = true) : 48 ≤ c.toNat ∧ c.toNat ≤ 57 := by
  rw [Char.isDigit, Bool.and_eq_true, decide_eq_true_eq, decide_eq_true_eq] at h
  exact ⟨UInt32.le_iff_toNat_le.mp h.1, UInt32.le_iff_toNat_le.mp h.2⟩

theorem not_isBlank_of_isPart {c : Char} (h : isPart c = true) : Text.isBlank c = false := by
  have hrange : 48 ≤ c.toNat ∧ c.toNat ≤ 122 := by
    rcases isPart_iff.mp h with h | rfl
    · rw [Char.isAlphanum, Bool.or_eq_true] at h
      rcases h with h | h
      · have hletter := toNat_of_isAlpha h
        omega
      · have hdigit := toNat_of_isDigit h
        omega
    · decide
  simp only [Text.isBlank, Text.blankRanges, List.any_cons, List.any_nil, Bool.or_false,
    Bool.or_eq_false_iff, Bool.and_eq_false_iff, decide_eq_false_iff_not]
  omega

/-- A text without blanks stays as it is. -/
theorem trim_of_isPart {cs : List Char} (h : ∀ c ∈ cs, isPart c = true) : Text.trim cs = cs := by
  have hstart : ∀ ds : List Char, (∀ c ∈ ds, isPart c = true) → Text.trimStart ds = ds := by
    intro ds hds
    cases ds with
    | nil => rfl
    | cons c ds => exact Text.trimStart_cons_of_not (not_isBlank_of_isPart (hds c List.mem_cons_self))
  rw [Text.trim, Text.trimEnd, hstart cs h, hstart _ fun c hc => h c (List.mem_reverse.mp hc),
    List.reverse_reverse]

theorem not_isDigit_of_isAlpha {c : Char} (h : c.isAlpha = true ∨ c = '_') : c.isDigit = false := by
  rcases h with h | rfl
  · refine Bool.eq_false_iff.mpr fun hdigit => ?_
    have hletter := toNat_of_isAlpha h
    have hrange := toNat_of_isDigit hdigit
    omega
  · decide

/-- A legal identifier is made of itself. -/
theorem IsLegal.ofName?_eq {name : String} (h : IsLegal name) : ofName? name = some name := by
  obtain ⟨⟨c, cs, hlist, hc, hcs⟩, hspeaks, hkeyword⟩ := h
  have hpart : ∀ d ∈ name.toList, isPart d = true := by
    rw [hlist, List.forall_mem_cons]
    refine ⟨isPart_iff.mpr (hc.imp_left fun ha => ?_), fun d hd => isPart_iff.mpr (hcs d hd)⟩
    rw [Char.isAlphanum, ha, Bool.true_or]
  have hsame : (Text.trim name.toList).map part = name.toList := by
    rw [trim_of_isPart hpart]
    exact (List.map_congr_left fun d hd => if_pos (hpart d hd)).trans (List.map_id _)
  have hstart : startLegally name.toList = name.toList := by
    rw [hlist, startLegally, not_isDigit_of_isAlpha hc]
    rfl
  have hsome : name.toList.all (· = '_') = false := by simpa using hspeaks
  rw [ofName?, hsame, hstart, String.ofList_toList]
  simp only [hsome, Bool.false_eq_true, if_false, if_neg hkeyword]

/-- **Nothing else is made of a name exactly if it is a legal identifier already.** -/
theorem ofName?_eq_self_iff {name : String} : ofName? name = some name ↔ IsLegal name :=
  ⟨isLegal_of_ofName?, IsLegal.ofName?_eq⟩

/-- What is made of a user's name is made of itself. -/
theorem ofName?_of_ofName? {name identifier : String} (h : ofName? name = some identifier) :
    ofName? identifier = some identifier :=
  (isLegal_of_ofName? h).ofName?_eq

-- ---------------------------------------------------------------------------
-- Numbered names
-- ---------------------------------------------------------------------------

/-- The digits of a number are parts of identifiers. -/
theorem isDigit_of_mem_toString {k : Nat} {c : Char} (h : c ∈ (toString k).toList) :
    c.isDigit = true := by
  rw [Nat.toString_eq_repr, Nat.toList_repr] at h
  exact Nat.isDigit_of_mem_toDigits (b := 10) (by decide) (by decide) h

/-- Numbered names are told apart by their numbers. -/
theorem numbered_inj {stem : String} {m n : Nat} (h : stem ++ toString m = stem ++ toString n) :
    m = n := by
  have hdigits : Nat.toDigits 10 m = Nat.toDigits 10 n := by
    have hlist := congrArg String.toList h
    rw [String.toList_append, String.toList_append, Nat.toString_eq_repr, Nat.toString_eq_repr,
      Nat.toList_repr, Nat.toList_repr] at hlist
    exact List.append_cancel_left hlist
  have hread := congrArg (Nat.ofDigitChars 10 · 0) hdigits
  simpa using hread

theorem isWord_numbered {stem : String} (h : IsWord stem) (k : Nat) :
    IsWord (stem ++ toString k) := by
  obtain ⟨c, cs, hstem, hc, hcs⟩ := h
  refine ⟨c, cs ++ (toString k).toList, by rw [String.toList_append, hstem]; rfl, hc, ?_⟩
  intro d hd
  rcases List.mem_append.mp hd with hd | hd
  · exact hcs d hd
  · rw [Char.isAlphanum, isDigit_of_mem_toString hd, Bool.or_true]
    exact .inl rfl

/-- No keyword contains a digit. -/
theorem numbered_not_keyword (stem : String) (k : Nat) : stem ++ toString k ∉ keywords := by
  intro hmem
  have hnone : keywords.all (fun keyword => keyword.toList.all fun c => !c.isDigit) = true := by
    decide
  have hdigits : (toString k).toList ≠ [] := by
    rw [Nat.toString_eq_repr, Nat.toList_repr]
    exact Nat.toDigits_ne_nil
  obtain ⟨c, hc⟩ := List.exists_mem_of_ne_nil _ hdigits
  have hdigit := isDigit_of_mem_toString hc
  have hin : c ∈ (stem ++ toString k).toList := by
    rw [String.toList_append]
    exact List.mem_append_right _ hc
  have hno := List.all_eq_true.mp (List.all_eq_true.mp hnone _ hmem) c hin
  rw [hdigit] at hno
  cases hno

end Identifier

-- ---------------------------------------------------------------------------
-- The first free name
-- ---------------------------------------------------------------------------

/-- The search stops at a name that is not taken, or when it has tried often enough. -/
theorem firstFreeFrom_spec (stem : String) (taken : List String) (tries k : Nat) :
    ∃ j, k ≤ j ∧ j ≤ k + tries ∧ firstFreeFrom stem taken tries k = stem ++ toString j ∧
      (∀ i, k ≤ i → i < j → stem ++ toString i ∈ taken) ∧
      (j < k + tries → stem ++ toString j ∉ taken) := by
  induction tries generalizing k with
  | zero => exact ⟨k, by omega, by omega, rfl, by omega, by omega⟩
  | succ tries ih =>
    rw [firstFreeFrom]
    split
    · rename_i hk
      obtain ⟨j, hle, hmost, heq, hbelow, hfree⟩ := ih (k + 1)
      refine ⟨j, by omega, by omega, heq, fun i hi hij => ?_, fun hj => hfree (by omega)⟩
      rcases Nat.eq_or_lt_of_le hi with rfl | hlt
      · exact hk
      · exact hbelow i hlt hij
    · rename_i hk
      exact ⟨k, by omega, by omega, rfl, by omega, fun _ => hk⟩

/-- Not all of the first names can be taken. -/
theorem exists_free (stem : String) (taken : List String) :
    ∃ i, 1 ≤ i ∧ i ≤ taken.length + 1 ∧ stem ++ toString i ∉ taken := by
  by_contra hall
  push Not at hall
  let names := (List.range' 1 (taken.length + 1)).map fun i => stem ++ toString i
  have hnodup : names.Nodup := (List.nodup_range' ..).map fun _ _ => Identifier.numbered_inj
  have hsub : names ⊆ taken := by
    intro name hname
    obtain ⟨i, hi, rfl⟩ := List.mem_map.mp hname
    rw [List.mem_range'_1] at hi
    exact hall i (by omega) (by omega)
  have hle := (List.subperm_of_subset hnodup hsub).length_le
  rw [List.length_map, List.length_range'] at hle
  omega

/-- The first free name has the least number whose name is not taken. -/
theorem firstFree_spec (stem : String) (taken : List String) :
    ∃ k, 1 ≤ k ∧ k ≤ taken.length + 1 ∧ firstFree stem taken = stem ++ toString k ∧
      stem ++ toString k ∉ taken ∧ ∀ i, 1 ≤ i → i < k → stem ++ toString i ∈ taken := by
  obtain ⟨k, hk, hmost, heq, hbelow, hfree⟩ := firstFreeFrom_spec stem taken taken.length 1
  refine ⟨k, hk, by omega, heq, ?_, hbelow⟩
  obtain ⟨i, hi, hile, hifree⟩ := exists_free stem taken
  by_cases hlt : k < 1 + taken.length
  · exact hfree hlt
  · -- all names before the last one are taken, so the one that is free is the last
    have hki : k ≤ i := by
      by_contra hik
      exact hifree (hbelow i hi (by omega))
    have hsame : i = k := by omega
    exact hsame ▸ hifree

theorem firstFree_not_mem (stem : String) (taken : List String) : firstFree stem taken ∉ taken := by
  obtain ⟨k, -, -, heq, hfree, -⟩ := firstFree_spec stem taken
  rwa [heq]

/-- What the numbered identifiers of blocks start with. -/
theorem BlockKind.isWord_codeStem (kind : BlockKind) : Identifier.IsWord kind.codeStem := by
  unfold codeStem
  split <;> decide

/-- What the numbered identifiers of slots on the border start with. -/
theorem Slot.isWord_codeStem? {slot : Slot} {stem : String} (h : slot.codeStem? = some stem) :
    Identifier.IsWord stem := by
  unfold codeStem? at h
  split at h
  · split at h <;> cases h <;> decide
  · cases h

/-- A first free name is usable where all names that are reserved are taken. -/
theorem isUsable_firstFree {stem : String} {taken : List String} (h : Identifier.IsWord stem)
    (htaken : Identifier.reservedMembers ⊆ taken) :
    Identifier.IsUsable (firstFree stem taken) := by
  obtain ⟨k, -, -, heq, hfree, -⟩ := firstFree_spec stem taken
  rw [heq]
  exact ⟨Identifier.isWord_numbered h k, Identifier.numbered_not_keyword stem k,
    fun hmem => hfree (htaken hmem)⟩

end SlotFlow
