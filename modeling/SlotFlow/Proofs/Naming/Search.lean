import Mathlib.Data.Finset.Card
import Mathlib.Order.Bounds.Basic
import SlotFlow.Proofs.Naming.Identifier
/-!
# The search for a free name

A search for a free name tries the numbers after a stem one by one, and nothing tells it in advance where
to stop. It stops all the same, after at most one try more than there are names that are taken: different
numbers make different names, so that the taken ones run out.

* `searchFree?` — the search, with a limit to its tries.

## Results

* `searchFree?_eq_ite` — a search succeeds exactly if it may try the least number that is free;
* `exists_isLeast_firstFree` — the first free name, its number and the search for it.
-/

namespace SlotFlow

/-- Looks through the first numbered names after a stem, as many as there are tries, for one that is not
taken. -/
def searchFree? (stem : String) (taken : List String) (tries : Nat) : Option String :=
  ((List.range' 1 tries).map fun k => stem ++ toString k).find? (· ∉ taken)

variable {stem : String} {taken : List String} {k : Nat}

/-- Looking for a name is looking for its number. -/
theorem searchFree?_eq_map (stem : String) (taken : List String) (tries : Nat) :
    searchFree? stem taken tries =
      ((List.range' 1 tries).find? fun i => stem ++ toString i ∉ taken).map fun i => stem ++ toString i :=
  List.find?_map

/-- A search succeeds exactly if it may try the least number that is free. -/
theorem searchFree?_eq_ite (h : IsLeast {i : Nat | 1 ≤ i ∧ stem ++ toString i ∉ taken} k) (tries : Nat) :
    searchFree? stem taken tries = if k ≤ tries then some (stem ++ toString k) else none := by
  obtain ⟨⟨hk, hfree⟩, hleast⟩ := h
  have htaken : ∀ i, 1 ≤ i → i < k → stem ++ toString i ∈ taken := by
    intro i hi hlt
    by_contra hnot
    exact Nat.not_le.mpr hlt (hleast ⟨hi, hnot⟩)
  rw [searchFree?_eq_map]
  split
  · have hfound : (List.range' 1 tries).find? (fun i => stem ++ toString i ∉ taken) = some k := by
      rw [List.find?_range'_eq_some, List.mem_range'_1]
      refine ⟨decide_eq_true hfree, by omega, ?_⟩
      intro i hi hlt
      simpa using htaken i hi hlt
    rw [hfound, Option.map_some]
  · have hnone : (List.range' 1 tries).find? (fun i => stem ++ toString i ∉ taken) = none := by
      rw [List.find?_range'_eq_none]
      intro i hi hlt
      simpa using htaken i hi (by omega)
    rw [hnone, Option.map_none]

/-- The first free name has the least number that is free. -/
theorem isLeast_firstFree (stem : String) (taken : List String) :
    ∃ k, IsLeast {i : Nat | 1 ≤ i ∧ stem ++ toString i ∉ taken} k ∧ k ≤ taken.length + 1 ∧
      firstFree stem taken = stem ++ toString k := by
  obtain ⟨k, hk, hmost, heq, hfree, hbelow⟩ := firstFree_spec stem taken
  refine ⟨k, ⟨⟨hk, hfree⟩, ?_⟩, hmost, heq⟩
  rintro i ⟨hi, hifree⟩
  by_contra hlt
  exact hifree (hbelow i hi (by omega))

/-- A number is at least one more character. -/
theorem numbered_ne_stem (stem : String) (k : Nat) : stem ++ toString k ≠ stem := by
  intro hsame
  have hempty : (toString k).toList = [] := by
    have hlist := congrArg String.toList hsame
    rwa [String.toList_append, List.append_right_eq_self] at hlist
  rw [Nat.toString_eq_repr, Nat.toList_repr] at hempty
  exact Nat.toDigits_ne_nil hempty

/-- **The search for a free name comes to an end.** Take a stem and any finite set of names. There is a least
number from one on that makes, after the stem, a name outside the set, and it is at most by one greater than
the number of names. If these names are taken, listed in any order and as often as one likes, the first free
name is the one with this number. It is never the stem alone. A search that tries the numbers one by one
finds it as soon as it has come to this number, so that it does not fail if it may make one try more than
there are names. -/
theorem exists_isLeast_firstFree (stem : String) (names : Finset String) :
    ∃ k, IsLeast {i : Nat | 1 ≤ i ∧ stem ++ toString i ∉ names} k ∧ k ≤ names.card + 1 ∧
      ∀ taken : List String, taken.toFinset = names →
        firstFree stem taken = stem ++ toString k ∧ firstFree stem taken ≠ stem ∧
        ∀ tries, searchFree? stem taken tries =
          if k ≤ tries then some (firstFree stem taken) else none := by
  obtain ⟨k, hleast, hmost, -⟩ := isLeast_firstFree stem names.toList
  simp only [Finset.mem_toList, Finset.length_toList] at hleast hmost
  refine ⟨k, hleast, hmost, ?_⟩
  -- a list of the names takes the same ones as the set, so that its least number is the same
  rintro taken rfl
  obtain ⟨other, hother, -, heq⟩ := isLeast_firstFree stem taken
  simp only [List.mem_toFinset] at hleast
  obtain rfl : other = k := hother.unique hleast
  refine ⟨heq, ?_, fun tries => ?_⟩
  · rw [heq]
    exact numbered_ne_stem stem other
  · rw [heq]
    exact searchFree?_eq_ite hleast tries

/-- Between two names that are taken there is a free one, which the second try finds. -/
theorem exists_isLeast_firstFree_of_gap :
    ["model_3", "model_1"].toFinset = {"model_1", "model_3"} ∧
      firstFree "model_" ["model_3", "model_1"] = "model_2" ∧
      IsLeast {i : Nat | 1 ≤ i ∧ "model_" ++ toString i ∉ ({"model_1", "model_3"} : Finset String)} 2 ∧
      searchFree? "model_" ["model_3", "model_1"] 1 = none ∧
      ∀ tries, 2 ≤ tries → searchFree? "model_" ["model_3", "model_1"] tries = some "model_2" := by
  obtain ⟨k, hleast, -, hall⟩ := exists_isLeast_firstFree "model_" {"model_1", "model_3"}
  have hnames : ["model_3", "model_1"].toFinset = {"model_1", "model_3"} := by decide
  obtain ⟨heq, -, hsearch⟩ := hall _ hnames
  have hname : firstFree "model_" ["model_3", "model_1"] = "model_2" := by decide +kernel
  obtain rfl : k = 2 := Identifier.numbered_inj (heq.symm.trans hname)
  refine ⟨hnames, hname, hleast, hsearch 1, fun tries htries => ?_⟩
  rw [hsearch tries, if_pos htries, hname]

end SlotFlow
