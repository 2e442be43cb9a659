import SlotFlow.Graph.Forest
/-!
# Forests with further leaves

Leaves may be put into a forest anywhere, at the ends of its branches and between its trees. What is read
off the labels in order is the same with the leaves as without them, if nothing is made of a leaf, and a
change of labels or of shape that leaves the labels of the forest alone only concerns the leaves.

* `Forest.Padded` — a forest with further leaves.

## Results

* `Forest.Padded.mem_subtrees` — a tree of the larger forest has an old label, or is a leaf;
* `Forest.Padded.flatMap_toList`, `Forest.Padded.filter_roots` — what is read off the labels;
* `Forest.Padded.mapBelow`, `Forest.Padded.prune`, `Forest.Padded.mapState` — changes of the leaves.
-/

namespace SlotFlow.Forest

variable {α β σ : Type} {extra : α → Prop} {forest padded : Forest α}

/-- The second forest is the first one with further leaves, whose labels are `extra`. -/
inductive Padded (extra : α → Prop) : Forest α → Forest α → Prop where
  | nil : Padded extra nil nil
  | node {a : α} {below below' after after' : Forest α} (hbelow : Padded extra below below')
      (hafter : Padded extra after after') :
      Padded extra (node a below after) (node a below' after')
  | leaf {a : α} {after after' : Forest α} (ha : extra a) (hafter : Padded extra after after') :
      Padded extra after (node a nil after')

namespace Padded

theorem refl (forest : Forest α) : Padded extra forest forest := by
  induction forest with
  | nil => exact .nil
  | node a below after ihBelow ihAfter => exact .node ihBelow ihAfter

-- ---------------------------------------------------------------------------
-- What is read off the labels
-- ---------------------------------------------------------------------------

/-- A tree of the larger forest has a label of the smaller one, or is one of the leaves. -/
theorem mem_subtrees (h : Padded extra forest padded) {a : α} {below : Forest α}
    (ht : (a, below) ∈ padded.subtrees) : a ∈ forest.toList ∨ extra a ∧ below = .nil := by
  induction h with
  | nil => cases ht
  | node _ _ ihBelow ihAfter =>
    simp only [subtrees, List.mem_cons, List.mem_append, Prod.mk.injEq] at ht
    rw [toList_node, List.mem_cons, List.mem_append]
    rcases ht with ⟨rfl, -⟩ | ht | ht
    · exact .inl (.inl rfl)
    · exact (ihBelow ht).imp_left fun hm => .inr (.inl hm)
    · exact (ihAfter ht).imp_left fun hm => .inr (.inr hm)
  | leaf ha _ ihAfter =>
    simp only [subtrees, List.nil_append, List.mem_cons, Prod.mk.injEq] at ht
    rcases ht with ⟨rfl, rfl⟩ | ht
    · exact .inr ⟨ha, rfl⟩
    · exact ihAfter ht

/-- What is made of all labels in order, where nothing is made of the leaves. -/
theorem flatMap_toList (h : Padded extra forest padded) {f : α → List β}
    (hf : ∀ a, extra a → f a = []) : padded.toList.flatMap f = forest.toList.flatMap f := by
  induction h with
  | nil => rfl
  | node _ _ ihBelow ihAfter =>
    simp only [toList_node, List.flatMap_cons, List.flatMap_append, ihBelow, ihAfter]
  | leaf ha _ ihAfter =>
    rw [toList_node, toList_nil, List.nil_append, List.flatMap_cons, hf _ ha, List.nil_append,
      ihAfter]

/-- The labels with a property that no leaf has. -/
theorem filter_toList (h : Padded extra forest padded) {p : α → Bool}
    (hp : ∀ a, extra a → p a = false) : padded.toList.filter p = forest.toList.filter p := by
  induction h with
  | nil => rfl
  | node _ _ ihBelow ihAfter =>
    simp only [toList_node, List.filter_cons, List.filter_append, ihBelow, ihAfter]
  | leaf ha _ ihAfter =>
    rw [toList_node, toList_nil, List.nil_append, List.filter_cons_of_neg (by simp [hp _ ha]), ihAfter]

/-- The roots with a property that no leaf has. -/
theorem filter_roots (h : Padded extra forest padded) {p : α → Bool}
    (hp : ∀ a, extra a → p a = false) : padded.roots.filter p = forest.roots.filter p := by
  induction h with
  | nil => rfl
  | node _ _ _ ihAfter => simp only [roots_node, List.filter_cons, ihAfter]
  | leaf ha _ ihAfter =>
    rw [roots_node, List.filter_cons_of_neg (by simp [hp _ ha]), ihAfter]

-- ---------------------------------------------------------------------------
-- Changes of the leaves
-- ---------------------------------------------------------------------------

/-- Another leaf at the end. -/
theorem append_leaf (h : Padded extra forest padded) {a : α} (ha : extra a) :
    Padded extra forest (padded.append (tree a .nil)) := by
  induction h with
  | nil => exact .leaf ha .nil
  | node hbelow _ _ ihAfter => exact .node hbelow ihAfter
  | leaf hb _ ihAfter => exact .leaf hb ihAfter

/-- A change below labels that are not those of leaves, where it only puts further leaves in. -/
theorem mapBelow (h : Padded extra forest padded) {p : α → Bool} {f : Forest α → Forest α}
    (hp : ∀ a ∈ padded.toList, extra a → p a = false)
    (hf : ∀ {forest padded}, Padded extra forest padded → Padded extra forest (f padded)) :
    Padded extra forest (padded.mapBelow p f) := by
  induction h with
  | nil => exact .nil
  | node _ _ ihBelow ihAfter =>
    simp only [toList_node, List.mem_cons, List.mem_append, forall_eq_or_imp] at hp
    obtain ⟨-, hrest⟩ := hp
    have hbelow := ihBelow fun b hb => hrest b (.inl hb)
    refine .node ?_ (ihAfter fun b hb => hrest b (.inr hb))
    split
    · exact hf hbelow
    · exact hbelow
  | leaf ha _ ihAfter =>
    simp only [toList_node, toList_nil, List.nil_append, List.mem_cons, forall_eq_or_imp] at hp
    obtain ⟨hlabel, hrest⟩ := hp
    simp only [Forest.mapBelow, hlabel ha, Bool.false_eq_true, if_false]
    exact .leaf ha (ihAfter hrest)

/-- Only leaves are taken out where no label of the smaller forest has the property. -/
theorem prune (h : Padded extra forest padded) {p : α → Bool}
    (hp : ∀ a ∈ forest.toList, p a = false) : Padded extra forest (padded.prune p) := by
  induction h with
  | nil => exact .nil
  | node _ _ ihBelow ihAfter =>
    simp only [toList_node, List.mem_cons, List.mem_append, forall_eq_or_imp] at hp
    obtain ⟨hlabel, hrest⟩ := hp
    simp only [Forest.prune, hlabel, Bool.false_eq_true, if_false]
    exact .node (ihBelow fun b hb => hrest b (.inl hb)) (ihAfter fun b hb => hrest b (.inr hb))
  | leaf ha _ ihAfter =>
    unfold Forest.prune
    split
    · exact ihAfter hp
    · exact .leaf ha (ihAfter hp)

/-- A walk that leaves the labels of the smaller forest alone, whatever it comes with. -/
theorem mapState (h : Padded extra forest padded) {f : σ → α → α × σ} (s : σ)
    (hf : ∀ s, ∀ a ∈ forest.toList, (f s a).1 = a) (hextra : ∀ s a, extra a → extra (f s a).1) :
    Padded extra forest (padded.mapState f s).1 := by
  induction h generalizing s with
  | nil => exact .nil
  | node _ _ ihBelow ihAfter =>
    simp only [toList_node, List.mem_cons, List.mem_append] at hf
    simp only [Forest.mapState, hf s _ (.inl rfl)]
    exact .node (ihBelow _ fun s b hb => hf s b (.inr (.inl hb)))
      (ihAfter _ fun s b hb => hf s b (.inr (.inr hb)))
  | leaf ha _ ihAfter => exact .leaf (hextra s _ ha) (ihAfter _ hf)

end Padded

end SlotFlow.Forest
