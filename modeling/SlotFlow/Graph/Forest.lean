/-!
# Ordered forests

A forest is a list of trees, each with a label and a forest of children. It is given by its first
tree, and the recursion of every function on it is structural.

* `Forest.toList` — the labels, each before those below it;
* `Forest.map`, `Forest.mapState` — the same shape with other labels;
* `Forest.append`, `Forest.insertAt`, `Forest.mapBelow`, `Forest.prune` — the changes of shape.

Beside each operation stands what it does to the two views `Forest.toList` and `Forest.roots`.
-/

namespace SlotFlow

/-- A list of trees: empty, or a label with the trees below it and the trees after it. -/
inductive Forest (α : Type) where
  | nil
  | node (label : α) (below after : Forest α)
  deriving Repr

namespace Forest

variable {α β σ : Type}

-- ---------------------------------------------------------------------------
-- Views
-- ---------------------------------------------------------------------------

/-- All labels in pre-order: a label stands before those below it, and those before the ones after
it. -/
def toList : Forest α → List α
  | nil => []
  | node a below after => a :: (below.toList ++ after.toList)

@[simp] theorem toList_nil : (nil : Forest α).toList = [] := rfl

@[simp] theorem toList_node (a : α) (below after : Forest α) :
    (node a below after).toList = a :: (below.toList ++ after.toList) := rfl

/-- The labels of the trees themselves. -/
def roots : Forest α → List α
  | nil => []
  | node a _ after => a :: after.roots

@[simp] theorem roots_nil : (nil : Forest α).roots = [] := rfl

@[simp] theorem roots_node (a : α) (below after : Forest α) :
    (node a below after).roots = a :: after.roots := rfl

/-- The roots are among the labels, in the same order. -/
theorem roots_sublist (forest : Forest α) : forest.roots.Sublist forest.toList := by
  induction forest with
  | nil => exact .slnil
  | node a below after _ ihAfter =>
    exact .cons_cons a (ihAfter.trans (List.sublist_append_right ..))

/-- All labels in pre-order, each with the forest below it. -/
def subtrees : Forest α → List (α × Forest α)
  | nil => []
  | node a below after => (a, below) :: (below.subtrees ++ after.subtrees)

/-- The subtrees stand in the order of their labels. -/
@[simp] theorem map_fst_subtrees (forest : Forest α) :
    forest.subtrees.map Prod.fst = forest.toList := by
  induction forest with
  | nil => rfl
  | node a below after ihBelow ihAfter => simp [subtrees, ihBelow, ihAfter]

/-- A subtree's labels are among those of the forest, in the same order. -/
theorem toList_sublist_of_mem_subtrees {forest below : Forest α} {a : α}
    (h : (a, below) ∈ forest.subtrees) : (a :: below.toList).Sublist forest.toList := by
  induction forest with
  | nil => simp [subtrees] at h
  | node b under after ihUnder ihAfter =>
    simp only [subtrees, List.mem_cons, List.mem_append, Prod.mk.injEq] at h
    rcases h with ⟨rfl, rfl⟩ | h | h
    · exact .cons_cons a (List.sublist_append_left ..)
    · exact .cons b ((ihUnder h).trans (List.sublist_append_left ..))
    · exact .cons b ((ihAfter h).trans (List.sublist_append_right ..))

/-- The first label with a property, in pre-order, with the forest below it. -/
def find? (p : α → Bool) (forest : Forest α) : Option (α × Forest α) :=
  forest.subtrees.find? fun tree => p tree.1

/-- The label that is found is the first one in pre-order. -/
@[simp] theorem map_fst_find? (p : α → Bool) (forest : Forest α) :
    (forest.find? p).map Prod.fst = forest.toList.find? p := by
  rw [← map_fst_subtrees, List.find?_map]
  rfl

-- ---------------------------------------------------------------------------
-- Change of labels
-- ---------------------------------------------------------------------------

/-- Changes each label. -/
def map (f : α → β) : Forest α → Forest β
  | nil => nil
  | node a below after => node (f a) (below.map f) (after.map f)

@[simp] theorem toList_map (f : α → β) (forest : Forest α) :
    (forest.map f).toList = forest.toList.map f := by
  induction forest with
  | nil => rfl
  | node a below after ihBelow ihAfter => simp [map, ihBelow, ihAfter]

@[simp] theorem roots_map (f : α → β) (forest : Forest α) :
    (forest.map f).roots = forest.roots.map f := by
  induction forest with
  | nil => rfl
  | node a below after _ ihAfter => simp [map, ihAfter]

/-- A change that leaves every label alone leaves the forest alone. -/
theorem map_eq_self {f : α → α} {forest : Forest α} (h : ∀ a ∈ forest.toList, f a = a) :
    forest.map f = forest := by
  induction forest with
  | nil => rfl
  | node a below after ihBelow ihAfter => simp_all [map]

/-- Changes each label in pre-order, handing a state from one to the next. -/
def mapState (f : σ → α → β × σ) (s : σ) : Forest α → Forest β × σ
  | nil => (nil, s)
  | node a below after =>
    let label := f s a
    let below := mapState f label.2 below
    let after := mapState f below.2 after
    (node label.1 below.1 after.1, after.2)

/-- The state at the end is that of a walk over the labels in pre-order. -/
theorem mapState_snd (f : σ → α → β × σ) (s : σ) (forest : Forest α) :
    (forest.mapState f s).2 = forest.toList.foldl (fun s a => (f s a).2) s := by
  induction forest generalizing s with
  | nil => rfl
  | node a below after ihBelow ihAfter => simp [mapState, ihBelow, ihAfter]

-- ---------------------------------------------------------------------------
-- Change of shape
-- ---------------------------------------------------------------------------

/-- One forest after the other. -/
def append : Forest α → Forest α → Forest α
  | nil, other => other
  | node a below after, other => node a below (after.append other)

@[simp] theorem toList_append (forest other : Forest α) :
    (forest.append other).toList = forest.toList ++ other.toList := by
  induction forest with
  | nil => rfl
  | node a below after _ ihAfter => simp [append, ihAfter]

@[simp] theorem roots_append (forest other : Forest α) :
    (forest.append other).roots = forest.roots ++ other.roots := by
  induction forest with
  | nil => rfl
  | node a below after _ ihAfter => simp [append, ihAfter]

@[simp] theorem append_nil (forest : Forest α) : forest.append nil = forest := by
  induction forest with
  | nil => rfl
  | node a below after _ ihAfter => simp [append, ihAfter]

theorem append_assoc (first second third : Forest α) :
    (first.append second).append third = first.append (second.append third) := by
  induction first with
  | nil => rfl
  | node a below after _ ihAfter => simp [append, ihAfter]

/-- The tree of one label and the forest below it. -/
def tree (a : α) (below : Forest α) : Forest α :=
  node a below nil

@[simp] theorem toList_tree (a : α) (below : Forest α) :
    (tree a below).toList = a :: below.toList := by
  simp [tree]

@[simp] theorem roots_tree (a : α) (below : Forest α) : (tree a below).roots = [a] := rfl

/-- Puts a tree before the one at a position, or at the end. -/
def insertAt (a : α) (below : Forest α) : Nat → Forest α → Forest α
  | _, nil => tree a below
  | 0, forest => node a below forest
  | index + 1, node b under after => node b under (insertAt a below index after)

/-- The new tree stands at its position among the roots. -/
theorem roots_insertAt (a : α) (below : Forest α) (index : Nat) (forest : Forest α) :
    (insertAt a below index forest).roots =
      forest.roots.take index ++ a :: forest.roots.drop index := by
  induction forest generalizing index with
  | nil => simp [insertAt]
  | node b under after _ ihAfter =>
    cases index with
    | zero => simp [insertAt]
    | succ index => simp [insertAt, ihAfter]

/-- The labels of the new tree come to the old ones. -/
theorem toList_insertAt_perm (a : α) (below : Forest α) (index : Nat) (forest : Forest α) :
    (insertAt a below index forest).toList.Perm (a :: (below.toList ++ forest.toList)) := by
  induction forest generalizing index with
  | nil => simp [insertAt]
  | node b under after _ ihAfter =>
    cases index with
    | zero => simp [insertAt]
    | succ index =>
      have swap : (under.toList ++ a :: below.toList).Perm (a :: (below.toList ++ under.toList)) :=
        List.perm_middle.trans (.cons a List.perm_append_comm)
      have rest := (ihAfter index).append_left under.toList
      have whole := rest.trans (by simpa using swap.append_right after.toList)
      have middle : (a :: b :: (below.toList ++ (under.toList ++ after.toList))).Perm
          (a :: (below.toList ++ b :: (under.toList ++ after.toList))) :=
        .cons a List.perm_middle.symm
      simpa [insertAt] using ((whole.cons b).trans (.swap a b _)).trans middle

/-- Changes the forest below each label with a property. -/
def mapBelow (p : α → Bool) (f : Forest α → Forest α) : Forest α → Forest α
  | nil => nil
  | node a below after =>
    let below := below.mapBelow p f
    node a (if p a then f below else below) (after.mapBelow p f)

@[simp] theorem roots_mapBelow (p : α → Bool) (f : Forest α → Forest α) (forest : Forest α) :
    (forest.mapBelow p f).roots = forest.roots := by
  induction forest with
  | nil => rfl
  | node a below after _ ihAfter => simp [mapBelow, ihAfter]

/-- Where no label has the property nothing changes. -/
theorem mapBelow_eq_self {p : α → Bool} {forest : Forest α} (f : Forest α → Forest α)
    (h : ∀ a ∈ forest.toList, p a = false) : forest.mapBelow p f = forest := by
  induction forest with
  | nil => rfl
  | node a below after ihBelow ihAfter => simp_all [mapBelow]

/-- Takes out each label with a property, with everything below it. -/
def prune (p : α → Bool) : Forest α → Forest α
  | nil => nil
  | node a below after =>
    if p a then after.prune p else node a (below.prune p) (after.prune p)

@[simp] theorem roots_prune (p : α → Bool) (forest : Forest α) :
    (forest.prune p).roots = forest.roots.filter fun a => !p a := by
  induction forest with
  | nil => rfl
  | node a below after _ ihAfter => cases h : p a <;> simp [prune, h, ihAfter]

/-- What is left stands in the same order. -/
theorem toList_prune_sublist (p : α → Bool) (forest : Forest α) :
    (forest.prune p).toList.Sublist forest.toList := by
  induction forest with
  | nil => exact .slnil
  | node a below after ihBelow ihAfter =>
    cases h : p a with
    | true =>
      simp only [prune, h, if_true, toList_node]
      exact .cons a (ihAfter.trans (List.sublist_append_right ..))
    | false =>
      simp only [prune, h, toList_node]
      exact .cons_cons a (ihBelow.append ihAfter)

/-- No label with the property is left. -/
theorem not_of_mem_prune {p : α → Bool} {forest : Forest α} {a : α}
    (h : a ∈ (forest.prune p).toList) : p a = false := by
  induction forest with
  | nil => simp [prune] at h
  | node b below after ihBelow ihAfter =>
    cases hb : p b with
    | true => exact ihAfter (by simpa [prune, hb] using h)
    | false =>
      simp only [prune, hb, Bool.false_eq_true, if_false, toList_node, List.mem_cons,
        List.mem_append] at h
      rcases h with rfl | h | h
      · exact hb
      · exact ihBelow h
      · exact ihAfter h

/-- Where no label has the property nothing changes. -/
theorem prune_eq_self {p : α → Bool} {forest : Forest α}
    (h : ∀ a ∈ forest.toList, p a = false) : forest.prune p = forest := by
  induction forest with
  | nil => rfl
  | node a below after ihBelow ihAfter => simp_all [prune]

end Forest

end SlotFlow
