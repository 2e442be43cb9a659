import Mathlib.Data.List.Forall2
import Mathlib.Data.List.Nodup
import SlotFlow.Graph.Edit
/-!
# Elements by their numbers

Elements are found by searching a list for a number. Where numbers are distinct that search says the
same as membership, whatever the order of the list, and the changes of shape can be described by the
lists of labels they leave.

* `find?_key_eq_some` — finding by a key against membership;
* `Forest.exists_subtrees_prune`, `Forest.perm_prune` — cutting a subtree out splits the labels in two;
* `Forest.perm_mapBelow` — what is put below one label comes to the labels;
* `Workflow.mem_of_subtree?`, `Workflow.mem_of_ownedSlot?` — elements by number.
-/

namespace SlotFlow

-- ---------------------------------------------------------------------------
-- Lists with keys
-- ---------------------------------------------------------------------------

section Keys

variable {α κ : Type} [DecidableEq κ]

theorem find?_key_eq_none {key : α → κ} {xs : List α} {k : κ} :
    xs.find? (fun x => key x = k) = none ↔ k ∉ xs.map key := by
  simp [List.find?_eq_none]

/-- Where keys are distinct, an element is found under its key. -/
theorem find?_key_of_mem {key : α → κ} {xs : List α} (h : (xs.map key).Nodup) {x : α}
    (hx : x ∈ xs) : xs.find? (fun y => key y = key x) = some x := by
  induction xs with
  | nil => simp at hx
  | cons y ys ih =>
    rw [List.map_cons, List.nodup_cons] at h
    rcases List.mem_cons.mp hx with rfl | hx
    · simp
    · have hne : key y ≠ key x := fun he => h.1 (he ▸ List.mem_map_of_mem hx)
      rw [List.find?_cons_of_neg (by simpa using hne)]
      exact ih h.2 hx

/-- Where keys are distinct, what is found under a key is the one element that has it. -/
theorem find?_key_eq_some {key : α → κ} {xs : List α} (h : (xs.map key).Nodup) {k : κ} {x : α} :
    xs.find? (fun y => key y = k) = some x ↔ x ∈ xs ∧ key x = k := by
  refine ⟨fun hx => ⟨List.mem_of_find?_eq_some hx, by simpa using List.find?_some hx⟩, ?_⟩
  rintro ⟨hx, rfl⟩
  exact find?_key_of_mem h hx

/-- Elements under distinct keys are found wherever they stand. -/
theorem find?_key_perm {key : α → κ} {xs ys : List α} (hp : xs.Perm ys) (h : (xs.map key).Nodup)
    (k : κ) : xs.find? (fun x => key x = k) = ys.find? (fun y => key y = k) := by
  have hys : (ys.map key).Nodup := (hp.map key).nodup_iff.mp h
  ext x
  rw [find?_key_eq_some h, find?_key_eq_some hys, hp.mem_iff]

/-- Where keys are distinct, a part of a list is taken out by its keys. -/
theorem filter_of_nodup {key : α → κ} {xs ys zs : List α} (h : ((xs ++ (ys ++ zs)).map key).Nodup) :
    (xs ++ (ys ++ zs)).filter (fun x => key x ∉ ys.map key) = xs ++ zs := by
  rw [List.map_append, List.map_append, List.nodup_append, List.nodup_append] at h
  obtain ⟨-, ⟨-, -, hafter⟩, hbefore⟩ := h
  have hxs : xs.filter (fun x => key x ∉ ys.map key) = xs := by
    rw [List.filter_eq_self]
    intro x hx
    exact decide_eq_true fun hm =>
      hbefore _ (List.mem_map_of_mem hx) _ (List.mem_append_left _ hm) rfl
  have hys : ys.filter (fun x => key x ∉ ys.map key) = [] := by
    rw [List.filter_eq_nil_iff]
    exact fun y hy => by simpa using ⟨y, hy, rfl⟩
  have hzs : zs.filter (fun x => key x ∉ ys.map key) = zs := by
    rw [List.filter_eq_self]
    intro z hz
    exact decide_eq_true fun hm => hafter _ hm _ (List.mem_map_of_mem hz) rfl
  rw [List.filter_append, List.filter_append, hxs, hys, hzs, List.nil_append]

end Keys

-- ---------------------------------------------------------------------------
-- Lists related element by element
-- ---------------------------------------------------------------------------

section Related

variable {α β γ : Type} {r : α → β → Prop} {xs : List α} {ys : List β}

theorem exists_of_forall₂_right (h : List.Forall₂ r xs ys) {y : β} (hy : y ∈ ys) :
    ∃ x ∈ xs, r x y := by
  induction h with
  | nil => simp at hy
  | @cons x z xs zs hr _ ih =>
    rcases List.mem_cons.mp hy with rfl | hy
    · exact ⟨x, List.mem_cons_self, hr⟩
    · obtain ⟨x, hx, hr⟩ := ih hy
      exact ⟨x, List.mem_cons_of_mem _ hx, hr⟩

theorem exists_of_forall₂_left (h : List.Forall₂ r xs ys) {x : α} (hx : x ∈ xs) :
    ∃ y ∈ ys, r x y :=
  exists_of_forall₂_right (r := fun y x => r x y) h.flip hx

/-- What related elements agree on, the lists agree on. -/
theorem map_eq_of_forall₂ {f : α → γ} {g : β → γ} (h : List.Forall₂ r xs ys)
    (hr : ∀ x y, r x y → g y = f x) : ys.map g = xs.map f := by
  induction h with
  | nil => rfl
  | cons hxy _ ih => rw [List.map_cons, List.map_cons, hr _ _ hxy, ih]

theorem flatMap_filter (p : α → Bool) (f : α → List β) (xs : List α) :
    (xs.filter p).flatMap f = xs.flatMap fun x => if p x then f x else [] := by
  induction xs with
  | nil => rfl
  | cons x xs ih => cases hp : p x <;> simp [hp, ih]

/-- What is added to a part may as well come last. -/
theorem perm_append_right_comm (xs added rest : List α) :
    (xs ++ added ++ rest).Perm (xs ++ rest ++ added) := by
  rw [List.append_assoc, List.append_assoc]
  exact List.perm_append_comm.append_left _

/-- What comes to the part of one element comes to the whole. -/
theorem perm_flatMap_of_mem {key : α → γ} (h : (xs.map key).Nodup) {x : α} (hx : x ∈ xs)
    {f g : α → List β} {added : List β}
    (hother : ∀ y, key y ≠ key x → g y = f y) (hown : g x = f x ++ added) :
    (xs.flatMap g).Perm (xs.flatMap f ++ added) := by
  induction xs with
  | nil => simp at hx
  | cons y ys ih =>
    rw [List.map_cons, List.nodup_cons] at h
    rw [List.flatMap_cons, List.flatMap_cons, List.append_assoc]
    rcases List.mem_cons.mp hx with rfl | hx
    · have hrest : ys.flatMap g = ys.flatMap f :=
        List.flatMap_congr fun z hz => hother z fun he => h.1 (he ▸ List.mem_map_of_mem hz)
      rw [hown, hrest, ← List.append_assoc]
      exact perm_append_right_comm ..
    · have hne : key y ≠ key x := fun he => h.1 (he ▸ List.mem_map_of_mem hx)
      rw [hother y hne]
      exact (ih h.2 hx).append_left _

end Related

-- ---------------------------------------------------------------------------
-- Forests of blocks
-- ---------------------------------------------------------------------------

namespace Forest

/-- The numbers of all blocks in tree order. -/
def ids (forest : Forest Block) : List BlockId :=
  forest.toList.map Block.id

@[simp] theorem ids_nil : (nil : Forest Block).ids = [] := rfl

@[simp] theorem ids_node (b : Block) (below after : Forest Block) :
    (node b below after).ids = b.id :: (below.ids ++ after.ids) := by
  simp [ids]

theorem map_id_subtrees (forest : Forest Block) :
    forest.subtrees.map (fun tree => tree.1.id) = forest.ids := by
  rw [ids, ← map_fst_subtrees, List.map_map]
  rfl

theorem find?_node {α : Type} (p : α → Bool) (a : α) (below after : Forest α) :
    (node a below after).find? p =
      if p a then some (a, below) else (below.find? p).or (after.find? p) := by
  cases h : p a <;> simp [find?, subtrees, h]

/-- A number that does not occur is not found. -/
theorem find?_eq_none_iff {forest : Forest Block} {id : BlockId} :
    forest.find? (·.id = id) = none ↔ id ∉ forest.ids := by
  rw [← Option.map_eq_none_iff (f := Prod.fst), map_fst_find?]
  exact find?_key_eq_none

theorem mapBelow_of_not_mem {forest : Forest Block} {id : BlockId} (h : id ∉ forest.ids)
    (f : Forest Block → Forest Block) : forest.mapBelow (·.id = id) f = forest := by
  apply mapBelow_eq_self
  intro block hb
  simp only [decide_eq_false_iff_not]
  rintro rfl
  exact h (List.mem_map_of_mem hb)

theorem prune_of_not_mem {forest : Forest Block} {id : BlockId} (h : id ∉ forest.ids) :
    forest.prune (·.id = id) = forest := by
  apply prune_eq_self
  intro block hb
  simp only [decide_eq_false_iff_not]
  rintro rfl
  exact h (List.mem_map_of_mem hb)

theorem mem_ids_of_find? {forest below : Forest Block} {id : BlockId} {block : Block}
    (h : forest.find? (·.id = id) = some (block, below)) : id ∈ forest.ids := by
  by_contra hm
  rw [find?_eq_none_iff.mpr hm] at h
  cases h

theorem map_prune_subtrees_of_not_mem {forest : Forest Block} {id : BlockId} (h : id ∉ forest.ids) :
    forest.subtrees.map (fun tree => (tree.1, tree.2.prune (·.id = id))) = forest.subtrees := by
  induction forest with
  | nil => rfl
  | node b under after ihUnder ihAfter =>
    rw [ids_node, List.mem_cons, List.mem_append, not_or, not_or] at h
    obtain ⟨-, hUnder, hAfter⟩ := h
    rw [subtrees, List.map_cons, List.map_append, ihUnder hUnder, ihAfter hAfter,
      prune_of_not_mem hUnder]

/-- A subtree that is cut out stands together, and of the trees that it is part of it is taken out. -/
theorem exists_subtrees_prune {forest below : Forest Block} {id : BlockId} {block : Block}
    (hids : forest.ids.Nodup) (h : forest.find? (·.id = id) = some (block, below)) :
    ∃ before after, forest.subtrees = before ++ ((tree block below).subtrees ++ after) ∧
      (forest.prune (·.id = id)).subtrees =
        (before ++ after).map fun tree => (tree.1, tree.2.prune (·.id = id)) := by
  induction forest with
  | nil => simp [find?, subtrees] at h
  | node b under rest ihUnder ihRest =>
    rw [ids_node, List.nodup_cons, List.nodup_append] at hids
    obtain ⟨hb, hUnder, hRest, hdis⟩ := hids
    rw [find?_node] at h
    by_cases hid : b.id = id
    · -- the subtree is the first tree, and its number occurs nowhere else
      subst hid
      simp only [decide_true, if_true, Option.some.injEq, Prod.mk.injEq] at h
      obtain ⟨rfl, rfl⟩ := h
      have hout : b.id ∉ rest.ids := fun hm => hb (List.mem_append_right _ hm)
      refine ⟨[], rest.subtrees, by simp [tree, subtrees], ?_⟩
      rw [prune, if_pos (decide_eq_true rfl), prune_of_not_mem hout, List.nil_append,
        map_prune_subtrees_of_not_mem hout]
    · rw [if_neg (by simpa using hid)] at h
      rw [prune, if_neg (by simpa using hid)]
      cases hu : under.find? (·.id = id) with
      | some found =>
        rw [hu, Option.some_or, Option.some.injEq] at h
        subst h
        have hout : id ∉ rest.ids := fun hm => hdis id (mem_ids_of_find? hu) id hm rfl
        obtain ⟨before, after, hall, hleft⟩ := ihUnder hUnder hu
        refine ⟨(b, under) :: before, after ++ rest.subtrees, ?_, ?_⟩
        · simp [subtrees, hall]
        · simp [subtrees, hleft, prune_of_not_mem hout, map_prune_subtrees_of_not_mem hout]
      | none =>
        rw [hu, Option.none_or] at h
        have hout : id ∉ under.ids := find?_eq_none_iff.mp hu
        obtain ⟨before, after, hall, hleft⟩ := ihRest hRest h
        refine ⟨(b, under) :: (under.subtrees ++ before), after, ?_, ?_⟩
        · simp [subtrees, hall]
        · simp [subtrees, hleft, prune_of_not_mem hout, map_prune_subtrees_of_not_mem hout]

/-- Cutting a subtree out splits the blocks into those that stay and those that go. -/
theorem perm_prune {forest below : Forest Block} {id : BlockId} {block : Block}
    (hids : forest.ids.Nodup) (h : forest.find? (·.id = id) = some (block, below)) :
    forest.toList.Perm ((forest.prune (·.id = id)).toList ++ block :: below.toList) := by
  obtain ⟨before, after, hall, hleft⟩ := exists_subtrees_prune hids h
  rw [← map_fst_subtrees, hall, ← map_fst_subtrees (forest.prune _), hleft]
  simp only [List.map_append, List.map_map, Function.comp_def, map_fst_subtrees, toList_tree,
    List.append_assoc]
  exact List.perm_append_comm.append_left _

/-- What a change adds below one block comes to all blocks. -/
theorem perm_mapBelow {forest : Forest Block} {id : BlockId} {f : Forest Block → Forest Block}
    {added : List Block} (hids : forest.ids.Nodup) (hmem : id ∈ forest.ids)
    (hf : ∀ below, (f below).toList.Perm (below.toList ++ added)) :
    (forest.mapBelow (·.id = id) f).toList.Perm (forest.toList ++ added) := by
  induction forest with
  | nil => simp at hmem
  | node b below after ihBelow ihAfter =>
    rw [ids_node, List.nodup_cons, List.nodup_append] at hids
    obtain ⟨hb, hBelow, hAfter, hdis⟩ := hids
    rw [ids_node, List.mem_cons, List.mem_append] at hmem
    by_cases hid : b.id = id
    · subst hid
      have hBelowEq : below.mapBelow (·.id = b.id) f = below :=
        mapBelow_of_not_mem (fun hm => hb (List.mem_append_left _ hm)) f
      have hAfterEq : after.mapBelow (·.id = b.id) f = after :=
        mapBelow_of_not_mem (fun hm => hb (List.mem_append_right _ hm)) f
      simp only [mapBelow, hBelowEq, hAfterEq, decide_true, if_true, toList_node, List.cons_append]
      exact .cons b (((hf below).append_right _).trans (perm_append_right_comm ..))
    · simp only [mapBelow, hid, decide_false, Bool.false_eq_true, if_false, toList_node,
        List.cons_append]
      refine .cons b ?_
      rcases hmem with rfl | hm | hm
      · exact absurd rfl hid
      · have hAfterEq : after.mapBelow (·.id = id) f = after :=
          mapBelow_of_not_mem (fun h => hdis id hm id h rfl) f
        rw [hAfterEq]
        exact ((ihBelow hBelow hm).append_right _).trans (perm_append_right_comm ..)
      · have hBelowEq : below.mapBelow (·.id = id) f = below :=
          mapBelow_of_not_mem (fun h => hdis id h id hm rfl) f
        rw [hBelowEq, List.append_assoc]
        exact (ihAfter hAfter hm).append_left _

@[simp] theorem map_append {α β : Type} (g : α → β) (forest other : Forest α) :
    (forest.append other).map g = (forest.map g).append (other.map g) := by
  induction forest with
  | nil => rfl
  | node a below after _ ihAfter => simp only [append, map, ihAfter]

theorem map_map {α β γ : Type} (g : β → γ) (f : α → β) (forest : Forest α) :
    (forest.map f).map g = forest.map (g ∘ f) := by
  induction forest with
  | nil => rfl
  | node a below after ihBelow ihAfter => simp only [map, ihBelow, ihAfter, Function.comp_apply]

/-- A label is found where it was before a change that leaves the property alone. -/
theorem find?_map {α β : Type} {p : β → Bool} {q : α → Bool} {g : α → β} (hp : ∀ a, p (g a) = q a)
    (forest : Forest α) :
    (forest.map g).find? p = (forest.find? q).map fun tree => (g tree.1, tree.2.map g) := by
  induction forest with
  | nil => rfl
  | node a below after ihBelow ihAfter =>
    rw [map, find?_node, find?_node, hp, ihBelow, ihAfter]
    split
    · rfl
    · cases below.find? q <;> rfl

theorem prune_map {α β : Type} {p : β → Bool} {q : α → Bool} {g : α → β} (hp : ∀ a, p (g a) = q a)
    (forest : Forest α) : (forest.map g).prune p = (forest.prune q).map g := by
  induction forest with
  | nil => rfl
  | node a below after ihBelow ihAfter =>
    rw [map, prune, prune, hp, ihBelow, ihAfter]
    split <;> rfl

theorem prune_append {α : Type} (p : α → Bool) (forest other : Forest α) :
    (forest.append other).prune p = (forest.prune p).append (other.prune p) := by
  induction forest with
  | nil => rfl
  | node a below after _ ihAfter =>
    rw [append, prune, prune, ihAfter]
    split <;> rfl

/-- Where a change only adds trees that are taken out again, it leaves no trace. -/
theorem prune_mapBelow {α : Type} {p q : α → Bool} {f : Forest α → Forest α} {forest : Forest α}
    (h : ∀ a ∈ forest.toList, q a = false)
    (hf : ∀ below : Forest α, (f below).prune q = below.prune q) :
    (forest.mapBelow p f).prune q = forest := by
  induction forest with
  | nil => rfl
  | node a below after ihBelow ihAfter =>
    simp only [toList_node, List.mem_cons, List.mem_append, forall_eq_or_imp] at h
    obtain ⟨ha, hrest⟩ := h
    have hbelow := ihBelow fun b hb => hrest b (.inl hb)
    have hafter := ihAfter fun b hb => hrest b (.inr hb)
    have hchanged : prune q (if p a then f (below.mapBelow p f) else below.mapBelow p f) = below := by
      split
      · rw [hf, hbelow]
      · exact hbelow
    simp only [mapBelow, prune, ha, hafter, hchanged, Bool.false_eq_true, if_false]

/-- A change of labels goes below a change of shape that does not look at them. -/
theorem map_mapBelow {α : Type} {p : α → Bool} {g : α → α} {f k : Forest α → Forest α}
    (hp : ∀ a, p (g a) = p a) (hf : ∀ below, (f below).map g = k (below.map g))
    (forest : Forest α) : (forest.mapBelow p f).map g = (forest.map g).mapBelow p k := by
  induction forest with
  | nil => rfl
  | node a below after ihBelow ihAfter =>
    simp only [mapBelow, map, hp, ihAfter]
    congr 1
    split
    · rw [hf, ihBelow]
    · exact ihBelow

/-- Labels that are changed in pre-order correspond to the old ones, each changed in some state. -/
theorem forall₂_mapState {α β σ : Type} (f : σ → α → β × σ) (s : σ) (forest : Forest α) :
    List.Forall₂ (fun a b => ∃ s, b = (f s a).1) forest.toList (forest.mapState f s).1.toList := by
  induction forest generalizing s with
  | nil => exact .nil
  | node a below after ihBelow ihAfter =>
    exact .cons ⟨s, rfl⟩ (List.rel_append (ihBelow _) (ihAfter _))

end Forest

-- ---------------------------------------------------------------------------
-- Workflows
-- ---------------------------------------------------------------------------

namespace Workflow

variable {μ : Type} {w : Workflow μ}

theorem slots_eq (w : Workflow μ) : w.slots = w.blocks.flatMap Block.slots := by
  simp [slots, ownedSlots, List.map_flatMap, Function.comp_def]

theorem blocks_eq (w : Workflow μ) : w.blocks = w.root :: w.body.toList := by
  rw [blocks, tree, Forest.toList_tree]

theorem mem_blocks_of_mem_body {block : Block} (h : block ∈ w.body.toList) : block ∈ w.blocks := by
  rw [blocks_eq]
  exact List.mem_cons_of_mem _ h

theorem mem_slots {slot : Slot} : slot ∈ w.slots ↔ ∃ block ∈ w.blocks, slot ∈ block.slots := by
  rw [slots_eq, List.mem_flatMap]

theorem mem_ownedSlots {owned : OwnedSlot} :
    owned ∈ w.ownedSlots ↔ owned.owner ∈ w.blocks ∧ owned.slot ∈ owned.owner.slots := by
  simp only [ownedSlots, List.mem_flatMap, List.mem_map]
  constructor
  · rintro ⟨block, hb, slot, hs, rfl⟩
    exact ⟨hb, hs⟩
  · rintro ⟨hb, hs⟩
    exact ⟨owned.owner, hb, owned.slot, hs, rfl⟩

@[simp] theorem root_modifyBelow (id : BlockId) (f : Forest Block → Forest Block) :
    (w.modifyBelow id f).root = w.root := by
  unfold modifyBelow
  split <;> rfl

@[simp] theorem links_modifyBelow (id : BlockId) (f : Forest Block → Forest Block) :
    (w.modifyBelow id f).links = w.links := by
  unfold modifyBelow
  split <;> rfl

@[simp] theorem nextId_modifyBelow (id : BlockId) (f : Forest Block → Forest Block) :
    (w.modifyBelow id f).nextId = w.nextId := by
  unfold modifyBelow
  split <;> rfl

@[simp] theorem name_modifyBelow (id : BlockId) (f : Forest Block → Forest Block) :
    (w.modifyBelow id f).name = w.name := by
  unfold modifyBelow
  split <;> rfl

@[simp] theorem registry_modifyBelow (id : BlockId) (f : Forest Block → Forest Block) :
    (w.modifyBelow id f).registry = w.registry := by
  unfold modifyBelow
  split <;> rfl

/-- The numbers and uids of new elements have nothing to do with the tree. -/
@[simp] theorem uidStem_modifyBelow (id : BlockId) (f : Forest Block → Forest Block) :
    (w.modifyBelow id f).uidStem = w.uidStem := by
  unfold modifyBelow
  split <;> rfl

/-- A change of blocks' own data goes below a change of shape that does not look at it. -/
theorem mapBlocks_modifyBelow {id : BlockId} {g : Block → Block}
    {f k : Forest Block → Forest Block} (hid : ∀ block, (g block).id = block.id)
    (hf : ∀ below, (f below).map g = k (below.map g)) :
    (w.modifyBelow id f).mapBlocks g = (w.mapBlocks g).modifyBelow id k := by
  simp only [modifyBelow, mapBlocks, hid]
  split
  · simp only [hf]
  · simp only [Forest.map_mapBelow (p := (·.id = id)) (k := k) (fun _ => by rw [hid]) hf]

theorem mapBlocks_mapBlocks (g f : Block → Block) :
    (w.mapBlocks f).mapBlocks g = w.mapBlocks (g ∘ f) := by
  simp only [mapBlocks, Forest.map_map, Function.comp_apply]

/-- A block is found where it was before a change that leaves numbers alone. -/
theorem subtree?_mapBlocks {g : Block → Block} (hid : ∀ block, (g block).id = block.id)
    (id : BlockId) :
    (w.mapBlocks g).subtree? id = (w.subtree? id).map fun tree => (g tree.1, tree.2.map g) := by
  have htree : (w.mapBlocks g).tree = w.tree.map g := rfl
  rw [subtree?, htree]
  exact Forest.find?_map (fun block => by rw [hid]) _

/-- A change that leaves every block alone leaves the workflow alone. -/
theorem mapBlocks_eq_self {g : Block → Block} (h : ∀ block ∈ w.blocks, g block = block) :
    w.mapBlocks g = w := by
  have hroot : g w.root = w.root := h _ List.mem_cons_self
  have hbody : w.body.map g = w.body :=
    Forest.map_eq_self fun b hb => h b (mem_blocks_of_mem_body hb)
  rw [mapBlocks, hroot, hbody]

/-- A change that leaves every slot alone leaves the workflow alone. -/
theorem mapSlots_eq_self {f : Slot → Slot} (h : ∀ slot ∈ w.slots, f slot = slot) :
    w.mapSlots f = w := by
  refine mapBlocks_eq_self fun block hb => ?_
  have hsame : block.slots.map f = block.slots.map id :=
    List.map_congr_left fun slot hs => h slot (mem_slots.mpr ⟨block, hb, hs⟩)
  rw [hsame, List.map_id]

theorem ids_tree (w : Workflow μ) : w.tree.ids = w.blocks.map Block.id := rfl

theorem mem_subtrees_of_subtree? {id : BlockId} {tree : Block × Forest Block}
    (h : w.subtree? id = some tree) : tree ∈ w.tree.subtrees := by
  unfold subtree? Forest.find? at h
  exact List.mem_of_find?_eq_some h

theorem children_subset_blocks (w : Workflow μ) (id : BlockId) : w.children id ⊆ w.blocks := by
  intro child hc
  rw [children, below] at hc
  cases hfind : w.subtree? id with
  | none => simp [hfind] at hc
  | some tree =>
    rw [hfind] at hc
    have hsub := Forest.toList_sublist_of_mem_subtrees (mem_subtrees_of_subtree? hfind)
    exact hsub.subset (List.mem_cons_of_mem _ ((Forest.roots_sublist _).subset hc))

/-- The block that is found by a number has it. -/
theorem mem_of_subtree? {id : BlockId} {block : Block} {below : Forest Block}
    (h : w.subtree? id = some (block, below)) : block ∈ w.blocks ∧ block.id = id := by
  have hfind : w.blocks.find? (·.id = id) = some block := by
    rw [blocks, ← Forest.map_fst_find?, show w.tree.find? (·.id = id) = _ from h]
    rfl
  exact ⟨List.mem_of_find?_eq_some hfind, by simpa using List.find?_some hfind⟩

theorem mem_of_ownedSlot? {id : SlotId} {owned : OwnedSlot} (h : w.ownedSlot? id = some owned) :
    owned.owner ∈ w.blocks ∧ owned.slot ∈ owned.owner.slots ∧ owned.slot.id = id := by
  have hmem := mem_ownedSlots.mp (List.mem_of_find?_eq_some h)
  exact ⟨hmem.1, hmem.2, by simpa using List.find?_some h⟩

/-- A change below one block is one of the whole tree. -/
theorem tree_modifyBelow {id : BlockId} (hids : (w.blocks.map Block.id).Nodup)
    (f : Forest Block → Forest Block) :
    (w.modifyBelow id f).tree = w.tree.mapBelow (·.id = id) f := by
  by_cases hroot : w.root.id = id
  · subst hroot
    have hnot : w.root.id ∉ w.body.ids := by
      simp only [← ids_tree, tree, Forest.tree, Forest.ids_node, List.nodup_cons] at hids
      exact fun hm => hids.1 (List.mem_append_left _ hm)
    simp [modifyBelow, tree, Forest.tree, Forest.mapBelow, Forest.mapBelow_of_not_mem hnot]
  · simp [modifyBelow, tree, Forest.tree, Forest.mapBelow, hroot]

/-- What a change adds below one block comes to all blocks. -/
theorem perm_blocks_modifyBelow {id : BlockId} {f : Forest Block → Forest Block}
    {added : List Block} (hids : (w.blocks.map Block.id).Nodup)
    (hmem : id ∈ w.blocks.map Block.id)
    (hf : ∀ below, (f below).toList.Perm (below.toList ++ added)) :
    (w.modifyBelow id f).blocks.Perm (w.blocks ++ added) := by
  rw [blocks, tree_modifyBelow hids]
  exact Forest.perm_mapBelow hids hmem hf

/-- A block that is not the root is cut out of the whole tree. -/
theorem tree_prune {id : BlockId} (h : id ≠ w.root.id) :
    { w with body := w.body.prune (·.id = id) }.tree = w.tree.prune (·.id = id) := by
  simp [tree, Forest.tree, Forest.prune, Ne.symm h]

/-- Cutting a block out splits the blocks into those that stay and those that go. -/
theorem perm_blocks_prune {id : BlockId} {block : Block} {below : Forest Block}
    (hids : (w.blocks.map Block.id).Nodup) (hroot : id ≠ w.root.id)
    (h : w.subtree? id = some (block, below)) :
    w.blocks.Perm
      ({ w with body := w.body.prune (·.id = id) }.blocks ++ (Forest.tree block below).toList) := by
  rw [blocks, blocks, tree_prune hroot, Forest.toList_tree]
  exact Forest.perm_prune hids h

end Workflow

end SlotFlow
