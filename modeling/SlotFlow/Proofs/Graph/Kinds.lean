import SlotFlow.Proofs.Document.Carried
/-!
# Workflows whose blocks keep their kinds

The kind of a block can be edited, and then nothing ties it to the block's slots and children any
more. Where no kind is edited, only containers have blocks below them.

* `Workflow.KindsKept` — the workflows that there are if no kind is edited;
* `Workflow.Shaped` — the root is a workflow, and only containers have blocks below them.

## Results

* `Workflow.KindsKept.shaped` — where no kind is edited, a workflow has that shape.
-/

namespace SlotFlow.Workflow

variable {μ : Type} {w w' : Workflow μ}

/-- The workflows that there are if no block's kind is edited. -/
inductive KindsKept : Workflow μ → Prop where
  | new (uidStem name : String) (registry : Registry μ) : KindsKept (new uidStem name registry)
  | loaded {uidStem : String} {records : List Record} {registry : Registry μ} {w : Workflow μ}
      (h : ofRecords uidStem records registry = .ok w) : KindsKept w
  | edited {w w' : Workflow μ} {edit : Edit μ} {answer : Answer} (h : KindsKept w)
      (he : w.perform edit = .ok (answer, w')) (hkind : ∀ id kind, edit ≠ .setBlockKind id kind) :
      KindsKept w'
  | named {w : Workflow μ} (h : KindsKept w) : KindsKept w.assignNames
  | generated {w : Workflow μ} (h : KindsKept w) (options : ProgramOptions) (form : ProgramForm) :
      KindsKept (w.generate options form).2

theorem KindsKept.reachable (h : w.KindsKept) : w.Reachable := by
  induction h with
  | new uidStem name registry => exact .new ..
  | loaded hw => exact .loaded hw
  | edited _ he _ ih => exact ih.edited he
  | named _ ih => exact ih.named
  | generated _ options form ih => exact ih.generated options form

/-- The root is a workflow, and only containers have blocks below them. -/
structure Shaped (w : Workflow μ) : Prop where
  root : w.root.kind = .workflow
  nested : w.tree.Nested

namespace Shaped

theorem carries (h : w.Shaped) {touched added : SlotId → Prop} {made : Block → Prop}
    (hc : w.Carries touched added made w') : w'.Shaped :=
  ⟨hc.root.kind.trans h.root, hc.nested h.nested⟩

theorem perform (h : w.Shaped) (hw : w.WellFormed) {edit : Edit μ} {answer : Answer}
    (he : w.perform edit = .ok (answer, w')) (hkind : ∀ id kind, edit ≠ .setBlockKind id kind) :
    w'.Shaped :=
  h.carries (hw.carries_perform he hkind)

theorem assignNames (h : w.Shaped) : w.assignNames.Shaped := by
  obtain ⟨v, hfirst, hsecond⟩ :=
    carries_assignNames (fun _ => False) (fun _ => False) (fun _ => False) w
  exact (h.carries hfirst).carries hsecond

/-- A document gives a workflow of that shape. -/
theorem of_ofRecords {uidStem : String} {records : List Record} {registry : Registry μ}
    (hw : ofRecords uidStem records registry = .ok w) : w.Shaped := by
  refine ofRecords_induction (P := Shaped) ?_ ?_ ?_ ?_ ?_ hw
  · intro uidStem name uid
    exact ⟨rfl, .inl rfl, trivial, trivial⟩
  · intro w h hp parent container hget kind requests _ name uid
    have hcarries : w.Carries (fun _ => False) (fun _ => False) (fun _ => True)
        (w.attachBlock parent kind name requests uid).2 := h.carries_attachBlock hget trivial
    exact hp.carries hcarries
  · intro w h hp id data
    have hcarries : w.Carries (fun _ => True) (fun _ => False) (fun _ => False)
        (w.modifySlot id (applyRecord data)) :=
      carries_mapSlots (fun slot => by split <;> rfl) fun _ _ ht => absurd trivial ht
    exact hp.carries hcarries
  · intro w h hp owner request added ha
    exact hp.perform h (perform_addSlot ha) nofun
  · intro w h hp a b uid added ha
    exact hp.perform h (perform_connect ha) nofun

end Shaped

/-- Where no kind is edited, the root is a workflow and only containers have blocks below them. -/
theorem KindsKept.shaped (h : w.KindsKept) : w.Shaped := by
  induction h with
  | new uidStem name registry => exact ⟨rfl, .inl rfl, trivial, trivial⟩
  | loaded hw => exact .of_ofRecords hw
  | edited h he hkind ih => exact ih.perform h.reachable.wellFormed he hkind
  | named _ ih => exact ih.assignNames
  | generated _ options form ih => exact generate_keeps ih.assignNames ih options form

end SlotFlow.Workflow
