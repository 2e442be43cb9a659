import SlotFlow.Proofs.Graph.Altered
import SlotFlow.Proofs.Graph.Kinds
import SlotFlow.Proofs.Naming.Held
/-!
# Where the names of blocks come from

A naming pass gives a block the name its user asks for, or a number after a stem that says of what kind
the block is. An edit leaves a block its name, and as long as it leaves it its kind, too, the name goes on
saying what the kind is.

* `Workflow.Retains` — a step that gives no block a name and leaves those with a name their kinds;
* `Block.NamedByKind` — the name of a block is one that a naming pass gives to a block of its kind.

## Results

* `Workflow.WellFormed.retains_perform` — an edit of something else than a kind is such a step;
* `Workflow.KindsKept.namedByKind` — where no kind is edited, the names of blocks say their kinds.
-/

namespace SlotFlow

/-- The name of a block, if it has one, is the one that its user asks for, or a number after the stem of
its kind. -/
def Block.NamedByKind (block : Block) : Prop :=
  ∀ name, block.codeName = some name →
    block.preferredName? = some name ∨ ∃ k : Nat, name = block.kind.codeStem ++ toString k

namespace Block

variable {block : Block} {taken taken' : List String} {name : String}

/-- A name that is chosen is kept, or it says the kind. -/
theorem Chooses.origin (h : block.Chooses taken name taken') :
    block.codeName = some name ∨ block.preferredName? = some name ∨
      ∃ k : Nat, name = block.kind.codeStem ++ toString k := by
  cases h with
  | kept hname _ => exact .inl hname
  | moved _ hwish _ _ => exact .inr (.inl hwish)
  | wished _ hwish _ => exact .inr (.inl hwish)
  | numbered =>
    obtain ⟨k, -, -, heq, -⟩ := firstFree_spec block.kind.codeStem taken
    exact .inr (.inr ⟨k, heq⟩)

theorem NamedByKind.assignName (h : block.NamedByKind) (taken : List String) :
    (block.assignName taken).1.NamedByKind := by
  intro name hname
  have hchosen : (block.chooseName taken).1 = name := Option.some.inj hname
  rcases (hchosen ▸ block.chooses_chooseName taken).origin with hkept | hchosen
  · exact h name hkept
  · exact hchosen

theorem NamedByKind.congr {other : Block} (h : block.NamedByKind) (hkind : other.kind = block.kind)
    (hname : other.codeName = block.codeName) : other.NamedByKind := by
  intro name hother
  have hwish : other.preferredName? = block.preferredName? := by
    rw [preferredName?, hkind, preferredName?]
  rw [hwish, hkind]
  exact h name (hname ▸ hother)

/-- A time loop goes by a number. -/
theorem NamedByKind.timeLoop (h : block.NamedByKind) (hkind : block.kind = .timeLoop)
    (hname : block.codeName = some name) : ∃ k : Nat, name = "timeloop_" ++ toString k := by
  rcases h name hname with hwish | ⟨k, heq⟩
  · rw [preferredName?, hkind] at hwish
    cases hwish
  · rw [hkind] at heq
    exact ⟨k, heq⟩

end Block

namespace Workflow

variable {μ : Type} {w w' : Workflow μ}

-- ---------------------------------------------------------------------------
-- Steps that give no block a name
-- ---------------------------------------------------------------------------

/-- A block with a name after the step had it before the step, and was of the same kind. -/
def Retains (w w' : Workflow μ) : Prop :=
  ∀ block ∈ w'.blocks, block.codeName = none ∨
    ∃ old ∈ w.blocks, block.kind = old.kind ∧ block.codeName = old.codeName

/-- **An edit of something else than a kind gives no block a name** and leaves those with a name their
kinds. -/
theorem WellFormed.retains_perform (h : w.WellFormed) {edit : Edit μ} {answer : Answer}
    (he : w.perform edit = .ok (answer, w')) (hkind : ∀ id kind, edit ≠ .setBlockKind id kind) :
    w.Retains w' := by
  intro block hb
  rcases (h.alters_perform he).blocks block hb with ⟨old, hold, halters⟩ | hnew
  · exact .inr ⟨old, hold, halters.kind.resolve_right (hkind _ _), halters.codeName⟩
  · exact .inl hnew.codeName

-- ---------------------------------------------------------------------------
-- Names and kinds
-- ---------------------------------------------------------------------------

theorem Retains.namedByKind (h : w.Retains w') (hw : ∀ block ∈ w.blocks, block.NamedByKind) :
    ∀ block ∈ w'.blocks, block.NamedByKind := by
  intro block hb
  rcases h block hb with hnone | ⟨old, hold, hkind, hname⟩
  · intro name hname
    rw [hnone] at hname
    cases hname
  · exact (hw old hold).congr hkind hname

theorem namedByKind_assignNames (hw : ∀ block ∈ w.blocks, block.NamedByKind) :
    ∀ block ∈ w.assignNames.blocks, block.NamedByKind := by
  intro block hb
  rw [blocks_assignNames] at hb
  obtain ⟨chosen, hchosen, taken, rfl⟩ := exists_of_mem_mapStateList hb
  obtain ⟨old, hold, taken', rfl⟩ := exists_of_mem_mapStateList hchosen
  exact ((hw old hold).assignName taken').congr rfl rfl

/-- **Where no kind is edited, the names of blocks say their kinds.** -/
theorem KindsKept.namedByKind (h : w.KindsKept) : ∀ block ∈ w.blocks, block.NamedByKind := by
  have hnone : ∀ {w : Workflow μ}, w.codeNames = [] → ∀ block ∈ w.blocks, block.NamedByKind := by
    intro w hempty block hb name hname
    rw [(codeNames_eq_nil_iff.mp hempty).1 block hb] at hname
    cases hname
  induction h with
  | new => exact hnone rfl
  | loaded hw => exact hnone (codeNames_ofRecords hw)
  | edited h he hkind ih => exact (h.reachable.wellFormed.retains_perform he hkind).namedByKind ih
  | named _ ih => exact namedByKind_assignNames ih
  | generated _ options form ih =>
    exact generate_keeps (P := fun w => ∀ block ∈ w.blocks, block.NamedByKind)
      (namedByKind_assignNames ih) ih options form

end Workflow

end SlotFlow
