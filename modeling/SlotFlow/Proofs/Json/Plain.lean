import Mathlib.Data.List.Basic
import Mathlib.Data.String.Basic
import Mathlib.Tactic.SplitIfs
import SlotFlow.Json.Decode
import SlotFlow.Proofs.Json.Values
/-!
# Fields by their names

Whoever takes data out of an object asks for its fields by name. When an object goes through the data it
stands for, its fields come out in another order, but by name they are what they were.

* `Json.Node.IsPlain` — a node that comes through the data it stands for;
* `Json.Node.Ordered` — fields in the order of their names, each name once;
* `Json.Node.Fields.named`, `Json.Node.Fields.ofPlain` — the fields of an object as they stand in a document.

## Results

* `Json.Node.lookup_insertField` — a field that is put among others is found by its name;
* `Json.Node.ordered_of_plain?` — the fields of an object come in the order of their names;
* `Json.Node.exists_plain?_object` — the fields of an object are found in the data it stands for;
* `Json.Node.plain?_object_eq_none` — an object stands for no data if one of its fields stands for none.
-/

namespace SlotFlow.Json.Node

/-- A node that comes through the data it stands for: there is no object in it of which the fields would
come in another order. -/
def IsPlain (node : Node) : Prop :=
  ∃ json, node.plain? = some json ∧ json.node = node

theorem isPlain_array {items : List Node} (h : ∀ item ∈ items, IsPlain item) : IsPlain (array items) := by
  have hitems : ∃ plain, plainItems? items = some plain ∧ nodes plain = items := by
    induction items with
    | nil => exact ⟨[], rfl, rfl⟩
    | cons item items ih =>
      obtain ⟨json, hjson, hnode⟩ := h item List.mem_cons_self
      obtain ⟨plain, hplain, hnodes⟩ := ih fun other ho => h other (List.mem_cons_of_mem _ ho)
      exact ⟨json :: plain, by rw [plainItems?, hjson, hplain], by rw [nodes, hnode, hnodes]⟩
  obtain ⟨plain, hplain, hnodes⟩ := hitems
  exact ⟨.array plain, by rw [plain?, hplain, Option.map_some], by rw [node, hnodes]⟩

/-- An array stands for no data if one of its items stands for none. -/
theorem plain?_array_eq_none {items : List Node} {item : Node} (hitem : item ∈ items)
    (h : item.plain? = none) : (array items).plain? = none := by
  have hitems : plainItems? items = none := by
    induction items with
    | nil => cases hitem
    | cons other items ih =>
      rw [plainItems?]
      rcases List.mem_cons.mp hitem with rfl | hitem
      · rw [h]
      · rw [ih hitem]
        cases other.plain? <;> rfl
  rw [plain?, hitems, Option.map_none]

-- ---------------------------------------------------------------------------
-- Fields among others
-- ---------------------------------------------------------------------------

theorem lookup_cons_eq_ite {α : Type} (name : String) (value : α) (fields : List (String × α))
    (other : String) : ((name, value) :: fields).lookup other =
      if other = name then some value else fields.lookup other := by
  rw [List.lookup_cons]
  by_cases h : other = name
  · rw [if_pos h, beq_iff_eq.mpr h]
  · rw [if_neg h, beq_eq_false_iff_ne.mpr h]

/-- A field that is put among others is found by its name, and the others are found as before. -/
theorem lookup_insertField (name : String) (value : Json) (fields : List (String × Json))
    (other : String) : (insertField name value fields).lookup other =
      if other = name then some value else fields.lookup other := by
  induction fields with
  | nil => exact lookup_cons_eq_ite ..
  | cons field fields ih =>
    obtain ⟨present, held⟩ := field
    rw [insertField, lookup_cons_eq_ite present]
    split
    · rw [lookup_cons_eq_ite, lookup_cons_eq_ite]
    · split
      · rename_i hsame
        rw [lookup_cons_eq_ite, ← hsame]
        split <;> rfl
      · rename_i hother
        rw [lookup_cons_eq_ite, ih]
        split
        · rename_i hpresent
          rw [if_neg fun heq => hother (heq.symm.trans hpresent)]
        · rfl

/-- Fields in the order of their names, each name once. -/
def Ordered (fields : List (String × Json)) : Prop :=
  fields.Pairwise fun first second => first.1 < second.1

theorem mem_of_mem_insertField {name : String} {value : Json} {fields : List (String × Json)}
    {field : String × Json} (h : field ∈ insertField name value fields) :
    field = (name, value) ∨ field ∈ fields := by
  induction fields with
  | nil => exact .inl (List.mem_singleton.mp h)
  | cons present fields ih =>
    rw [insertField] at h
    split_ifs at h with hbefore hsame
    · exact List.mem_cons.mp h
    · exact (List.mem_cons.mp h).imp_right (List.mem_cons_of_mem _)
    · rcases List.mem_cons.mp h with rfl | h
      · exact .inr List.mem_cons_self
      · exact (ih h).imp_right (List.mem_cons_of_mem _)

theorem Ordered.insertField {fields : List (String × Json)} (h : Ordered fields) (name : String)
    (value : Json) : Ordered (insertField name value fields) := by
  induction fields with
  | nil => exact List.pairwise_singleton ..
  | cons present fields ih =>
    obtain ⟨hfirst, hrest⟩ := List.pairwise_cons.mp h
    rw [Node.insertField]
    split_ifs with hbefore hsame
    · refine List.pairwise_cons.mpr ⟨fun field hfield => ?_, h⟩
      rcases List.mem_cons.mp hfield with rfl | hfield
      · exact hbefore
      · exact String.lt_trans hbefore (hfirst field hfield)
    · exact List.pairwise_cons.mpr ⟨fun field hfield => hsame ▸ hfirst field hfield, hrest⟩
    · refine List.pairwise_cons.mpr ⟨fun field hfield => ?_, ih hrest⟩
      rcases mem_of_mem_insertField hfield with rfl | hfield
      · exact lt_of_le_of_ne (not_lt.mp hbefore) (Ne.symm hsame)
      · exact hfirst field hfield

theorem ordered_plainFields? {fields : List (Option String × Node)} {acc plain : List (String × Json)}
    (hacc : Ordered acc) (h : plainFields? acc fields = some plain) : Ordered plain := by
  induction fields generalizing acc with
  | nil =>
    rw [plainFields?, Option.some.injEq] at h
    exact h ▸ hacc
  | cons field fields ih =>
    obtain ⟨name, value⟩ := field
    rw [plainFields?.eq_def] at h
    dsimp only at h
    split at h
    · exact ih (hacc.insertField ..) h
    · cases h

/-- The fields of an object come in the order of their names, each name once. -/
theorem ordered_of_plain? {node : Node} {fields : List (String × Json)}
    (h : node.plain? = some (.object fields)) : Ordered fields := by
  cases node with
  | object written =>
    rw [plain?, Option.map_eq_some_iff] at h
    obtain ⟨plain, hplain, heq⟩ := h
    injection heq with heq
    exact heq ▸ ordered_plainFields? List.Pairwise.nil hplain
  | array items =>
    rw [plain?, Option.map_eq_some_iff] at h
    obtain ⟨_, -, heq⟩ := h
    cases heq
  | _ =>
    rw [plain?] at h
    cases h

-- ---------------------------------------------------------------------------
-- Fields of objects
-- ---------------------------------------------------------------------------

namespace Fields

/-- Fields whose names are texts. -/
def named (fields : Fields) : List (Option String × Node) :=
  fields.map fun field => (some field.1, field.2)

/-- Plain fields as they stand in a document. -/
def ofPlain (fields : List (String × Json)) : Fields :=
  fields.map fun field => (field.1, field.2.node)

theorem lookup_ofPlain (fields : List (String × Json)) (name : String) :
    (ofPlain fields).lookup name = (fields.lookup name).map node := by
  induction fields with
  | nil => rfl
  | cons field fields ih =>
    rw [ofPlain, List.map_cons, lookup_cons_eq_ite, lookup_cons_eq_ite, ← ofPlain, ih]
    split <;> rfl

end Fields

theorem namedFields?_nodeFields (fields : List (String × Json)) :
    namedFields? (nodeFields fields) = some (Fields.ofPlain fields) := by
  induction fields with
  | nil => rfl
  | cons field fields ih =>
    rw [namedFields?] at ih
    rw [namedFields?, nodeFields, List.mapM_cons, ih]
    rfl

/-- The fields of an object come out by their names, if there are no two of one name. -/
theorem exists_plainFields? {fields : Fields} {acc : List (String × Json)}
    (h : ∀ field ∈ fields, IsPlain field.2) (hnodup : (fields.map Prod.fst).Nodup) :
    ∃ plain, plainFields? acc fields.named = some plain ∧
      ∀ name, (Fields.ofPlain plain).lookup name =
        (fields.lookup name).or ((Fields.ofPlain acc).lookup name) := by
  induction fields generalizing acc with
  | nil => exact ⟨acc, rfl, fun _ => rfl⟩
  | cons field fields ih =>
    obtain ⟨name, value⟩ := field
    obtain ⟨json, hjson, hnode⟩ : IsPlain value := h _ List.mem_cons_self
    rw [List.map_cons, List.nodup_cons] at hnodup
    obtain ⟨plain, hplain, hlookup⟩ := @ih (insertField name json acc)
      (fun other ho => h other (List.mem_cons_of_mem _ ho)) hnodup.2
    refine ⟨plain, ?_, fun other => ?_⟩
    · rw [Fields.named, List.map_cons, plainFields?.eq_def]
      dsimp only
      rw [hjson]
      exact hplain
    · rw [hlookup, Fields.lookup_ofPlain, lookup_insertField, lookup_cons_eq_ite, Fields.lookup_ofPlain]
      split
      · -- no later field has the name
        rename_i hother
        have hnone : fields.lookup other = none := by
          refine List.lookup_eq_none_iff.mpr fun field hfield => ?_
          refine bne_iff_ne.mpr fun heq => hnodup.1 (List.mem_map.mpr ⟨field, hfield, ?_⟩)
          exact heq.symm.trans hother
        rw [hnone, Option.map_some, hnode]
        rfl
      · rfl

/-- **The fields of an object are found in the data it stands for.** -/
theorem exists_plain?_object {fields : Fields} (h : ∀ field ∈ fields, IsPlain field.2)
    (hnodup : (fields.map Prod.fst).Nodup) :
    ∃ plain, (object fields.named).plain? = some (.object plain) ∧
      ∀ name, (Fields.ofPlain plain).lookup name = fields.lookup name := by
  obtain ⟨plain, hplain, hlookup⟩ := @exists_plainFields? fields [] h hnodup
  refine ⟨plain, by rw [plain?, hplain, Option.map_some], fun name => ?_⟩
  rw [hlookup, Fields.lookup_ofPlain, List.lookup_nil, Option.map_none, Option.or_none]

/-- An object stands for no data if one of its fields stands for none. -/
theorem plain?_object_eq_none {fields : Fields} {field : String × Node} (hfield : field ∈ fields)
    (h : field.2.plain? = none) : (object fields.named).plain? = none := by
  have hfields (acc : List (String × Json)) : plainFields? acc fields.named = none := by
    induction fields generalizing acc with
    | nil => cases hfield
    | cons other fields ih =>
      rw [Fields.named, List.map_cons, plainFields?.eq_def]
      dsimp only
      rcases List.mem_cons.mp hfield with rfl | hfield
      · rw [h]
      · cases other.2.plain? with
        | none => rfl
        | some value => exact ih hfield _
  rw [plain?, hfields, Option.map_none]

end SlotFlow.Json.Node
