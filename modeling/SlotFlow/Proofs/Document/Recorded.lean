import SlotFlow.Document.Record
import SlotFlow.Proofs.Json.Plain
/-!
# Records are decoded as they were written

A document is written as one piece of JSON, and read as a list of values from which records are made one by
one. What no record can be made of is passed over. Of what is written, that is the constants with a double
that is not finite: such a double is written as absent, and no constant is read where it should be. The other
doubles become what the conversion makes of their texts. One that it takes to be beyond the doubles leaves
nothing of the document.

* `BlockKind.isFinite`, `Record.isFinite` — all doubles in a record are finite;
* `BlockKind.doubles`, `Record.doubles` — these doubles;
* `Record.fieldNodes` — the fields of a record as they stand in a document.

## Results

* `Record.ofFields?_fieldNodes` — the record of a kind is made from the fields that it wrote;
* `Document.read?_toText` — what is read are the records that are finite, with their doubles reread;
* `Document.read?_toText_eq_none` — nothing is read if one of the doubles is not legible;
* `Document.read?_toText_eq_iff` — when a document is read as it was written.
-/

namespace SlotFlow

open Json

-- ---------------------------------------------------------------------------
-- Finite records
-- ---------------------------------------------------------------------------

/-- Whether all doubles that a kind of block holds are numbers. -/
def BlockKind.isFinite : BlockKind → Bool
  | .constant (.property values ..) => values.all fun x => (Binary64.ofFloat x).isFinite
  | .constant (.quantity value _) => (Binary64.ofFloat value).isFinite
  | .constant (.number value) => (Binary64.ofFloat value).isFinite
  | _ => true

/-- Whether all doubles in a record are numbers. -/
def Record.isFinite : Record → Bool
  | .block _ kind => kind.isFinite
  | _ => true

/-- The doubles that a kind of block holds. -/
def BlockKind.doubles : BlockKind → List Float
  | .constant (.property values ..) => values
  | .constant (.quantity value _) => [value]
  | .constant (.number value) => [value]
  | _ => []

/-- The doubles in a record. -/
def Record.doubles : Record → List Float
  | .block _ kind => kind.doubles
  | _ => []

/-- A kind of block with other doubles. -/
def BlockKind.mapDoubles (f : Float → Float) : BlockKind → BlockKind
  | .constant (.property values propertyId valueType units) =>
    .constant (.property (values.map f) propertyId valueType units)
  | .constant (.quantity value units) => .constant (.quantity (f value) units)
  | .constant (.number value) => .constant (.number (f value))
  | kind => kind

/-- A record with other doubles. -/
def Record.mapDoubles (f : Float → Float) : Record → Record
  | .block data kind => .block data (kind.mapDoubles f)
  | record => record

namespace BlockKind

variable {kind : BlockKind} {f : Float → Float}

theorem isFinite_iff :
    kind.isFinite = true ↔ ∀ x ∈ kind.doubles, (Binary64.ofFloat x).isFinite = true := by
  cases kind with
  | constant value => cases value <;> simp [isFinite, doubles]
  | _ => simp [isFinite, doubles]

theorem mapDoubles_eq_self_iff : kind.mapDoubles f = kind ↔ ∀ x ∈ kind.doubles, f x = x := by
  cases kind with
  | constant value =>
    cases value with
    | property values =>
      simpa [mapDoubles, doubles] using List.map_inj_left (f := f) (g := id) (l := values)
    | quantity | number => simp [mapDoubles, doubles]
  | _ => simp [mapDoubles, doubles]

end BlockKind

namespace Record

variable {record : Record} {f : Float → Float}

theorem isFinite_iff :
    record.isFinite = true ↔ ∀ x ∈ record.doubles, (Binary64.ofFloat x).isFinite = true := by
  cases record with
  | block => exact BlockKind.isFinite_iff
  | _ => simp [isFinite, doubles]

theorem mapDoubles_eq_self_iff : record.mapDoubles f = record ↔ ∀ x ∈ record.doubles, f x = x := by
  cases record with
  | block data kind => simp [mapDoubles, doubles, BlockKind.mapDoubles_eq_self_iff]
  | _ => simp [mapDoubles, doubles]

/-- All records are finite and none of their doubles changes exactly if every double comes back. -/
theorem map_filter_eq_self_iff {conversion : Conversion} {records : List Record}
    (h : ∀ record ∈ records, ∀ x ∈ record.doubles, conversion.Legible x) :
    (records.filter isFinite).map (mapDoubles conversion.reread) = records ↔
      ∀ record ∈ records, ∀ x ∈ record.doubles, conversion.reread? x = some x := by
  have hall : (∀ record ∈ records, ∀ x ∈ record.doubles, conversion.reread? x = some x) ↔
      (∀ record ∈ records, record.isFinite = true) ∧
        ∀ record ∈ records, record.mapDoubles conversion.reread = record := by
    rw [← forall₂_and]
    refine forall₂_congr fun record hrecord => ?_
    rw [isFinite_iff, mapDoubles_eq_self_iff, ← forall₂_and]
    exact forall₂_congr fun x hx => Conversion.reread?_eq_self_iff (h record hrecord x hx)
  rw [hall]
  constructor
  · intro hsame
    have hlength := congrArg List.length hsame
    rw [List.length_map] at hlength
    have hfinite := List.length_filter_eq_length_iff.mp hlength
    rw [List.filter_eq_self.mpr hfinite] at hsame
    refine ⟨hfinite, List.map_inj_left.mp (hsame.trans (List.map_id records).symm)⟩
  · rintro ⟨hfinite, hsame⟩
    rw [List.filter_eq_self.mpr hfinite]
    exact (List.map_congr_left hsame).trans (List.map_id records)

end Record

-- ---------------------------------------------------------------------------
-- Values of fields
-- ---------------------------------------------------------------------------

namespace Json

variable {conversion : Conversion}

theorem rereadItems_eq_map (items : List Json) :
    rereadItems conversion items = items.map (reread conversion) := by
  induction items with
  | nil => rfl
  | cons item items ih => rw [rereadItems, ih, List.map_cons]

theorem rereadFields_eq_named (fields : List (String × Json)) : rereadFields conversion fields =
    Node.Fields.named (fields.map fun field => (field.1, field.2.reread conversion)) := by
  induction fields with
  | nil => rfl
  | cons field fields ih =>
    rw [rereadFields, ih]
    rfl

theorem float?_reread {x : Float} (h : conversion.Legible x) : ((float x).reread conversion).float? =
    if (Binary64.ofFloat x).isFinite then some (conversion.reread x) else none := by
  rw [reread]
  split
  · rename_i hx
    obtain ⟨y, hy⟩ := Option.isSome_iff_exists.mp (h hx)
    rw [Conversion.reread, hy]
    rfl
  · rfl

theorem list?_floats {values : List Float} (h : ∀ x ∈ values, conversion.Legible x) :
    ((array (values.map float)).reread conversion).list? Node.float? =
      if values.all fun x => (Binary64.ofFloat x).isFinite then some (values.map conversion.reread)
      else none := by
  rw [reread, Node.list?, rereadItems_eq_map, List.map_map, List.mapM_map]
  induction values with
  | nil => rfl
  | cons x values ih =>
    obtain ⟨hx, hvalues⟩ := List.forall_mem_cons.mp h
    rw [List.mapM_cons, ih hvalues, Function.comp_apply, Function.comp_apply, float?_reread hx,
      List.all_cons]
    cases (Binary64.ofFloat x).isFinite
    · rfl
    · cases values.all fun x => (Binary64.ofFloat x).isFinite <;> rfl

theorem list?_strings (lines : List String) :
    ((array (lines.map string)).reread conversion).list? Node.string? = some lines := by
  rw [reread, Node.list?, rereadItems_eq_map, List.map_map, List.mapM_map]
  induction lines with
  | nil => rfl
  | cons line lines ih =>
    rw [List.mapM_cons, ih]
    rfl

theorem optional?_text (text : Option String) :
    ((optionalText text).reread conversion).optional? Node.string? = some text := by
  cases text <;> rfl

theorem ofNode?_type (type : SlotType) :
    SlotType.ofNode? (type.toJson.reread conversion) = some type := by
  rw [SlotType.toJson, reread]
  cases type <;> decide +kernel

theorem ofNode?_objectId (id : ObjectId) :
    ObjectId.ofNode? (id.toJson.reread conversion) = some id := by
  cases id with
  | index value =>
    have hread : ((int value.toInt).reread conversion).int64? = some value := by
      show (if _ then some (Int64.ofInt value.toInt) else none) = _
      rw [if_pos ⟨value.minValue_le_toInt, value.toInt_le⟩, Int64.ofInt_toInt]
    rw [ObjectId.ofNode?, ObjectId.toJson, hread]
  | name value => rfl

/-- A value without objects in it: the reader has a value for it, which comes through plain data. -/
structure Flat (conversion : Conversion) (json : Json) : Prop where
  fits : ∀ room, Fits (room + 1) json
  plain : Node.IsPlain (json.reread conversion)

theorem flat_string (text : String) : Flat conversion (string text) :=
  ⟨fun _ => .string _ text, string text, rfl, rfl⟩

theorem flat_bool (b : Bool) : Flat conversion (bool b) :=
  ⟨fun _ => .bool _ b, bool b, rfl, rfl⟩

theorem flat_text (text : Option String) : Flat conversion (optionalText text) := by
  cases text with
  | none => exact ⟨fun _ => .null _, null, rfl, rfl⟩
  | some text => exact flat_string text

theorem flat_type (type : SlotType) : Flat conversion type.toJson :=
  flat_string _

theorem flat_objectId (id : ObjectId) : Flat conversion id.toJson := by
  cases id with
  | index value => exact ⟨fun _ => .int _ value.minValue_le_toInt value.toInt_le, int _, rfl, rfl⟩
  | name value => exact flat_string value

theorem isPlain_float {x : Float} (h : conversion.Legible x) :
    Node.IsPlain ((float x).reread conversion) := by
  rw [reread]
  split
  · rename_i hx
    obtain ⟨y, hy⟩ := Option.isSome_iff_exists.mp (h hx)
    exact hy ▸ ⟨float y, rfl, rfl⟩
  · exact ⟨null, rfl, rfl⟩

/-- A double that is not legible stands for no data. -/
theorem plain?_float {x : Float} (h : ¬conversion.Legible x) :
    ((float x).reread conversion).plain? = none := by
  obtain ⟨hx, hnone⟩ := Classical.not_imp.mp h
  rw [reread, if_pos hx, Option.not_isSome_iff_eq_none.mp hnone]
  rfl

theorem flat_float {x : Float} (h : conversion.Legible x) : Flat conversion (float x) :=
  ⟨fun _ => .float _ x, isPlain_float h⟩

theorem flat_array {items : List Json} (h : ∀ item ∈ items, ∀ room, Fits room item)
    (hplain : ∀ item ∈ items, Node.IsPlain (item.reread conversion)) :
    Flat conversion (array items) where
  fits := fun room => .array fun item hitem => h item hitem room
  plain := by
    rw [reread, rereadItems_eq_map]
    refine Node.isPlain_array fun item hitem => ?_
    obtain ⟨own, hown, rfl⟩ := List.mem_map.mp hitem
    exact hplain own hown

theorem flat_floats {values : List Float} (h : ∀ x ∈ values, conversion.Legible x) :
    Flat conversion (array (values.map float)) := by
  refine flat_array (fun item hitem room => ?_) fun item hitem => ?_ <;>
    obtain ⟨x, hx, rfl⟩ := List.mem_map.mp hitem
  · exact .float room x
  · exact isPlain_float (h x hx)

theorem flat_strings (lines : List String) : Flat conversion (array (lines.map string)) := by
  refine flat_array (fun item hitem room => ?_) fun item hitem => ?_ <;>
    obtain ⟨line, -, rfl⟩ := List.mem_map.mp hitem
  · exact .string room line
  · exact ⟨string line, rfl, rfl⟩

end Json

-- ---------------------------------------------------------------------------
-- Fields of records
-- ---------------------------------------------------------------------------

namespace Record

/-- All fields of a record, with the name of its kind. -/
def namedFields (record : Record) : List (String × Json) :=
  ("classname", .string record.className) :: record.fields

/-- The fields of a record as they are read in a document. -/
def fieldNodes (conversion : Conversion) (record : Record) : Node.Fields :=
  record.namedFields.map fun field => (field.1, field.2.reread conversion)

variable {conversion : Conversion}

section Fields

variable {fields : Node.Fields} {name : String}

theorem required_text {text : String} (h : fields.lookup name = some (.string text)) :
    fields.required name Node.string? = some text := by
  rw [Node.Fields.required, h]
  rfl

theorem withDefault_some {α : Type} {decode : Node → Option α} {node : Node} {value : α} (default : α)
    (h : fields.lookup name = some node) (hdecode : decode node = some value) :
    fields.withDefault name decode default = some value := by
  rw [Node.Fields.withDefault, h]
  exact hdecode

theorem optional_text {text : Option String}
    (h : fields.lookup name = some ((optionalText text).reread conversion)) :
    fields.optional name Node.string? = some text :=
  withDefault_some none h (optional?_text text)

end Fields

theorem blockData?_fieldNodes (data : BlockData) (kind : BlockKind) :
    blockData? (fieldNodes conversion (.block data kind)) = some data := by
  rw [blockData?, @required_text _ "uuid" data.uid rfl,
    @optional_text conversion _ "parent_uuid" data.parent rfl,
    @optional_text conversion _ "name" data.name rfl]
  rfl

theorem slotData?_fieldNodes (data : SlotData) (kind : SlotKind) :
    slotData? (fieldNodes conversion (.slot data kind)) = some data := by
  have htype : (fieldNodes conversion (.slot data kind)).withDefault "type" SlotType.ofNode? .unknown =
      some data.type := withDefault_some _ rfl (ofNode?_type data.type)
  have hid : (fieldNodes conversion (.slot data kind)).withDefault "obj_id" ObjectId.ofNode? .default =
      some data.objectId := withDefault_some _ rfl (ofNode?_objectId data.objectId)
  have hflag : (fieldNodes conversion (.slot data kind)).withDefault "optional" Node.bool? false =
      some data.optional := withDefault_some _ rfl rfl
  rw [slotData?, @required_text _ "uuid" data.uid rfl,
    @optional_text conversion _ "parent_uuid" data.owner rfl, @required_text _ "name" data.name rfl, htype,
    @optional_text conversion _ "obj_type" data.objectType rfl, hid, hflag]
  rfl

theorem linkData?_fieldNodes (data : LinkData) :
    linkData? (fieldNodes conversion (.link data)) = some data := by
  rw [linkData?, @required_text _ "uuid" data.uid rfl, @required_text _ "ds1_uuid" data.source rfl,
    @required_text _ "ds2_uuid" data.target rfl]
  rfl

theorem withDefault_text {fields : Node.Fields} {name text : String} (default : String)
    (h : fields.lookup name = some (.string text)) :
    fields.withDefault name Node.string? default = some text :=
  withDefault_some default h rfl

/-- What a field holds where a double should be: what became of the double, if it is a number. -/
theorem withDefault_float {fields : Node.Fields} {name : String} {x : Float} (default : Float)
    (hx : conversion.Legible x) (h : fields.lookup name = some ((float x).reread conversion)) :
    fields.withDefault name Node.float? default =
      if (Binary64.ofFloat x).isFinite then some (conversion.reread x) else none := by
  rw [Node.Fields.withDefault, h]
  exact float?_reread hx

theorem kind?_fieldNodes (data : BlockData) {kind : BlockKind}
    (h : ∀ x ∈ kind.doubles, conversion.Legible x) :
    kind? (fieldNodes conversion (.block data kind)) kind.recordName =
      if kind.isFinite then some (kind.mapDoubles conversion.reread) else none := by
  cases kind with
  | workflow | sequential | timeLoop | ifElse => rfl
  | model setup =>
    obtain ⟨className, inputFile, inputDirectory⟩ := setup
    dsimp only [BlockKind.recordName, kind?]
    rw [@required_text _ "model_classname" className rfl,
      @optional_text conversion _ "model_input_file_name" inputFile rfl,
      @optional_text conversion _ "model_input_file_directory" inputDirectory rfl]
    rfl
  | constant value =>
    cases value with
    | property values propertyId valueType units =>
      have hvalues : (fieldNodes conversion (.block data (.constant (.property values propertyId
          valueType units)))).withDefault "value" (Node.list? Node.float?) [] = _ := list?_floats h
      dsimp only [BlockKind.recordName, kind?]
      rw [hvalues, @withDefault_text _ "property_id" propertyId _ rfl,
        @withDefault_text _ "value_type" valueType _ rfl, @withDefault_text _ "units" units _ rfl,
        BlockKind.isFinite]
      cases values.all fun x => (Binary64.ofFloat x).isFinite <;> rfl
    | quantity value units =>
      dsimp only [BlockKind.recordName, kind?]
      rw [withDefault_float 0.0 (h value List.mem_cons_self) rfl, @withDefault_text _ "units" units _ rfl,
        BlockKind.isFinite]
      cases (Binary64.ofFloat value).isFinite <;> rfl
    | number value =>
      dsimp only [BlockKind.recordName, kind?]
      rw [withDefault_float 0.0 (h value List.mem_cons_self) rfl, BlockKind.isFinite]
      cases (Binary64.ofFloat value).isFinite <;> rfl
  | named name type =>
    have htype : (fieldNodes conversion (.block data (.named name type))).withDefault "type" SlotType.ofNode?
        .unknown = some type := withDefault_some _ rfl (ofNode?_type type)
    dsimp only [BlockKind.recordName, kind?]
    rw [@withDefault_text _ "variable_name" name _ rfl, htype]
    rfl
  | code lines =>
    have hlines : (fieldNodes conversion (.block data (.code lines))).withDefault "code_lines"
        (Node.list? Node.string?) [] = some lines := withDefault_some _ rfl (list?_strings lines)
    dsimp only [BlockKind.recordName, kind?]
    rw [hlines]
    rfl

/-- **The record of a kind is made from the fields that it wrote**, if it is finite. -/
theorem ofFields?_fieldNodes {record : Record} (h : ∀ x ∈ record.doubles, conversion.Legible x) :
    ofFields? record.className (record.fieldNodes conversion) =
      if record.isFinite then some (record.mapDoubles conversion.reread) else none := by
  cases record with
  | link data =>
    rw [className, ofFields?, if_pos rfl, linkData?_fieldNodes]
    rfl
  | slot data kind =>
    obtain ⟨hname, hfind⟩ : kind.recordName ≠ linkName ∧
        SlotKind.all.find? (·.recordName = kind.recordName) = some kind := by
      obtain ⟨direction, external⟩ := kind
      cases direction <;> cases external <;> decide
    rw [className, ofFields?, if_neg hname, hfind]
    dsimp only
    rw [slotData?_fieldNodes]
    rfl
  | block data kind =>
    have hnames : ∀ name ∈ ["WorkflowBlock", "SequentialBlock", "TimeLoopBlock", "IfElseBlock",
        "ModelBlock", "ConstantPropertyBlock", "ConstantPhysicalQuantityBlock", "FloatVariableBlock",
        "CustomNameVariableBlock", "CustomPythonCodeBlock"],
        name ≠ linkName ∧ SlotKind.all.find? (·.recordName = name) = none := by
      decide
    obtain ⟨hname, hfind⟩ := hnames kind.recordName (by
      cases kind with
      | constant value => cases value <;> simp [BlockKind.recordName]
      | _ => simp [BlockKind.recordName])
    rw [className, ofFields?, if_neg hname, hfind]
    dsimp only
    rw [blockData?_fieldNodes, kind?_fieldNodes data h, isFinite]
    cases kind.isFinite <;> rfl

-- ---------------------------------------------------------------------------
-- Records as they stand in a document
-- ---------------------------------------------------------------------------

/-- A record is made from fields by their names, in whatever order they stand. -/
theorem ofFields?_congr {fields others : Node.Fields} (h : ∀ name, fields.lookup name = others.lookup name)
    (className : String) : ofFields? className fields = ofFields? className others := by
  simp only [ofFields?, linkData?, slotData?, blockData?, kind?.eq_def, Node.Fields.required,
    Node.Fields.optional, Node.Fields.withDefault, h]

theorem flat_kindFields {kind : BlockKind} (h : ∀ x ∈ kind.doubles, conversion.Legible x) :
    ∀ field ∈ kindFields kind, Flat conversion field.2 := by
  cases kind with
  | workflow | sequential | timeLoop | ifElse => exact fun _ => nofun
  | constant value =>
    cases value with
    | property values =>
      have hvalues : Flat conversion (.array (values.map Json.float)) := flat_floats h
      simp [kindFields, flat_string, hvalues]
    | quantity value | number value =>
      simp [kindFields, flat_string, flat_float (h value List.mem_cons_self)]
  | _ => simp [kindFields, flat_string, flat_text, flat_type, flat_strings]

/-- All values of fields of records are flat, if their doubles are legible. -/
theorem flat_namedFields {record : Record} (h : ∀ x ∈ record.doubles, conversion.Legible x) :
    ∀ field ∈ record.namedFields, Flat conversion field.2 := by
  refine List.forall_mem_cons.mpr ⟨flat_string _, ?_⟩
  cases record with
  | block data kind =>
    refine List.forall_mem_append.mpr ⟨?_, flat_kindFields h⟩
    simp [flat_string, flat_text]
  | slot data kind =>
    simp [fields, flat_string, flat_text, flat_type, flat_objectId, flat_bool]
  | link data => simp [fields, flat_string]

/-- No two fields of a record have the same name. -/
theorem nodup_namedFields (record : Record) : (record.namedFields.map Prod.fst).Nodup := by
  cases record with
  | block data kind =>
    cases kind with
    | constant value => cases value <;> simp [namedFields, fields, kindFields]
    | _ => simp [namedFields, fields, kindFields]
  | slot data kind => simp [namedFields, fields]
  | link data => simp [namedFields, fields]

/-- What a record is written as is read as an object of its fields. -/
theorem reread_toJson (record : Record) :
    record.toJson.reread conversion = .object (record.fieldNodes conversion).named :=
  congrArg Node.object (rereadFields_eq_named record.namedFields)

/-- What a record is written as is read as that record with its doubles reread, if it is finite, and else
as none. -/
theorem exists_ofNode? {record : Record} (h : ∀ x ∈ record.doubles, conversion.Legible x) :
    ∃ json, (record.toJson.reread conversion).plain? = some json ∧
      ofNode? json.node =
        if record.isFinite then some (record.mapDoubles conversion.reread) else none := by
  have hplain : ∀ field ∈ record.fieldNodes conversion, Node.IsPlain field.2 := by
    rintro field hfield
    obtain ⟨own, hown, rfl⟩ := List.mem_map.mp hfield
    exact (flat_namedFields h own hown).plain
  have hnodup : ((record.fieldNodes conversion).map Prod.fst).Nodup := by
    rw [fieldNodes, List.map_map]
    exact record.nodup_namedFields
  obtain ⟨plain, hobject, hlookup⟩ := Node.exists_plain?_object hplain hnodup
  refine ⟨.object plain, (congrArg Node.plain? record.reread_toJson).trans hobject, ?_⟩
  have hclass : Node.Fields.required (Node.Fields.ofPlain plain) "classname" Node.string? =
      some record.className :=
    required_text ((hlookup _).trans rfl)
  rw [node, ofNode?, Node.namedFields?_nodeFields]
  dsimp only [Option.bind_eq_bind, Option.bind_some]
  rw [hclass]
  dsimp only [Option.bind_some]
  rw [ofFields?_congr hlookup, ofFields?_fieldNodes h]

/-- What a record is written as stands for no data if one of its doubles is not legible. -/
theorem plain?_toJson_eq_none {record : Record} {x : Float} (hx : x ∈ record.doubles)
    (h : ¬conversion.Legible x) : (record.toJson.reread conversion).plain? = none := by
  obtain ⟨field, hfield, hnone⟩ : ∃ field ∈ record.fieldNodes conversion, field.2.plain? = none := by
    cases record with
    | slot | link => cases hx
    | block data kind =>
      cases kind with
      | constant value =>
        cases value with
        | property values propertyId valueType units =>
          refine ⟨("value", (Json.array (values.map Json.float)).reread conversion), ?_, ?_⟩
          · simp [fieldNodes, namedFields, fields, kindFields]
          · rw [reread, rereadItems_eq_map, List.map_map]
            exact Node.plain?_array_eq_none (List.mem_map_of_mem hx) (plain?_float h)
        | quantity value units | number value =>
          obtain rfl := List.mem_singleton.mp hx
          refine ⟨("value", (Json.float x).reread conversion), ?_, plain?_float h⟩
          simp [fieldNodes, namedFields, fields, kindFields]
      | _ => cases hx
  rw [reread_toJson]
  exact Node.plain?_object_eq_none hfield hnone

end Record

-- ---------------------------------------------------------------------------
-- Documents
-- ---------------------------------------------------------------------------

namespace Document

variable {conversion : Conversion} {records : List Record}

theorem fits_document (records : List Record) :
    Fits Node.maxDepth (.object [("elements", .array (records.map Record.toJson))]) := by
  refine .object fun field hfield => ?_
  rw [List.mem_singleton.mp hfield]
  refine .array fun json hjson => ?_
  obtain ⟨record, -, rfl⟩ := List.mem_map.mp hjson
  -- a value fits or not, whatever the conversion
  exact .object fun field hfield =>
    (Record.flat_namedFields (fun x _ => Conversion.legible_nearest x) field hfield).fits 123

/-- A document is read as the records that can be made of the data that its values stand for. -/
theorem read?_toText_eq (conversion : Conversion) (records : List Record) :
    read? (toText records) conversion =
      ((records.map fun record => record.toJson.reread conversion).mapM Node.plain?).map
        (·.filterMap fun item => Record.ofNode? item.node) := by
  have hitems : rereadItems conversion (records.map Record.toJson) =
      records.map fun record => record.toJson.reread conversion := by
    rw [rereadItems_eq_map, List.map_map]
    rfl
  rw [read?, toText, (fits_document records).read_pretty, ← hitems]
  show (do
    let items ← (rereadItems conversion (records.map Record.toJson)).mapM Node.plain?
    return items.filterMap fun item : Json => Record.ofNode? item.node) = _
  cases (rereadItems conversion (records.map Record.toJson)).mapM Node.plain? <;> rfl

/-- **What is read are the records that are finite**, in the order in which they were written and with their
doubles reread. -/
theorem read?_toText (h : ∀ record ∈ records, ∀ x ∈ record.doubles, conversion.Legible x) :
    read? (toText records) conversion =
      some ((records.filter Record.isFinite).map (Record.mapDoubles conversion.reread)) := by
  rw [read?_toText_eq]
  induction records with
  | nil => rfl
  | cons record records ih =>
    obtain ⟨hrecord, hrecords⟩ := List.forall_mem_cons.mp h
    obtain ⟨json, hjson, hread⟩ := Record.exists_ofNode? hrecord
    obtain ⟨items, hitems, hrest⟩ := Option.map_eq_some_iff.mp (ih hrecords)
    rw [List.map_cons, List.mapM_cons, hjson, hitems]
    show some (List.filterMap _ (json :: items)) = _
    rw [List.filterMap_cons, hread, List.filter_cons, hrest]
    cases record.isFinite <;> rfl

/-- Nothing is read if one of the doubles is not legible. -/
theorem read?_toText_eq_none {record : Record} (hrecord : record ∈ records) {x : Float}
    (hx : x ∈ record.doubles) (h : ¬conversion.Legible x) :
    read? (toText records) conversion = none := by
  rw [read?_toText_eq, Option.map_eq_none_iff]
  induction records with
  | nil => cases hrecord
  | cons other records ih =>
    rw [List.map_cons, List.mapM_cons]
    rcases List.mem_cons.mp hrecord with rfl | hrecord
    · rw [Record.plain?_toJson_eq_none hx h]
      rfl
    · rw [ih hrecord]
      cases (other.toJson.reread conversion).plain? <;> rfl

theorem read?_toText_eq_some_iff (conversion : Conversion) (records : List Record) :
    read? (toText records) conversion = some records ↔
      ∀ record ∈ records, ∀ x ∈ record.doubles, conversion.reread? x = some x := by
  by_cases hlegible : ∀ record ∈ records, ∀ x ∈ record.doubles, conversion.Legible x
  · rw [read?_toText hlegible, Option.some.injEq, Record.map_filter_eq_self_iff hlegible]
  · obtain ⟨record, hrecord, x, hx, h⟩ : ∃ record ∈ records, ∃ x ∈ record.doubles,
        ¬conversion.Legible x := by
      simpa using hlegible
    rw [read?_toText_eq_none hrecord hx h]
    refine iff_of_false nofun fun hback => h fun _ => ?_
    rw [hback record hrecord x hx, Option.isSome_some]

/-- **A document is read as it was written** exactly if each double in it comes back. Under a conversion that
takes the nearest double, these are the documents of which all records are finite. -/
theorem read?_toText_eq_iff (records : List Record) :
    (∀ conversion : Conversion, read? (toText records) conversion = some records ↔
      ∀ record ∈ records, ∀ x ∈ record.doubles, conversion.reread? x = some x) ∧
    (read? (toText records) .nearest = some records ↔ ∀ record ∈ records, record.isFinite = true) := by
  refine ⟨fun conversion => read?_toText_eq_some_iff conversion records, ?_⟩
  rw [read?_toText_eq_some_iff]
  refine forall₂_congr fun record _ => ?_
  rw [Record.isFinite_iff]
  exact forall₂_congr fun x _ => Conversion.reread?_nearest_eq_self_iff

end Document

end SlotFlow
