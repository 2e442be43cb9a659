import SlotFlow.Proofs.Json.Numerals
/-!
# JSON is read as it was written

The text of a piece of data, read again, is that piece of data, apart from its doubles. A double that is not
finite has no text, and is written as absent; for the others it is up to the conversion which doubles they
become. What is nested too deeply, or an integer of more than 64 bits, is written without difficulty but has
no value for the reader.

* `Json.Fits` — the reader has values for all parts of a piece of data;
* `Json.reread` — what the text of a piece of data is read as;
* `Json.ReadsBack` — a value is read as that, wherever its text stands.

## Results

* `Json.Node.readString_flatMap` — the text of a string is read as that string;
* `Json.Fits.readsBack` — by induction on the data, the text of a value is read alike everywhere;
* `Json.Fits.read_pretty` — so is the text of a document.
-/

namespace SlotFlow.Json

-- ---------------------------------------------------------------------------
-- Strings
-- ---------------------------------------------------------------------------

namespace Node

/-- The unit of a control character stands for that character, whatever follows. -/
theorem textOf_unit {n : Nat} (h : n < 0x20) (pieces : List Piece) :
    textOf (.unit n :: pieces) = (textOf pieces).map (Char.ofNat n :: ·) := by
  have hhigh : isHigh n = false := by
    simp [isHigh]
    omega
  have hlow : isLow n = false := by
    simp [isLow]
    omega
  cases pieces with
  | nil => simp [textOf, hhigh, hlow]
  | cons piece pieces =>
    cases piece with
    | char c => simp [textOf, hhigh, hlow]
    | unit m => simp [textOf, hhigh, hlow]

theorem unitValue?_digitChar {n : Nat} (h : n < 0x20) :
    unitValue? '0' '0' (Nat.digitChar (n / 16)) (Nat.digitChar (n % 16)) = some n := by
  have all : ∀ k : Fin 32, unitValue? '0' '0' (Nat.digitChar (k.val / 16))
    (Nat.digitChar (k.val % 16)) = some k.val := by decide
  exact all ⟨n, h⟩

/-- A character is read as one piece, which stands for it. -/
theorem exists_readPieces_escape (c : Char) :
    ∃ piece, (∀ pieces, textOf (piece :: pieces) = (textOf pieces).map (c :: ·)) ∧
      ∀ acc rest, readPieces acc (escape c ++ rest) = readPieces (piece :: acc) rest := by
  unfold escape
  split
  case h_8 hquote hbackslash _ _ _ _ _ =>
    split
    · rename_i hcontrol
      refine ⟨.unit c.toNat, fun pieces => ?_, fun acc rest => ?_⟩
      · rw [textOf_unit hcontrol, Char.ofNat_toNat]
      · simp only [List.cons_append, List.nil_append]
        rw [readPieces, unitValue?_digitChar hcontrol]
    · rename_i hplain
      refine ⟨.char c, fun pieces => rfl, fun acc rest => ?_⟩
      rw [List.singleton_append, readPieces.eq_def]
      split <;> simp_all
  all_goals exact ⟨.char _, fun _ => rfl, fun _ _ => rfl⟩

/-- **The text of a string is read as that string.** -/
theorem readString_flatMap (text : String) (rest : List Char) :
    readString (text.toList.flatMap escape ++ '"' :: rest) = some (some text, rest) := by
  have hpieces (cs : List Char) : ∃ pieces, textOf pieces = some cs ∧
      ∀ acc, readPieces acc (cs.flatMap escape ++ '"' :: rest) =
        some (pieces.reverse ++ acc, rest) := by
    induction cs with
    | nil => exact ⟨[], rfl, fun _ => rfl⟩
    | cons c cs ih =>
      obtain ⟨piece, htext, hread⟩ := exists_readPieces_escape c
      obtain ⟨pieces, htexts, hreads⟩ := ih
      refine ⟨piece :: pieces, ?_, fun acc => ?_⟩
      · rw [htext, htexts]
        rfl
      · rw [List.flatMap_cons, List.append_assoc, hread, hreads, List.reverse_cons,
          List.append_assoc]
        rfl
  obtain ⟨pieces, htext, hread⟩ := hpieces text.toList
  rw [readString, hread, List.append_nil]
  dsimp only [Option.map_some]
  rw [List.reverse_reverse, htext, Option.map_some, String.ofList_toList]

-- ---------------------------------------------------------------------------
-- Where a value starts
-- ---------------------------------------------------------------------------

/-- A text that starts with a value: with no blank, and not with the end of an array. -/
def Starts (cs : List Char) : Prop :=
  ∃ c rest, cs = c :: rest ∧ isBlank c = false ∧ c ≠ ']'

variable {conversion : Conversion} {cs rest : List Char}

theorem Starts.append (h : Starts cs) (rest : List Char) : Starts (cs ++ rest) := by
  obtain ⟨c, other, rfl, hc⟩ := h
  exact ⟨c, other ++ rest, rfl, hc⟩

theorem Starts.skipBlanks (h : Starts cs) : skipBlanks cs = cs := by
  obtain ⟨c, rest, rfl, hblank, -⟩ := h
  rw [Node.skipBlanks, List.dropWhile_cons_of_neg (by simp [hblank])]

theorem skipBlanks_newLine (level : Nat) (cs : List Char) :
    skipBlanks (newLine level ++ cs) = skipBlanks cs := by
  have hblank : ∀ c ∈ newLine level, isBlank c = true := by
    intro c hc
    rcases List.mem_cons.mp hc with rfl | hc
    · rfl
    · rw [List.eq_of_mem_replicate hc]
      rfl
  exact List.dropWhile_append_of_pos hblank

theorem starts_of_readNumber {answer : Node × List Char} (h : readNumber conversion cs = some answer) :
    Starts cs := by
  have hdigit {c : Char} {rest : List Char} (hc : c.isDigit = true) : Starts (c :: rest) := by
    refine ⟨c, rest, rfl, ?_, ?_⟩
    · by_contra hblank
      rw [Bool.not_eq_false] at hblank
      simp only [isBlank, Bool.or_eq_true, decide_eq_true_eq] at hblank
      rcases hblank with ((rfl | rfl) | rfl) | rfl <;> cases hc
    · rintro rfl
      cases hc
  rw [readNumber.eq_def] at h
  split at h
  · exact ⟨'-', _, rfl, rfl, by decide⟩
  · cases cs with
    | nil => cases h
    | cons c cs =>
      by_cases hc : c.isDigit = true
      · exact hdigit hc
      · rw [readUnsigned.eq_def] at h
        split at h
        · rename_i heq
          cases heq
          exact absurd rfl hc
        · rw [List.takeWhile_cons_of_neg hc, if_pos rfl] at h
          cases h

/-- A number is a value. -/
theorem readValue_of_readNumber {answer : Node × List Char} (h : readNumber conversion cs = some answer)
    (fuel room : Nat) : readValue conversion (fuel + 1) room cs = some answer := by
  rw [readValue.eq_def]
  dsimp only
  split
  case h_7 => exact h
  all_goals cases h

end Node

-- ---------------------------------------------------------------------------
-- Data that can be read back
-- ---------------------------------------------------------------------------

/-- The reader has values for all parts of a piece of data, where `room` levels of nesting are allowed. -/
inductive Fits : Nat → Json → Prop where
  | null (room : Nat) : Fits room null
  | bool (room : Nat) (b : Bool) : Fits room (bool b)
  | int (room : Nat) {i : Int} (hleast : Int64.minValue.toInt ≤ i)
      (hmost : i ≤ Int64.maxValue.toInt) : Fits room (int i)
  | float (room : Nat) (x : Float) : Fits room (float x)
  | string (room : Nat) (s : String) : Fits room (string s)
  | array {room : Nat} {items : List Json} (h : ∀ item ∈ items, Fits room item) :
      Fits (room + 1) (array items)
  | object {room : Nat} {fields : List (String × Json)} (h : ∀ field ∈ fields, Fits room field.2) :
      Fits (room + 1) (object fields)

section Reread

variable (conversion : Conversion)

mutual

/-- What the text of a piece of data is read as. -/
def reread : Json → Node
  | null => .null
  | bool b => .bool b
  | int i => .int i
  | float x =>
    if (Binary64.ofFloat x).isFinite then ((conversion.reread? x).map .float).getD .unusable
    else .null
  | string s => .string s
  | array items => .array (rereadItems items)
  | object fields => .object (rereadFields fields)

/-- What the items of an array are read as. -/
def rereadItems : List Json → List Node
  | [] => []
  | item :: items => reread item :: rereadItems items

/-- What the fields of an object are read as. -/
def rereadFields : List (String × Json) → List (Option String × Node)
  | [] => []
  | (name, value) :: fields => (some name, reread value) :: rereadFields fields

end

end Reread

variable {conversion : Conversion}

open Node

/-- The text of a value is read alike, wherever it stands. -/
structure ReadsBack (conversion : Conversion) (room : Nat) (json : Json) : Prop where
  starts : ∀ level, Starts (json.prettyChars level)
  reads : ∀ level fuel rest, Clear rest → (json.prettyChars level).length ≤ fuel →
    readValue conversion fuel room (json.prettyChars level ++ rest) =
      some (json.reread conversion, rest)

/-- What is written without nesting is read as soon as a reader is called. -/
theorem ReadsBack.of_flat {room : Nat} {json : Json} {cs : List Char}
    (hchars : ∀ level, json.prettyChars level = cs) (hstarts : Starts cs)
    (h : ∀ fuel rest, Clear rest →
      readValue conversion (fuel + 1) room (cs ++ rest) = some (json.reread conversion, rest)) :
    ReadsBack conversion room json where
  starts := fun level => hchars level ▸ hstarts
  reads := by
    intro level fuel rest hrest hfuel
    obtain ⟨c, others, hcons, -⟩ := hstarts
    rw [hchars] at hfuel ⊢
    obtain ⟨fuel, rfl⟩ : ∃ smaller, fuel = smaller + 1 := by
      rw [hcons, List.length_cons] at hfuel
      exact ⟨fuel - 1, by omega⟩
    exact h fuel rest hrest

theorem readsBack_of_readNumber {room : Nat} {json : Json} {cs : List Char}
    (hchars : ∀ level, json.prettyChars level = cs)
    (h : ∀ rest, Clear rest →
      readNumber conversion (cs ++ rest) = some (json.reread conversion, rest)) :
    ReadsBack conversion room json := by
  have hstarts := starts_of_readNumber (h [] clear_nil)
  rw [List.append_nil] at hstarts
  exact .of_flat hchars hstarts fun fuel rest hrest =>
    readValue_of_readNumber (h rest hrest) fuel room

theorem readsBack_of_null {room : Nat} {json : Json}
    (hchars : ∀ level, json.prettyChars level = "null".toList)
    (hreread : json.reread conversion = .null) : ReadsBack conversion room json :=
  .of_flat hchars ⟨'n', _, rfl, rfl, by decide⟩ fun _ _ _ => hreread ▸ rfl

theorem readsBack_bool (room : Nat) (b : Bool) : ReadsBack conversion room (bool b) := by
  cases b
  · exact .of_flat (fun _ => rfl) ⟨'f', _, rfl, rfl, by decide⟩ fun _ _ _ => rfl
  · exact .of_flat (fun _ => rfl) ⟨'t', _, rfl, rfl, by decide⟩ fun _ _ _ => rfl

theorem readsBack_int (room : Nat) {i : Int} (hleast : Int64.minValue.toInt ≤ i)
    (hmost : i ≤ Int64.maxValue.toInt) : ReadsBack conversion room (int i) :=
  readsBack_of_readNumber (fun _ => rfl) fun _ hrest => readNumber_int hleast hmost hrest

theorem readsBack_float (room : Nat) (x : Float) : ReadsBack conversion room (float x) := by
  by_cases hfinite : (Binary64.ofFloat x).isFinite = true
  · have hchars : ∀ level, (float x).prettyChars level = (NumberFormat.json.render x).toList := by
      intro level
      obtain ⟨_, _, _, hx⟩ := Binary64.isFinite_iff.mp hfinite
      rw [prettyChars, floatChars, hx]
    refine readsBack_of_readNumber hchars fun rest hrest => ?_
    rw [readNumber_float hfinite hrest, reread, if_pos hfinite]
  · refine readsBack_of_null (fun level => ?_) (by rw [reread, if_neg hfinite])
    rw [prettyChars, floatChars]
    cases hx : Binary64.ofFloat x with
    | finite => exact absurd (congrArg Binary64.isFinite hx) hfinite
    | nan | infinite => rfl

theorem readsBack_string (room : Nat) (s : String) : ReadsBack conversion room (string s) := by
  have hchars : ∀ level, (string s).prettyChars level = stringChars s := fun _ => rfl
  refine .of_flat hchars ⟨'"', _, rfl, rfl, by decide⟩ fun fuel rest _ => ?_
  rw [stringChars, List.cons_append, List.append_assoc, List.singleton_append, readValue,
    readString_flatMap]
  rfl

-- ---------------------------------------------------------------------------
-- Arrays
-- ---------------------------------------------------------------------------

/-- Neither a comma nor the start of a line goes on with a number. -/
theorem clear_of_head {c : Char} (hc : c = ',' ∨ c = '\n') (rest : List Char) : Clear (c :: rest) := by
  refine ⟨?_, ?_, ?_, ?_⟩
  · rintro d ⟨⟩
    rcases hc with rfl | rfl <;> rfl
  all_goals
    rw [List.head?_cons, ne_eq, Option.some.injEq]
    rcases hc with rfl | rfl <;> decide

theorem clear_prettyItems (level : Nat) (items : List Json) (rest : List Char) :
    Clear (prettyItems level items ++ rest) := by
  cases items with
  | nil => exact clear_of_head (.inr rfl) _
  | cons item items => exact clear_of_head (.inl rfl) _

/-- The items of an array are read alike everywhere, if each of them is. -/
theorem readItems_pretty {room : Nat} {item : Json} {items : List Json}
    (h : ∀ other ∈ item :: items, ReadsBack conversion room other) (level : Nat) (acc : List Node)
    (rest : List Char) {fuel : Nat}
    (hfuel : (item.prettyChars (level + 1)).length + (prettyItems level items).length ≤ fuel) :
    readItems conversion fuel room acc (item.prettyChars (level + 1) ++ (prettyItems level items ++ rest)) =
      some (acc.reverse ++ rereadItems conversion (item :: items), rest) := by
  induction items generalizing item acc fuel with
  | nil =>
    rw [prettyItems] at hfuel ⊢
    rw [List.length_append, List.length_singleton] at hfuel
    obtain ⟨fuel, rfl⟩ : ∃ smaller, fuel = smaller + 1 := ⟨fuel - 1, by omega⟩
    have hread := (h item List.mem_cons_self).reads (level + 1) fuel
      (prettyItems level [] ++ rest) (clear_prettyItems ..) (by omega)
    rw [prettyItems] at hread
    rw [readItems, hread]
    dsimp only
    rw [List.append_assoc, skipBlanks_newLine]
    show some ((item.reread conversion :: acc).reverse, rest) = _
    rw [List.reverse_cons]
    rfl
  | cons next items ih =>
    rw [prettyItems] at hfuel ⊢
    simp only [List.length_cons, List.length_append] at hfuel
    obtain ⟨fuel, rfl⟩ : ∃ smaller, fuel = smaller + 1 := ⟨fuel - 1, by omega⟩
    have hread := (h item List.mem_cons_self).reads (level + 1) fuel
      (prettyItems level (next :: items) ++ rest) (clear_prettyItems ..) (by omega)
    have hstarts := ((h next (by simp)).starts (level + 1)).append (prettyItems level items ++ rest)
    rw [prettyItems] at hread
    rw [readItems, hread]
    show readItems conversion fuel room (item.reread conversion :: acc) (skipBlanks (newLine (level + 1) ++
      next.prettyChars (level + 1) ++ prettyItems level items ++ rest)) = _
    rw [List.append_assoc, List.append_assoc, skipBlanks_newLine, hstarts.skipBlanks,
      ih (fun other ho => h other (List.mem_cons_of_mem _ ho)) _ (by omega), List.reverse_cons,
      List.append_assoc]
    rfl

theorem readsBack_array {room : Nat} {items : List Json}
    (h : ∀ item ∈ items, ReadsBack conversion room item) :
    ReadsBack conversion (room + 1) (array items) := by
  cases items with
  | nil => exact .of_flat (fun _ => rfl) ⟨'[', _, rfl, rfl, by decide⟩ fun _ _ _ => rfl
  | cons item items =>
    refine ⟨fun level => ⟨'[', _, rfl, rfl, by decide⟩, fun level fuel rest _ hfuel => ?_⟩
    rw [prettyChars] at hfuel ⊢
    simp only [List.length_cons, List.length_append] at hfuel
    obtain ⟨fuel, rfl⟩ : ∃ smaller, fuel = smaller + 1 := ⟨fuel - 1, by omega⟩
    have hitems := @readItems_pretty _ room item items h level [] rest fuel (by omega)
    have hstarts := ((h item List.mem_cons_self).starts (level + 1)).append
      (prettyItems level items ++ rest)
    have hskip : skipBlanks (newLine (level + 1) ++ item.prettyChars (level + 1) ++
        prettyItems level items ++ rest) =
        item.prettyChars (level + 1) ++ (prettyItems level items ++ rest) := by
      rw [List.append_assoc, List.append_assoc, skipBlanks_newLine, hstarts.skipBlanks]
    obtain ⟨c, others, hcons, -, hc⟩ := hstarts
    rw [List.cons_append, readValue, hskip]
    rw [hcons] at hitems ⊢
    split
    · rename_i heq
      cases heq
      exact absurd rfl hc
    · rw [Nat.add_sub_cancel, hitems]
      rfl

-- ---------------------------------------------------------------------------
-- Objects
-- ---------------------------------------------------------------------------

theorem clear_prettyFields (level : Nat) (fields : List (String × Json)) (rest : List Char) :
    Clear (prettyFields level fields ++ rest) := by
  cases fields with
  | nil => exact clear_of_head (.inr rfl) _
  | cons field fields => exact clear_of_head (.inl rfl) _

/-- Reading a field, up to what follows its value. -/
theorem readFields_field {room fuel : Nat} {value : Json} (h : ReadsBack conversion room value) (level : Nat)
    (hfuel : (value.prettyChars level).length ≤ fuel) (name : String)
    (acc : List (Option String × Node)) {rest : List Char} (hrest : Clear rest) :
    readFields conversion (fuel + 1) room acc
        (stringChars name ++ ':' :: ' ' :: (value.prettyChars level ++ rest)) =
      match skipBlanks rest with
      | ',' :: rest =>
        readFields conversion fuel room ((some name, value.reread conversion) :: acc) (skipBlanks rest)
      | '}' :: rest => some (((some name, value.reread conversion) :: acc).reverse, rest)
      | _ => none := by
  have hstarts := ((h.starts level).append rest).skipBlanks
  have hspace : skipBlanks (' ' :: (value.prettyChars level ++ rest)) =
      value.prettyChars level ++ rest := hstarts
  have hcolon (cs : List Char) : skipBlanks (':' :: cs) = ':' :: cs := rfl
  rw [stringChars, List.cons_append, List.append_assoc, List.singleton_append, readFields,
    readString_flatMap]
  simp only [hcolon, hspace]
  rewrite [h.reads level fuel rest hrest hfuel]
  rfl

/-- Where the next field starts. -/
theorem skipBlanks_field (level : Nat) (name : String) (value after rest : List Char) :
    skipBlanks (newLine level ++ stringChars name ++ ':' :: ' ' :: (value ++ after) ++ rest) =
      stringChars name ++ ':' :: ' ' :: (value ++ (after ++ rest)) := by
  have hstarts : Starts (stringChars name ++ ':' :: ' ' :: (value ++ (after ++ rest))) :=
    ⟨'"', _, rfl, rfl, by decide⟩
  rw [List.append_assoc, List.append_assoc, skipBlanks_newLine, List.cons_append, List.cons_append,
    List.append_assoc, hstarts.skipBlanks]

/-- The fields of an object are read alike everywhere, if the value of each of them is. -/
theorem readFields_pretty {room : Nat} {name : String} {value : Json} {fields : List (String × Json)}
    (h : ∀ field ∈ (name, value) :: fields, ReadsBack conversion room field.2) (level : Nat)
    (acc : List (Option String × Node)) (rest : List Char) {fuel : Nat}
    (hfuel : (value.prettyChars (level + 1)).length + (prettyFields level fields).length ≤ fuel) :
    readFields conversion (fuel + 1) room acc (stringChars name ++ ':' :: ' ' ::
        (value.prettyChars (level + 1) ++ (prettyFields level fields ++ rest))) =
      some (acc.reverse ++ rereadFields conversion ((name, value) :: fields), rest) := by
  have hvalue : ReadsBack conversion room value := h _ List.mem_cons_self
  rw [readFields_field hvalue (level + 1) (by omega) name acc (clear_prettyFields ..)]
  induction fields generalizing name value acc fuel with
  | nil =>
    rw [prettyFields, List.append_assoc, skipBlanks_newLine]
    show some (((some name, value.reread conversion) :: acc).reverse, rest) = _
    rw [List.reverse_cons]
    rfl
  | cons next fields ih =>
    obtain ⟨nextName, nextValue⟩ := next
    rw [prettyFields] at hfuel ⊢
    simp only [List.length_cons, List.length_append] at hfuel
    obtain ⟨fuel, rfl⟩ : ∃ smaller, fuel = smaller + 1 := ⟨fuel - 1, by omega⟩
    show readFields conversion (fuel + 1) room ((some name, value.reread conversion) :: acc)
      (skipBlanks (newLine (level + 1) ++ stringChars nextName ++ ':' :: ' ' ::
        (nextValue.prettyChars (level + 1) ++ prettyFields level fields) ++ rest)) = _
    have hnext : ReadsBack conversion room nextValue := h (nextName, nextValue) (by simp)
    rw [skipBlanks_field, readFields_field hnext (level + 1) (by omega) _ _ (clear_prettyFields ..),
      ih (fun field hfield => h field (List.mem_cons_of_mem _ hfield)) _ (by omega) hnext,
      List.reverse_cons, List.append_assoc]
    rfl

theorem readsBack_object {room : Nat} {fields : List (String × Json)}
    (h : ∀ field ∈ fields, ReadsBack conversion room field.2) :
    ReadsBack conversion (room + 1) (object fields) := by
  cases fields with
  | nil => exact .of_flat (fun _ => rfl) ⟨'{', _, rfl, rfl, by decide⟩ fun _ _ _ => rfl
  | cons field fields =>
    obtain ⟨name, value⟩ := field
    refine ⟨fun level => ⟨'{', _, rfl, rfl, by decide⟩, fun level fuel rest _ hfuel => ?_⟩
    rw [prettyChars] at hfuel ⊢
    simp only [List.length_cons, List.length_append] at hfuel
    obtain ⟨fuel, rfl⟩ : ∃ smaller, fuel = smaller + 2 := ⟨fuel - 2, by omega⟩
    have hfields := @readFields_pretty _ room name value fields h level [] rest fuel (by omega)
    rw [List.cons_append, readValue, skipBlanks_field]
    show (readFields conversion (fuel + 1) room [] (stringChars name ++ ':' :: ' ' ::
      (value.prettyChars (level + 1) ++ (prettyFields level fields ++ rest)))).map _ = _
    rw [hfields]
    rfl

-- ---------------------------------------------------------------------------
-- Values and documents
-- ---------------------------------------------------------------------------

/-- **A value is read alike everywhere**, if the reader has values for all of its parts. -/
theorem Fits.readsBack {room : Nat} {json : Json} (h : Fits room json) : ReadsBack conversion room json := by
  induction h with
  | null room => exact readsBack_of_null (fun _ => rfl) rfl
  | bool room b => exact readsBack_bool room b
  | int room hleast hmost => exact readsBack_int room hleast hmost
  | float room x => exact readsBack_float room x
  | string room s => exact readsBack_string room s
  | array _ ih => exact readsBack_array ih
  | object _ ih => exact readsBack_object ih

/-- **A document is read as its data is.** -/
theorem Fits.read_pretty {json : Json} (h : Fits maxDepth json) :
    Node.read json.pretty conversion = some (json.reread conversion) := by
  have hback : ReadsBack conversion maxDepth json := h.readsBack
  have hread := hback.reads 0 (2 * (json.prettyChars 0).length + 2) [] clear_nil (by omega)
  rw [List.append_nil] at hread
  rw [Node.read, pretty, String.toList_ofList, (hback.starts 0).skipBlanks, hread]
  rfl

end SlotFlow.Json
