/-
Records as objects.

The fields of an object give the parts of a record when no key stands twice, every key is the
name of a part, and each part stands under its name. A part may be left out where its value is
the one it would have anyway. The order of the fields is free. A reader that asks for a part by
its name finds its value, and finds nothing under a name that is not one of the record.

* `Json.Part`, `Json.Gives`: the parts of a record, and the fields that give them.
* `Json.gives_self`: the parts give themselves, in their own order.
* `Datum.argument?_object`: what an object has under a name.
* `Json.Gives.required?`, `Json.Gives.orElse?`: a part is read from its value.
* `Json.Gives.required?_eq_none`: no other part is read.
-/
import Directives.Datum
import Mathlib.Data.List.Nodup

namespace Directives

/-! ### Data of JSON values -/

namespace Datum

lemma ofItems_eq (items : List Json) : ofItems items = items.map ofJson := by
  induction items with
  | nil => rfl
  | cons item rest ih => rw [ofItems, ih, List.map_cons]

lemma ofFields_eq (fields : List (Text × Json)) :
    ofFields fields = fields.map fun field => (text field.1, ofJson field.2) := by
  induction fields with
  | nil => rfl
  | cons field rest ih => rw [ofFields, ih, List.map_cons]

section Null

variable {α : Type} {read : Datum → Option α} {d : Datum}

lemma nullOr?_of_ne_null (h : d ≠ null) : nullOr? read d = (read d).map some := by
  cases d with
  | null => exact absurd rfl h
  | _ => rfl

/-- What is null where there is nothing to say is read as it was said. -/
lemma nullOr?_getD {said : Option Json} {value : Option α} (hnull : read null = none)
    (h : (said.map fun json => read (ofJson json)) = value.map some) :
    nullOr? read (ofJson (said.getD .null)) = some value := by
  cases said with
  | none =>
      rw [Option.map_eq_none_iff.mp h.symm]
      rfl
  | some json =>
      obtain ⟨x, rfl, hx⟩ := Option.map_eq_some_iff.mp h.symm
      have hread : read (ofJson json) = some x := hx.symm
      have hsaid : ofJson json ≠ null := fun hsame => by simp [hsame, hnull] at hread
      rw [Option.getD_some, nullOr?_of_ne_null hsaid, hread, Option.map_some]

end Null

variable {names : List Text} {name : Text} {fields : List (Text × Json)}

/-- The values of an object under a name, in order. -/
lemma valuesOf_ofFields : valuesOf names name (ofFields fields)
    = (fields.filter (·.1 == name)).map fun field => ofJson field.2 := by
  rw [valuesOf, ofFields_eq, List.filter_map, List.map_map]
  rfl

/-- **What an object has under a name**, whatever other names matter. -/
theorem argument?_object :
    argument? names name (ofJson (.object fields)) = (fields.lookup name).map ofJson := by
  rw [ofJson, argument?, valuesOf_ofFields]
  induction fields with
  | nil => rfl
  | cons field rest ih =>
      rw [List.filter_cons, List.lookup_cons]
      by_cases hname : field.1 = name
      · simp [hname]
      · have hother : (name == field.1) = false := beq_false_of_ne (Ne.symm hname)
        simp [hname, hother, ih]

/-- An object in which no key stands twice may be read as a record. -/
lemma isArguments_object (h : (fields.map Prod.fst).Nodup) :
    isArguments names (ofJson (.object fields)) = true := by
  rw [ofJson, isArguments, isRecord, Bool.and_eq_true, List.all_eq_true, List.all_eq_true]
  constructor
  · intro entry hentry
    rw [ofFields_eq] at hentry
    obtain ⟨field, -, rfl⟩ := List.mem_map.mp hentry
    rfl
  · intro name _
    have hcount : (fields.filter (·.1 == name)).length = (fields.map Prod.fst).count name := by
      rw [List.count, List.countP_map, List.countP_eq_length_filter]
      rfl
    rw [valuesOf_ofFields, List.length_map, hcount]
    exact decide_eq_true (List.nodup_iff_count_le_one.mp h name)

end Datum

/-! ### The parts of a record -/

namespace Json

/-- A part of a record. It is optional where its value is the one it would have anyway. -/
structure Part where
  name : Text
  value : Json
  isOptional : Bool := false

/-- A part that is null where there is nothing to say, and is optional then. -/
def Part.ofOption (name : Text) (value : Option Json) : Part :=
  ⟨name, value.getD .null, value.isNone⟩

/-- The fields of an object give the parts of a record, in any order. -/
structure Gives (fields : List (Text × Json)) (parts : List Part) : Prop where
  /-- No key stands twice. -/
  once : (fields.map Prod.fst).Nodup
  /-- Every key is the name of a part. -/
  known : ∀ key ∈ fields.map Prod.fst, key ∈ parts.map Part.name
  /-- Each part stands under its name, or is missing where it is optional. -/
  given : ∀ part ∈ parts, fields.lookup part.name = some part.value
    ∨ part.isOptional = true ∧ fields.lookup part.name = none

/-- A record as an object, with each of its parts, in their order. -/
def record (parts : List Part) : Json := .object (parts.map fun part => (part.name, part.value))

variable {α : Type} {fields : List (Text × Json)} {parts : List Part} {part : Part}
  {names : List Text} {name : Text}

lemma lookup_parts (h : (parts.map Part.name).Nodup) (hpart : part ∈ parts) :
    (parts.map fun part => (part.name, part.value)).lookup part.name = some part.value := by
  induction parts with
  | nil => cases hpart
  | cons first rest ih =>
      obtain ⟨hfirst, hrest⟩ := List.nodup_cons.mp h
      rw [List.map_cons, List.lookup_cons]
      rcases List.mem_cons.mp hpart with rfl | hpart
      · simp
      · have hother : (part.name == first.name) = false := beq_false_of_ne fun hsame =>
          hfirst (hsame ▸ List.mem_map_of_mem hpart)
        simp [hother, ih hrest hpart]

/-- **The parts give themselves** where no two have the same name. -/
theorem gives_self (h : (parts.map Part.name).Nodup) :
    Gives (parts.map fun part => (part.name, part.value)) parts where
  once := by rwa [List.map_map]
  known := by
    rw [List.map_map]
    exact fun _ hkey => hkey
  given := fun _ hpart => .inl (lookup_parts h hpart)

namespace Gives

/-- An object that gives the parts of a record may be read as one. -/
lemma isArguments (h : Gives fields parts) :
    Datum.isArguments names (.ofJson (.object fields)) = true :=
  Datum.isArguments_object h.once

/-- A part that must be there is read from its value. -/
lemma required? (h : Gives fields parts) (hpart : part ∈ parts) (hmust : part.isOptional = false)
    (read : Datum → Option α) :
    Datum.required? names part.name read (.ofJson (.object fields))
      = read (.ofJson part.value) := by
  have hlookup : fields.lookup part.name = some part.value :=
    (h.given part hpart).resolve_right fun hmiss => by simp [hmust] at hmiss
  rw [Datum.required?, Datum.argument?_object, hlookup]
  rfl

/-- A part that the record does not have is not read. -/
lemma required?_eq_none (h : Gives fields parts) (hname : name ∉ parts.map Part.name)
    (read : Datum → Option α) :
    Datum.required? names name read (.ofJson (.object fields)) = none := by
  have hlookup : fields.lookup name = none := by
    rw [List.lookup_eq_none_iff]
    intro field hfield
    exact bne_iff_ne.mpr fun hsame =>
      hname (h.known name (hsame ▸ List.mem_map_of_mem hfield))
  rw [Datum.required?, Datum.argument?_object, hlookup]
  rfl

/-- A part that may be missing is read from its value, or is the default if that is the value. -/
lemma orElse? (h : Gives fields parts) (hpart : part ∈ parts) {read : Datum → Option α}
    {value default : α} (hread : read (.ofJson part.value) = some value)
    (hdefault : part.isOptional = true → default = value) :
    Datum.orElse? names part.name read default (.ofJson (.object fields)) = some value := by
  rw [Datum.orElse?, Datum.argument?_object]
  rcases h.given part hpart with hlookup | ⟨hmiss, hlookup⟩
  · rw [hlookup]
    exact hread
  · rw [hlookup, ← hdefault hmiss]
    rfl

/-- A part that is null or missing where there is nothing to say is read as it was said. -/
lemma option {said : Option Json} (h : Gives fields parts) (hpart : .ofOption name said ∈ parts)
    {read : Datum → Option α} {value : Option α} (hnull : read .null = none)
    (hread : (said.map fun json => read (.ofJson json)) = value.map some) :
    Datum.orElse? names name (Datum.nullOr? read) none (.ofJson (.object fields)) = some value := by
  refine h.orElse? hpart (Datum.nullOr?_getD hnull hread) fun hoptional => ?_
  have hsaid : said = none := Option.isNone_iff_eq_none.mp hoptional
  rw [hsaid] at hread
  exact (Option.map_eq_none_iff.mp hread.symm).symm

end Gives

end Json

end Directives
