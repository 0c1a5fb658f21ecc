import MinicoreRuntime.Value
import MinicoreRuntime.Containers.OrderedMap
import Mathlib.Data.Char
import Mathlib.Data.List.Lex
import Mathlib.Data.List.Nodup

/-!
# Derived representations

How values are written as JSON trees and read back: strings, integers, lists, options, structs with
fields that may be skipped or missing, and enumerations. These are the representations that derived
implementations of serialisation have; the types of the runtime are read and written with them.

A struct is written as an object, whose fields are kept in key order, and is read from an object or
from the list of its fields. Reading answers `none` where the source answers an error.

A format is canonical for some values if these are exactly the values that it reads, and each of
them is read back from what is written of it.

## Main definitions

* `Canonical`: a format that reads exactly the legal values.
* `serializeStruct`, `deserializeStruct`, `StructFields`: structs.
* `serializeTagged`, `deserializeTagged`: enumerations with a tag beside the content.
* `deserializeUnit`, `namedVariants`: enumerations without content.

## Main results

* `deserializeStruct_serializeStruct`, `StructFields.required_ofStruct`,
  `StructFields.optional_ofStruct`, `StructFields.defaulted_ofStruct`: a struct is read back field
  by field.
* `deserializeTagged_serializeTagged`, `deserializeUnit_string`: so is an enumeration.
* `Canonical.fromStr`, `Canonical.vec`, `Canonical.unit`: canonical formats of strings, lists and
  enumerations.
-/

namespace MinicoreRuntime

variable {α β ε : Type}

/-! ## Formats -/

/-- What is read in a format is legal, and legal values are read back from what is written. -/
structure Canonical (serialize : α → Json) (deserialize : Json → Option α) (Legal : α → Prop) :
    Prop where
  legal : ∀ value a, deserialize value = some a → Legal a
  readBack : ∀ a, Legal a → deserialize (serialize a) = some a

/-- The values that can be read are the legal ones. -/
theorem Canonical.readable_iff {serialize : α → Json} {deserialize : Json → Option α}
    {Legal : α → Prop} (h : Canonical serialize deserialize Legal) (a : α) :
    (∃ value, deserialize value = some a) ↔ Legal a :=
  ⟨fun ⟨value, hvalue⟩ ↦ h.legal value a hvalue, fun ha ↦ ⟨serialize a, h.readBack a ha⟩⟩

/-! ## Plain values -/

/-- Read a string. -/
def deserializeString : Json → Option Text
  | .string s => some s
  | _ => none

/-- Read a string and parse it. -/
def deserializeFromStr (parse : Text → Except ε α) (value : Json) : Option α :=
  (deserializeString value).bind fun s ↦ (parse s).toOption

/-- What parsed is parsed. -/
theorem eq_ok_of_toOption {ε : Type} {result : Except ε α} {a : α}
    (h : result.toOption = some a) : result = .ok a := by
  cases result with
  | ok b => exact congrArg Except.ok (Option.some.inj h)
  | error e => exact absurd h (by simp [Except.toOption])

theorem deserializeFromStr_string {parse : Text → Except ε α} {s : Text} {a : α}
    (h : parse s = .ok a) : deserializeFromStr parse (.string s) = some a := by
  simp [deserializeFromStr, deserializeString, h, Except.toOption]

/-- A string that is parsed. What a value is written as is parsed as the value. -/
theorem Canonical.fromStr {parse : Text → Except ε α} {text : α → Text}
    (h : ∀ a, parse (text a) = .ok a) :
    Canonical (fun a ↦ .string (text a)) (deserializeFromStr parse)
      fun a ↦ parse (text a) = .ok a where
  legal _ a _ := h a
  readBack _ ha := deserializeFromStr_string ha

/-- Read a truth value. -/
def deserializeBool : Json → Option Bool
  | .bool b => some b
  | _ => none

/-- Write an unsigned integer. -/
def serializeUint (n : Nat) : Json := .number (Nat.toDigits 10 n)

/-- Read an unsigned integer of the given width. A number with a sign, a fraction or an exponent is
none. -/
def deserializeUint (bits : Nat) : Json → Option Nat
  | .number text =>
    let n := Nat.ofDigitChars 10 text 0
    if !text.isEmpty && text.all Char.isDigit && decide (n < 2 ^ bits) then some n else none
  | _ => none

/-- An integer of the width is read back. -/
theorem deserializeUint_serializeUint {bits n : Nat} (h : n < 2 ^ bits) :
    deserializeUint bits (serializeUint n) = some n := by
  have hdigits : (Nat.toDigits 10 n).all Char.isDigit = true :=
    List.all_eq_true.mpr fun c hc ↦ Nat.isDigit_of_mem_toDigits (by decide) (by decide) hc
  have hsome : (Nat.toDigits 10 n).isEmpty = false :=
    List.isEmpty_eq_false_iff.mpr Nat.toDigits_ne_nil
  simp [serializeUint, deserializeUint, Nat.ofDigitChars_ten_toDigits, hdigits, hsome, h]

/-- An integer that is read is of the width. -/
theorem lt_of_deserializeUint {bits : Nat} {value : Json} {n : Nat}
    (h : deserializeUint bits value = some n) : n < 2 ^ bits := by
  cases value with
  | number text =>
    simp only [deserializeUint] at h
    split at h
    · rename_i hvalid
      obtain rfl := Option.some.inj h
      simp only [Bool.and_eq_true, decide_eq_true_eq] at hvalid
      exact hvalid.2
    · exact absurd h (by simp)
  | _ => exact absurd h (by simp [deserializeUint])

/-- Write a list. -/
def serializeVec (serialize : α → Json) (items : List α) : Json := .array (items.map serialize)

/-- Read a list. -/
def deserializeVec (deserialize : Json → Option α) : Json → Option (List α)
  | .array items => items.mapM deserialize
  | _ => none

/-- A list whose items are read back is read back. -/
theorem deserializeVec_serializeVec {serialize : α → Json} {deserialize : Json → Option α}
    {items : List α} (h : ∀ a ∈ items, deserialize (serialize a) = some a) :
    deserializeVec deserialize (serializeVec serialize items) = some items := by
  rw [serializeVec, deserializeVec, List.mapM_map]
  induction items with
  | nil => rfl
  | cons a items ih =>
    have hitems := ih fun b hb ↦ h b (List.mem_cons_of_mem _ hb)
    rw [List.mapM_cons, hitems, Function.comp_apply, h a List.mem_cons_self]
    rfl

theorem mem_of_mapM {deserialize : Json → Option α} {values : List Json} {items : List α}
    (h : values.mapM deserialize = some items) :
    ∀ a ∈ items, ∃ value, deserialize value = some a := by
  induction values generalizing items with
  | nil =>
    obtain rfl := Option.some.inj h
    exact fun a ha ↦ absurd ha List.not_mem_nil
  | cons value values ih =>
    rw [List.mapM_cons] at h
    obtain ⟨first, hfirst, h⟩ := Option.bind_eq_some_iff.mp h
    obtain ⟨rest, hrest, h⟩ := Option.bind_eq_some_iff.mp h
    obtain rfl := Option.some.inj h
    intro a ha
    rcases List.mem_cons.mp ha with rfl | ha
    · exact ⟨value, hfirst⟩
    · exact ih hrest a ha

/-- The items of a list that is read are read. -/
theorem mem_of_deserializeVec {deserialize : Json → Option α} {value : Json} {items : List α}
    (h : deserializeVec deserialize value = some items) :
    ∀ a ∈ items, ∃ value, deserialize value = some a := by
  cases value with
  | array values => exact mem_of_mapM h
  | _ => exact absurd h (by simp [deserializeVec])

/-- A list of values of a format. -/
theorem Canonical.vec {serialize : α → Json} {deserialize : Json → Option α} {Legal : α → Prop}
    (h : Canonical serialize deserialize Legal) :
    Canonical (serializeVec serialize) (deserializeVec deserialize)
      fun items ↦ ∀ a ∈ items, Legal a where
  legal _ _ hitems a ha := (h.readable_iff a).mp (mem_of_deserializeVec hitems a ha)
  readBack _ hitems := deserializeVec_serializeVec fun a ha ↦ h.readBack a (hitems a ha)

/-- Write an option. -/
def serializeOption (serialize : α → Json) : Option α → Json
  | none => .null
  | some a => serialize a

/-- Read an option. -/
def deserializeOption (deserialize : Json → Option α) : Json → Option (Option α)
  | .null => some none
  | value => (deserialize value).map some

theorem deserializeOption_of_ne_null {deserialize : Json → Option α} {value : Json} {a : α}
    (hnull : value ≠ .null) (h : deserialize value = some a) :
    deserializeOption deserialize value = some (some a) := by
  unfold deserializeOption
  split
  · exact absurd rfl hnull
  · rw [h]
    rfl

/-- An option whose value is read back, and is not written as null, is read back. -/
theorem deserializeOption_serializeOption {serialize : α → Json} {deserialize : Json → Option α}
    (hnull : ∀ a, serialize a ≠ .null) {value : Option α}
    (h : ∀ a, value = some a → deserialize (serialize a) = some a) :
    deserializeOption deserialize (serializeOption serialize value) = some value := by
  cases value with
  | none => rfl
  | some a => exact deserializeOption_of_ne_null (hnull a) (h a rfl)

/-! ## Structs -/

/-- The entries of the fields that are not skipped. -/
def presentFields (fields : List (String × Option Json)) : List (Text × Json) :=
  fields.filterMap fun field ↦ field.2.map fun value ↦ (field.1.toList, value)

/-- Write a struct. A field without a value is skipped. -/
def serializeStruct (fields : List (String × Option Json)) : Json :=
  .object (OrderedMap.ofList (presentFields fields)).toList

/-- The fields of a struct as they were found. -/
structure StructFields where
  entries : List (Text × Json)
  /-- The fields came as a list; then each but those with a default has to be there. -/
  positional : Bool

/-- Read the fields of a struct; `deny` says that there may be no others. -/
def deserializeStruct (names : List String) (deny : Bool) : Json → Option StructFields
  | .object entries =>
    if deny && entries.any fun entry ↦ !(names.map String.toList).contains entry.1 then none
    else some ⟨entries, false⟩
  | .array items =>
    if items.length ≤ names.length then some ⟨(names.map String.toList).zip items, true⟩ else none
  | _ => none

/-- Read the fields of a struct that comes as an object only. -/
def deserializeObject (names : List String) (deny : Bool) : Json → Option StructFields
  | .object entries => deserializeStruct names deny (.object entries)
  | _ => none

namespace StructFields

/-- A field that has to be there. -/
def required (fields : StructFields) (name : String) (deserialize : Json → Option α) : Option α :=
  (fields.entries.lookup name.toList).bind deserialize

/-- An optional field. -/
def optional (fields : StructFields) (name : String) (deserialize : Json → Option α) :
    Option (Option α) :=
  match fields.entries.lookup name.toList with
  | some value => deserializeOption deserialize value
  | none => if fields.positional then none else some none

/-- An optional field with a default. -/
def defaulted (fields : StructFields) (name : String) (deserialize : Json → Option α) :
    Option (Option α) :=
  match fields.entries.lookup name.toList with
  | some value => deserializeOption deserialize value
  | none => some none

/-- The fields of a struct that was written. -/
def ofStruct (fields : List (String × Option Json)) : StructFields :=
  ⟨(OrderedMap.ofList (presentFields fields)).toList, false⟩

end StructFields

/-- A field that is read is read from a value. -/
theorem StructFields.required_eq_some {fields : StructFields} {name : String}
    {deserialize : Json → Option α} {a : α} (h : fields.required name deserialize = some a) :
    ∃ value, deserialize value = some a := by
  obtain ⟨value, -, hvalue⟩ := Option.bind_eq_some_iff.mp h
  exact ⟨value, hvalue⟩

theorem mem_presentFields {fields : List (String × Option Json)} {entry : Text × Json} :
    entry ∈ presentFields fields ↔
      ∃ name, (name, some entry.2) ∈ fields ∧ name.toList = entry.1 := by
  obtain ⟨key, value⟩ := entry
  simp only [presentFields, List.mem_filterMap, Option.map_eq_some_iff, Prod.mk.injEq]
  constructor
  · rintro ⟨⟨name, field⟩, hmem, value', rfl, hname, rfl⟩
    exact ⟨name, hmem, hname⟩
  · rintro ⟨name, hmem, hname⟩
    exact ⟨(name, some value), hmem, value, rfl, hname, rfl⟩

theorem nodup_presentFields {fields : List (String × Option Json)}
    (hnames : (fields.map Prod.fst).Nodup) : ((presentFields fields).map Prod.fst).Nodup := by
  have hkeys : (fields.map fun field ↦ field.1.toList).Nodup := by
    rw [show (fun field : String × Option Json ↦ field.1.toList) =
      String.toList ∘ Prod.fst from rfl,
      ← List.map_map]
    exact List.Nodup.map (fun _ _ h ↦ String.toList_inj.mp h) hnames
  refine hkeys.sublist ?_
  induction fields with
  | nil => exact List.Sublist.refl _
  | cons field fields ih =>
    have hrest := ih (List.nodup_cons.mp hnames).2 (List.nodup_cons.mp hkeys).2
    obtain ⟨name, value⟩ := field
    cases value with
    | none => exact hrest.cons _
    | some value => exact hrest.cons_cons _

/-- A struct that was written has the fields it was written with. -/
theorem deserializeStruct_serializeStruct {names : List String} {deny : Bool}
    {fields : List (String × Option Json)} (h : ∀ field ∈ fields, field.1 ∈ names) :
    deserializeStruct names deny (serializeStruct fields) = some (.ofStruct fields) := by
  have hknown : ((OrderedMap.ofList (presentFields fields)).toList.any fun entry ↦
      !(names.map String.toList).contains entry.1) = false := by
    rw [List.any_eq_false]
    intro entry hentry
    obtain ⟨name, hmem, hname⟩ := mem_presentFields.mp (OrderedMap.mem_of_mem_ofList hentry)
    have hcontains : (names.map String.toList).contains entry.1 = true := by
      rw [List.contains_iff_mem, ← hname]
      exact List.mem_map_of_mem (h _ hmem)
    rw [hcontains]
    exact Bool.false_ne_true
  rw [serializeStruct, deserializeStruct, hknown, Bool.and_false, if_neg Bool.false_ne_true]
  rfl

theorem deserializeObject_serializeStruct {names : List String} {deny : Bool}
    {fields : List (String × Option Json)} (h : ∀ field ∈ fields, field.1 ∈ names) :
    deserializeObject names deny (serializeStruct fields) = some (.ofStruct fields) :=
  deserializeStruct_serializeStruct h

theorem serializeStruct_ne_null (fields : List (String × Option Json)) :
    serializeStruct fields ≠ .null := by
  simp [serializeStruct]

namespace StructFields

variable {fields : List (String × Option Json)} {name : String}

/-- The entries of a struct that was written are its fields. -/
theorem lookup_ofStruct (hnames : (fields.map Prod.fst).Nodup) {value : Option Json}
    (h : (name, value) ∈ fields) : (ofStruct fields).entries.lookup name.toList = value := by
  have hkeys := nodup_presentFields hnames
  rw [ofStruct, OrderedMap.lookup_ofList hkeys]
  have hordered : ∀ value', (presentFields fields).lookup name.toList = some value' →
      value = some value' := by
    intro value' hlookup
    obtain ⟨before, after, hsplit, -⟩ := List.lookup_eq_some_iff.mp hlookup
    have hmem : (name.toList, value') ∈ presentFields fields := by simp [hsplit]
    obtain ⟨name', hfield, hname⟩ := mem_presentFields.mp hmem
    obtain rfl := String.toList_inj.mp hname
    exact (Prod.mk.inj (List.inj_on_of_nodup_map hnames h hfield rfl)).2
  cases hlookup : (presentFields fields).lookup name.toList with
  | some value' => exact (hordered value' hlookup).symm
  | none =>
    cases value with
    | none => rfl
    | some value =>
      have hmem : (name.toList, value) ∈ presentFields fields :=
        mem_presentFields.mpr ⟨name, h, rfl⟩
      have := List.lookup_eq_none_iff.mp hlookup _ hmem
      exact absurd this (by simp)

/-- A required field is read from what was written. -/
theorem required_ofStruct (hnames : (fields.map Prod.fst).Nodup) {value : Json} {a : α}
    {deserialize : Json → Option α} (hread : deserialize value = some a)
    (h : (name, some value) ∈ fields) : (ofStruct fields).required name deserialize = some a := by
  rw [required, lookup_ofStruct hnames h, Option.bind_some, hread]

/-- So is an optional field that is not skipped. -/
theorem optional_ofStruct (hnames : (fields.map Prod.fst).Nodup) {value : Json} {a : Option α}
    {deserialize : Json → Option α} (hread : deserializeOption deserialize value = some a)
    (h : (name, some value) ∈ fields) : (ofStruct fields).optional name deserialize = some a := by
  rw [optional, lookup_ofStruct hnames h]
  exact hread

/-- A field that is skipped where it has no value is read back. -/
theorem defaulted_ofStruct (hnames : (fields.map Prod.fst).Nodup) {serialize : α → Json}
    {deserialize : Json → Option α} {value : Option α} (h : (name, value.map serialize) ∈ fields)
    (hnull : ∀ a, serialize a ≠ .null)
    (hread : ∀ a, value = some a → deserialize (serialize a) = some a) :
    (ofStruct fields).defaulted name deserialize = some value := by
  rw [defaulted, lookup_ofStruct hnames h]
  cases value with
  | none => rfl
  | some a => exact deserializeOption_of_ne_null (hnull a) (hread a rfl)

end StructFields

/-! ## Enumerations -/

/-- What a name stands for among the variants of an enumeration. -/
def variantNamed (variants : List (String × β)) (name : Text) : Option β :=
  (variants.find? fun entry ↦ entry.1.toList == name).map Prod.snd

theorem variantNamed_eq_some {variants : List (String × β)} (hnames : (variants.map Prod.fst).Nodup)
    {name : String} {variant : β} (h : (name, variant) ∈ variants) :
    variantNamed variants name.toList = some variant := by
  cases hfind : variants.find? fun entry ↦ entry.1.toList == name.toList with
  | none =>
    have := List.find?_eq_none.mp hfind _ h
    exact absurd this (by simp)
  | some entry =>
    have hname : entry.1 = name := String.toList_inj.mp (by simpa using List.find?_some hfind)
    have hentry := List.inj_on_of_nodup_map hnames (List.mem_of_find?_eq_some hfind) h hname
    rw [variantNamed, hfind, hentry]
    rfl

/-- Read an enumeration without content: the name of a variant, alone or with null. -/
def deserializeUnit (variants : List (String × α)) : Json → Option α
  | .string name => variantNamed variants name
  | .object [(name, .null)] => variantNamed variants name
  | _ => none

theorem deserializeUnit_string {variants : List (String × α)}
    (hnames : (variants.map Prod.fst).Nodup) {name : String} {variant : α}
    (h : (name, variant) ∈ variants) :
    deserializeUnit variants (.string name.toList) = some variant :=
  variantNamed_eq_some hnames h

/-- A variant that is read is one of them. -/
theorem mem_of_deserializeUnit {variants : List (String × α)} {value : Json} {variant : α}
    (h : deserializeUnit variants value = some variant) : ∃ name, (name, variant) ∈ variants := by
  have hnamed (name : Text) (h : variantNamed variants name = some variant) :
      ∃ name, (name, variant) ∈ variants := by
    obtain ⟨entry, hfind, rfl⟩ := Option.map_eq_some_iff.mp h
    exact ⟨entry.1, List.mem_of_find?_eq_some hfind⟩
  unfold deserializeUnit at h
  split at h
  · exact hnamed _ h
  · exact hnamed _ h
  · exact absurd h (by simp)

/-- The variants of an enumeration with their names. -/
def namedVariants (name : α → String) (all : List α) : List (String × α) :=
  all.map fun a ↦ (name a, a)

/-- An enumeration that is written by name. -/
theorem Canonical.unit {name : α → String} {all : List α} (hnames : (all.map name).Nodup)
    (hall : ∀ a, a ∈ all) :
    Canonical (fun a ↦ .string (name a).toList) (deserializeUnit (namedVariants name all))
      fun _ ↦ True where
  legal _ _ _ := trivial
  readBack a _ := by
    refine deserializeUnit_string ?_ (List.mem_map.mpr ⟨a, hall a, rfl⟩)
    rw [namedVariants, List.map_map]
    exact hnames

/-- Write a variant with its name beside its content. -/
def serializeTagged (tag content : String) (name : String) (value : Json) : Json :=
  serializeStruct [(tag, some (.string name.toList)), (content, some value)]

/-- Read a variant with its name beside its content; each variant comes with how its content is
read. The name is read as an enumeration without content is. -/
def deserializeTagged (tag content : String) (deny : Bool)
    (variants : List (String × (Json → Option α))) (value : Json) : Option α := do
  let fields ← deserializeStruct [tag, content] deny value
  let deserialize ← fields.required tag (deserializeUnit variants)
  let value ← fields.required content some
  deserialize value

/-- A variant is read with what its name stands for. -/
theorem deserializeTagged_serializeTagged {tag content : String} (hne : tag ≠ content) {deny : Bool}
    {variants : List (String × (Json → Option α))} (hnames : (variants.map Prod.fst).Nodup)
    {name : String} {deserialize : Json → Option α} (h : (name, deserialize) ∈ variants)
    (value : Json) :
    deserializeTagged tag content deny variants (serializeTagged tag content name value) =
      deserialize value := by
  have hfields : ([(tag, some (Json.string name.toList)), (content, some value)].map
      Prod.fst).Nodup := by simp [hne]
  have hname : deserializeUnit variants (.string name.toList) = some deserialize :=
    deserializeUnit_string hnames h
  have hvalue : some value = some value := rfl
  simp only [deserializeTagged, serializeTagged, Option.bind_eq_bind]
  rw [deserializeStruct_serializeStruct (by simp), Option.bind_some,
    StructFields.required_ofStruct hfields hname (by simp), Option.bind_some,
    StructFields.required_ofStruct hfields hvalue (by simp), Option.bind_some]

/-- A variant that is read is read from a value, as its name says. -/
theorem variant_of_deserializeTagged {tag content : String} {deny : Bool}
    {variants : List (String × (Json → Option α))} {value : Json} {a : α}
    (h : deserializeTagged tag content deny variants value = some a) :
    ∃ variant ∈ variants, ∃ value, variant.2 value = some a := by
  obtain ⟨fields, -, h⟩ := Option.bind_eq_some_iff.mp h
  obtain ⟨deserialize, hname, h⟩ := Option.bind_eq_some_iff.mp h
  obtain ⟨value, -, h⟩ := Option.bind_eq_some_iff.mp h
  obtain ⟨tagged, htagged⟩ := StructFields.required_eq_some hname
  obtain ⟨name, hmem⟩ := mem_of_deserializeUnit htagged
  exact ⟨(name, deserialize), hmem, value, h⟩

end MinicoreRuntime
