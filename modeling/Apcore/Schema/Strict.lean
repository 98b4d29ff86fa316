import Apcore.Schema.Extensions

/-! # `Schema.Strict` — the conversion to strict mode

`convert_to_strict` closes every object schema it comes to and makes all its properties required, the
optional ones nullable. A nullable property is converted as it is without `null`, so that converting
first is the same. -/

namespace Apcore

/-! ## The conversion -/

/-- `declares_object_type`. -/
def declaresObjectType : Option Json → Bool
  | some (.string s) => s == "object"
  | some (.array items) => items.any fun v => v.asStr? == some "object"
  | _ => false

/-- An object schema with properties. -/
def isObjectWithProps (obj : List (String × Json)) : Bool :=
  Fields.containsKey obj "properties" &&
    ((Fields.get? obj "type").isNone || declaresObjectType (Fields.get? obj "type"))

/-- The keywords that can reject `null` whatever the type says. -/
def constrainingKeywords : List String :=
  ["enum", "const", "$ref", "allOf", "anyOf", "oneOf", "not", "if"]

/-- A property without a type to widen is put into a union. -/
def isWrapped (prop : List (String × Json)) : Bool :=
  !Fields.containsKey prop "type" || constrainingKeywords.any (Fields.containsKey prop)

def nullSchema : Json := .object [("type", .string "null")]

/-- The type with `null` in it. -/
def widenType : Json → Json
  | .string s => if s ≠ "null" then .array [.string s, .string "null"] else .string s
  | .array arr =>
    if arr.any fun v => v.asStr? == some "null" then .array arr else .array (arr ++ [.string "null"])
  | other => other

/-- `make_nullable`. -/
def makeNullable : Json → Json
  | .object prop =>
    if isWrapped prop then .object [("anyOf", .array [.object prop, nullSchema])]
    else .object (Fields.adjust "type" widenType prop)
  | other => other

def Json.mapEntries (f : String → Json → Json) : Json → Json
  | .object map => .object (Fields.mapValues f map)
  | other => other

def Json.mapElems (f : Json → Json) : Json → Json
  | .array elems => .array (elems.map f)
  | other => other

/-- The names that are required already. -/
def requiredNames (obj : List (String × Json)) : List String :=
  (((Fields.get? obj "required").bind Json.asArray?).getD []).filterMap Json.asStr?

/-- The property names, sorted. -/
def propertyNames (obj : List (String × Json)) : List String :=
  sortedKeys (((Fields.get? obj "properties").bind Json.asObject?).getD [])

/-- The strict rules for an object schema with properties. -/
def enforceStrict (obj : List (String × Json)) : List (String × Json) :=
  if isObjectWithProps obj then
    Fields.insert "required" (.array ((propertyNames obj).map Json.string))
      (Fields.adjust "properties"
        (Json.mapEntries fun name prop => if name ∈ requiredNames obj then prop else makeNullable prop)
        (Fields.insert "additionalProperties" (.bool false) obj))
  else obj

/-- What `recurse_into_nested` does with the value of a keyword. -/
def nested (convert : Json → Json) (keyword : String) (value : Json) : Json :=
  if ["properties", "definitions", "$defs"].contains keyword then value.mapEntries fun _ => convert
  else if keyword == "items" then (if value.isObject then convert value else value)
  else if ["prefixItems", "oneOf", "anyOf", "allOf"].contains keyword then value.mapElems convert
  else value

/-- The body of `convert_to_strict`: `recurse_into_nested` behind the strict rules. -/
def convertNode (convert : Json → Json) : Json → Json
  | .object obj => .object (Fields.mapValues (nested convert) (enforceStrict obj))
  | other => other

mutual

/-- `convert_to_strict`, by `convertToStrict_eq`. -/
def convertToStrict : Json → Json
  | .object obj => .object (enforceStrict (convertFields obj))
  | other => other

def convertFields : List (String × Json) → List (String × Json)
  | [] => []
  | (keyword, value) :: rest =>
    (keyword,
      if ["properties", "definitions", "$defs"].contains keyword then convertNamed value
      else if keyword == "items" then (if value.isObject then convertToStrict value else value)
      else if ["prefixItems", "oneOf", "anyOf", "allOf"].contains keyword then convertListed value
      else value) :: convertFields rest

def convertNamed : Json → Json
  | .object map => .object (convertEntries map)
  | other => other

def convertListed : Json → Json
  | .array elems => .array (convertElems elems)
  | other => other

def convertEntries : List (String × Json) → List (String × Json)
  | [] => []
  | (name, value) :: rest => (name, convertToStrict value) :: convertEntries rest

def convertElems : List Json → List Json
  | [] => []
  | value :: rest => convertToStrict value :: convertElems rest

end

/-- `to_strict_schema`. -/
def toStrictSchema (schema : Json) : Json := convertToStrict (stripExtensions schema false true)

/-! ## The order of the source -/

theorem convertEntries_eq (map : List (String × Json)) :
    convertEntries map = Fields.mapValues (fun _ => convertToStrict) map := by
  induction map with
  | nil => rfl
  | cons entry rest ih =>
    rw [convertEntries, ih]
    rfl

theorem convertElems_eq (elems : List Json) : convertElems elems = elems.map convertToStrict := by
  induction elems with
  | nil => rfl
  | cons value rest ih => rw [convertElems, ih, List.map_cons]

theorem convertFields_eq (obj : List (String × Json)) :
    convertFields obj = Fields.mapValues (nested convertToStrict) obj := by
  have hnamed : ∀ value, convertNamed value = value.mapEntries fun _ => convertToStrict := by
    intro value
    cases value with
    | object map => rw [convertNamed, convertEntries_eq]; rfl
    | _ => rfl
  have hlisted : ∀ value, convertListed value = value.mapElems convertToStrict := by
    intro value
    cases value with
    | array elems => rw [convertListed, convertElems_eq]; rfl
    | _ => rfl
  induction obj with
  | nil => rfl
  | cons entry rest ih =>
    rw [convertFields, ih, hnamed, hlisted]
    rfl

theorem convertToStrict_object (obj : List (String × Json)) : convertToStrict (.object obj) =
    .object (enforceStrict (Fields.mapValues (nested convertToStrict) obj)) := by
  rw [convertToStrict, convertFields_eq]

section

variable {convert : Json → Json} {obj : List (String × Json)}

theorem get?_nested {key : String} (h : ∀ v, nested convert key v = v) :
    Fields.get? (Fields.mapValues (nested convert) obj) key = Fields.get? obj key := by
  rw [Fields.get?_mapValues]
  cases Fields.get? obj key with
  | none => rfl
  | some v => rw [Option.map_some, h]

theorem containsKey_mapValues (f : String → Json → Json) (key : String) :
    Fields.containsKey (Fields.mapValues f obj) key = Fields.containsKey obj key := by
  rw [Fields.containsKey, Fields.get?_mapValues, Option.isSome_map]
  rfl

theorem isObjectWithProps_nested :
    isObjectWithProps (Fields.mapValues (nested convert) obj) = isObjectWithProps obj := by
  unfold isObjectWithProps
  rw [containsKey_mapValues, @get?_nested _ _ "type" fun _ => rfl]

theorem requiredNames_nested :
    requiredNames (Fields.mapValues (nested convert) obj) = requiredNames obj := by
  unfold requiredNames
  rw [@get?_nested _ _ "required" fun _ => rfl]

/-- The keys of the properties. -/
theorem propertyNames_congr {obj' : List (String × Json)} {f : String → Json → Json}
    (h : Fields.get? obj' "properties" = (Fields.get? obj "properties").map (Json.mapEntries f)) :
    propertyNames obj' = propertyNames obj := by
  unfold propertyNames
  rw [h]
  refine sortedKeys_congr ?_
  cases Fields.get? obj "properties" with
  | none => rfl
  | some v =>
    cases v with
    | object map => exact List.map_map
    | _ => rfl

theorem propertyNames_nested :
    propertyNames (Fields.mapValues (nested convert) obj) = propertyNames obj :=
  propertyNames_congr (f := fun _ => convert) (Fields.get?_mapValues _ _ _)

theorem mapEntries_comm {f g : String → Json → Json} (h : ∀ name v, f name (g name v) = g name (f name v))
    (value : Json) : (value.mapEntries g).mapEntries f = (value.mapEntries f).mapEntries g := by
  cases value with
  | object map =>
    refine congrArg Json.object ?_
    unfold Fields.mapValues
    rw [List.map_map, List.map_map]
    exact List.map_congr_left fun entry _ => congrArg (Prod.mk entry.1) (h entry.1 entry.2)
  | _ => rfl

/-- The strict rules behind the conversion of what is in the values are the rules before it. -/
theorem enforceStrict_nested (h : ∀ prop, convert (makeNullable prop) = makeNullable (convert prop)) :
    enforceStrict (Fields.mapValues (nested convert) obj) =
      Fields.mapValues (nested convert) (enforceStrict obj) := by
  unfold enforceStrict
  rw [isObjectWithProps_nested, requiredNames_nested, propertyNames_nested]
  split
  · rw [Fields.mapValues_insert, Fields.mapValues_adjust, Fields.mapValues_insert]
    · rfl
    · intro v
      refine mapEntries_comm (fun name prop => ?_) v
      by_cases hname : name ∈ requiredNames obj
      · rw [if_pos hname, if_pos hname]
      · rw [if_neg hname, if_neg hname, h]
  · rfl

end

/-! ### Nullable properties -/

theorem declaresObjectType_widenType (type : Json) :
    declaresObjectType (some (widenType type)) = declaresObjectType (some type) := by
  cases type with
  | string s =>
    rw [widenType]
    split_ifs
    · show (some s == some "object" || (false || false)) = (s == "object")
      rw [Bool.or_false, Bool.or_false]
      rfl
    · rfl
  | array arr =>
    rw [widenType]
    split_ifs
    · rfl
    · show ((arr ++ [Json.string "null"]).any fun v => v.asStr? == some "object") = _
      rw [List.any_append]
      exact Bool.or_false _
  | _ => rfl

section

variable {obj : List (String × Json)}

theorem enforceStrict_of_props (h : isObjectWithProps obj = true) : enforceStrict obj =
    Fields.insert "required" (.array ((propertyNames obj).map Json.string))
      (Fields.adjust "properties"
        (Json.mapEntries fun name prop => if name ∈ requiredNames obj then prop else makeNullable prop)
        (Fields.insert "additionalProperties" (.bool false) obj)) := if_pos h

theorem get?_enforceStrict {key : String} (hrequired : key ≠ "required")
    (hadditional : key ≠ "additionalProperties") (hproperties : key ≠ "properties") :
    Fields.get? (enforceStrict obj) key = Fields.get? obj key := by
  unfold enforceStrict
  split
  · rw [Fields.get?_insert_ne hrequired, Fields.get?_adjust_ne hproperties,
      Fields.get?_insert_ne hadditional]
  · rfl

theorem get?_enforceStrict_properties (h : isObjectWithProps obj = true) :
    Fields.get? (enforceStrict obj) "properties" = (Fields.get? obj "properties").map
      (Json.mapEntries fun name prop => if name ∈ requiredNames obj then prop else makeNullable prop) := by
  rw [enforceStrict_of_props h, Fields.get?_insert_ne (by decide), Fields.get?_adjust_self,
    Fields.get?_insert_ne (by decide)]

theorem get?_enforceStrict_required (h : isObjectWithProps obj = true) :
    Fields.get? (enforceStrict obj) "required" = some (.array ((propertyNames obj).map Json.string)) := by
  rw [enforceStrict_of_props h, Fields.get?_insert_self]

theorem get?_enforceStrict_additional (h : isObjectWithProps obj = true) :
    Fields.get? (enforceStrict obj) "additionalProperties" = some (.bool false) := by
  rw [enforceStrict_of_props h, Fields.get?_insert_ne (by decide), Fields.get?_adjust_ne (by decide),
    Fields.get?_insert_self]

theorem containsKey_enforceStrict_properties :
    Fields.containsKey (enforceStrict obj) "properties" = Fields.containsKey obj "properties" := by
  unfold Fields.containsKey
  by_cases h : isObjectWithProps obj = true
  · rw [get?_enforceStrict_properties h, Option.isSome_map]
  · unfold enforceStrict
    rw [if_neg h]

theorem isObjectWithProps_enforceStrict : isObjectWithProps (enforceStrict obj) = isObjectWithProps obj := by
  conv_lhs => unfold isObjectWithProps
  rw [containsKey_enforceStrict_properties,
    get?_enforceStrict (by decide) (by decide) (by decide)]
  rfl

theorem isWrapped_enforceStrict_nested (convert : Json → Json) :
    isWrapped (enforceStrict (Fields.mapValues (nested convert) obj)) = isWrapped obj := by
  have hkey : ∀ key ∈ "type" :: constrainingKeywords,
      Fields.containsKey (enforceStrict (Fields.mapValues (nested convert) obj)) key =
        Fields.containsKey obj key := by
    intro key hmem
    have hother : key ≠ "required" ∧ key ≠ "additionalProperties" ∧ key ≠ "properties" := by
      revert key
      decide
    rw [Fields.containsKey, get?_enforceStrict hother.1 hother.2.1 hother.2.2]
    exact containsKey_mapValues _ _
  unfold isWrapped
  rw [hkey "type" List.mem_cons_self]
  congr 1
  rw [Bool.eq_iff_iff, List.any_eq_true, List.any_eq_true]
  refine exists_congr fun key => and_congr_right fun hmem => ?_
  rw [hkey key (List.mem_cons_of_mem _ hmem)]

theorem isObjectWithProps_widened :
    isObjectWithProps (Fields.adjust "type" widenType obj) = isObjectWithProps obj := by
  unfold isObjectWithProps Fields.containsKey
  rw [Fields.get?_adjust_ne (by decide), Fields.get?_adjust_self]
  cases Fields.get? obj "type" with
  | none => rfl
  | some type => rw [Option.map_some, declaresObjectType_widenType]; rfl

theorem enforceStrict_widenType :
    enforceStrict (Fields.adjust "type" widenType obj) =
      Fields.adjust "type" widenType (enforceStrict obj) := by
  have hrequired : requiredNames (Fields.adjust "type" widenType obj) = requiredNames obj := by
    unfold requiredNames
    rw [Fields.get?_adjust_ne (by decide)]
  have hnames : propertyNames (Fields.adjust "type" widenType obj) = propertyNames obj := by
    unfold propertyNames
    rw [Fields.get?_adjust_ne (by decide)]
  unfold enforceStrict
  rw [isObjectWithProps_widened, hrequired, hnames]
  split
  · rw [Fields.insert_adjust (show "additionalProperties" ≠ "type" by decide),
      Fields.adjust_comm (show "properties" ≠ "type" by decide),
      Fields.insert_adjust (show "required" ≠ "type" by decide)]
  · rfl

end

/-- A property is made nullable before or behind its conversion. -/
theorem convertToStrict_makeNullable (prop : Json) :
    convertToStrict (makeNullable prop) = makeNullable (convertToStrict prop) := by
  cases prop with
  | object obj =>
    rw [convertToStrict_object, makeNullable, makeNullable, isWrapped_enforceStrict_nested]
    by_cases hwrapped : isWrapped obj = true
    · rw [if_pos hwrapped, if_pos hwrapped, convertToStrict_object, ← convertToStrict_object obj]
      rfl
    · rw [if_neg hwrapped, if_neg hwrapped, convertToStrict_object,
        @Fields.mapValues_adjust _ _ "type" widenType widenType fun _ => rfl, enforceStrict_widenType]
  | _ => rfl

/-! ## Converting twice -/

theorem isObject_convertToStrict (node : Json) : (convertToStrict node).isObject = node.isObject := by
  cases node with
  | object obj => rw [convertToStrict_object]; rfl
  | _ => rfl

theorem sizeOf_entry_lt {map : List (String × Json)} {entry : String × Json} (h : entry ∈ map) :
    sizeOf entry.2 < sizeOf (Json.object map) := by
  have hlt := List.sizeOf_lt_of_mem h
  have hentry : sizeOf entry.2 < sizeOf entry := by
    rw [Prod.mk.sizeOf_spec]
    omega
  rw [Json.object.sizeOf_spec]
  omega

theorem sizeOf_elem_lt {elems : List Json} {elem : Json} (h : elem ∈ elems) :
    sizeOf elem < sizeOf (Json.array elems) := by
  have hlt := List.sizeOf_lt_of_mem h
  rw [Json.array.sizeOf_spec]
  omega

/-- Under a keyword only what is in its value counts. -/
theorem nested_congr {f g : Json → Json} {keyword : String} {value : Json}
    (h : ∀ part, sizeOf part ≤ sizeOf value → f part = g part) :
    nested f keyword value = nested g keyword value := by
  have hentries : value.mapEntries (fun _ => f) = value.mapEntries fun _ => g := by
    cases value with
    | object map =>
      refine congrArg Json.object (List.map_congr_left fun entry hentry => ?_)
      exact congrArg (Prod.mk entry.1) (h entry.2 (sizeOf_entry_lt hentry).le)
    | _ => rfl
  have helems : value.mapElems f = value.mapElems g := by
    cases value with
    | array elems =>
      exact congrArg Json.array (List.map_congr_left fun elem helem => h elem (sizeOf_elem_lt helem).le)
    | _ => rfl
  unfold nested
  rw [hentries, helems, h value le_rfl]

theorem nested_comp {f g : Json → Json} (hg : ∀ v, (g v).isObject = v.isObject) (keyword : String)
    (value : Json) : nested f keyword (nested g keyword value) = nested (f ∘ g) keyword value := by
  have hentries : (value.mapEntries fun _ => g).mapEntries (fun _ => f) =
      value.mapEntries fun _ => f ∘ g := by
    cases value with
    | object map => exact congrArg Json.object List.map_map
    | _ => rfl
  have helems : (value.mapElems g).mapElems f = value.mapElems (f ∘ g) := by
    cases value with
    | array elems => exact congrArg Json.array List.map_map
    | _ => rfl
  unfold nested
  split_ifs with hnamed hitems hobject hobject' hlisted
  · exact hentries
  · rfl
  · rw [hg] at hobject'
    exact absurd hobject hobject'
  · rfl
  · exact helems
  · rfl

theorem enforceStrict_idem (obj : List (String × Json)) :
    enforceStrict (enforceStrict obj) = enforceStrict obj := by
  by_cases h : isObjectWithProps obj = true
  · have hnames : propertyNames (enforceStrict obj) = propertyNames obj :=
      propertyNames_congr (get?_enforceStrict_properties h)
    have hrequired : requiredNames (enforceStrict obj) = propertyNames obj := by
      unfold requiredNames
      rw [get?_enforceStrict_required h]
      show ((propertyNames obj).map Json.string).filterMap Json.asStr? = _
      rw [List.filterMap_map]
      exact List.filterMap_some
    have hadditional : Fields.insert "additionalProperties" (.bool false) (enforceStrict obj) =
        enforceStrict obj := by
      rw [enforceStrict_of_props h, Fields.insert_comm (by decide), Fields.insert_adjust (by decide),
        Fields.insert_insert]
    have hproperties : Fields.adjust "properties"
        (Json.mapEntries fun name prop => if name ∈ propertyNames obj then prop else makeNullable prop)
        (enforceStrict obj) = enforceStrict obj := by
      refine Fields.adjust_eq_self fun v hv => ?_
      cases v with
      | object map =>
        refine congrArg Json.object ((List.map_congr_left fun entry hentry => ?_).trans (List.map_id _))
        have hname : entry.1 ∈ propertyNames obj := by
          rw [← hnames, propertyNames, hv]
          exact mem_sortedKeys_of_mem hentry
        exact congrArg (Prod.mk entry.1) (if_pos hname)
      | _ => rfl
    rw [enforceStrict_of_props (isObjectWithProps_enforceStrict.trans h), hnames, hrequired, hadditional,
      hproperties, enforceStrict_of_props h, Fields.insert_insert]
  · unfold enforceStrict
    rw [if_neg h, if_neg h]

theorem convertToStrict_idem (node : Json) :
    convertToStrict (convertToStrict node) = convertToStrict node := by
  induction node using Json.size_induction with
  | h node ih =>
    cases node with
    | object obj =>
      have hnested : Fields.mapValues (nested convertToStrict) (Fields.mapValues (nested convertToStrict) obj) =
          Fields.mapValues (nested convertToStrict) obj := by
        unfold Fields.mapValues
        rw [List.map_map]
        refine List.map_congr_left fun entry hentry => congrArg (Prod.mk entry.1) ?_
        show nested _ _ (nested _ _ _) = _
        rw [nested_comp isObject_convertToStrict]
        exact nested_congr fun part hpart => ih part (hpart.trans_lt (sizeOf_entry_lt hentry))
      rw [convertToStrict_object, convertToStrict_object,
        ← enforceStrict_nested convertToStrict_makeNullable, hnested, enforceStrict_idem]
    | _ => rfl

end Apcore
