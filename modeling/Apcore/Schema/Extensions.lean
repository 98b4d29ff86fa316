import Apcore.Schema.Positions
import Apcore.Schema.Keys
import Apcore.Text

/-! # `Schema.Extensions` — rewrites at the positions of schemas, and extension keywords

A rewrite acts at the positions of a table where the object schemas in what it makes of a schema are
what it makes of those in the schema. What it does to one of them it then does at every place. -/

namespace Apcore

namespace Positions

variable {positions : Positions} {way place : Place}

theorem Step.exists_key (h : positions.Step way) : ∃ keyword rest holding,
    way = .key keyword :: rest ∧ (keyword, holding) ∈ positions := by
  cases h with
  | one h => exact ⟨_, _, _, rfl, h⟩
  | list h i => exact ⟨_, _, _, rfl, h⟩
  | named h name => exact ⟨_, _, _, rfl, h⟩

/-- Only an object has a schema in it. -/
theorem Step.isObject (h : positions.Step way) {node child : Json}
    (hchild : node.descend way = some child) : node.isObject = true := by
  obtain ⟨keyword, rest, holding, rfl, -⟩ := h.exists_key
  obtain ⟨v, hv, -⟩ := Option.bind_eq_some_iff.mp hchild
  exact Json.isObject_of_ofJson? hv

theorem Reaches.isObject (h : positions.Reaches place) {node leaf : Json}
    (hleaf : node.descend place = some leaf) (hobject : leaf.isObject = true) :
    node.isObject = true := by
  cases h with
  | here =>
    obtain rfl := Option.some.inj hleaf
    exact hobject
  | step hstep hrest =>
    rw [Json.descend_append] at hleaf
    obtain ⟨child, hchild, -⟩ := Option.bind_eq_some_iff.mp hleaf
    exact hstep.isObject hchild

/-! ## Everywhere in a schema -/

/-- Every schema in a schema has a property. -/
def Everywhere (positions : Positions) (P : Json → Prop) (v : Json) : Prop :=
  ∀ place node, positions.Reaches place → v.descend place = some node → P node

theorem everywhere_iff {P : Json → Prop} {v : Json} : positions.Everywhere P v ↔
    P v ∧ ∀ way child, positions.Step way → v.descend way = some child → positions.Everywhere P child := by
  constructor
  · intro h
    refine ⟨h [] v .here rfl, fun way child hstep hchild rest node hrest hnode => ?_⟩
    refine h (way ++ rest) node (.step hstep hrest) ?_
    rw [Json.descend_append, hchild]
    exact hnode
  · rintro ⟨hv, hsteps⟩ place node hplace hnode
    cases hplace with
    | here =>
      obtain rfl := Option.some.inj hnode
      exact hv
    | step hstep hrest =>
      rw [Json.descend_append] at hnode
      obtain ⟨child, hchild, hnode⟩ := Option.bind_eq_some_iff.mp hnode
      exact hsteps _ child hstep hchild _ node hrest hnode

end Positions

/-! ## Rewrites -/

/-- A rewrite goes from an object schema to those in it. -/
structure ActsAt (positions : Positions) (f : Json → Json) : Prop where
  isObject : ∀ v, (f v).isObject = v.isObject
  step : ∀ node way child', positions.Step way → child'.isObject = true →
    ((f node).descend way = some child' ↔
      ∃ child, node.descend way = some child ∧ child.isObject = true ∧ f child = child')

namespace ActsAt

variable {positions : Positions} {f : Json → Json} {place : Place}

/-- The object schemas of the result are what the rewrite makes of those of the schema. -/
theorem descend_iff (h : ActsAt positions f) (hplace : positions.Reaches place) {node leaf' : Json}
    (hobject : leaf'.isObject = true) : (f node).descend place = some leaf' ↔
      ∃ leaf, node.descend place = some leaf ∧ leaf.isObject = true ∧ f leaf = leaf' := by
  induction hplace generalizing node with
  | here =>
    constructor
    · intro hleaf
      obtain rfl := Option.some.inj hleaf
      exact ⟨node, rfl, (h.isObject node).symm.trans hobject, rfl⟩
    · rintro ⟨leaf, hleaf, -, rfl⟩
      obtain rfl := Option.some.inj hleaf
      rfl
  | @step way rest hstep hrest ih =>
    rw [Json.descend_append, Json.descend_append, Option.bind_eq_some_iff]
    constructor
    · rintro ⟨child', hchild', hleaf'⟩
      obtain ⟨child, hchild, -, rfl⟩ :=
        (h.step node way child' hstep (hrest.isObject hleaf' hobject)).mp hchild'
      obtain ⟨leaf, hleaf, hleafObject, heq⟩ := ih.mp hleaf'
      exact ⟨leaf, by rw [hchild]; exact hleaf, hleafObject, heq⟩
    · rintro ⟨leaf, hleaf, hleafObject, heq⟩
      obtain ⟨child, hchild, hleaf⟩ := Option.bind_eq_some_iff.mp hleaf
      have hchildObject := hrest.isObject hleaf hleafObject
      exact ⟨f child, (h.step node way _ hstep ((h.isObject child).trans hchildObject)).mpr
        ⟨child, hchild, hchildObject, rfl⟩, ih.mpr ⟨leaf, hleaf, hleafObject, heq⟩⟩

theorem mono {positions' : Positions} (h : ActsAt positions f) (hsub : positions' ⊆ positions) :
    ActsAt positions' f where
  isObject := h.isObject
  step node way child' hstep := h.step node way child' (hstep.mono hsub)

theorem descend (h : ActsAt positions f) (hplace : positions.Reaches place) {node leaf : Json}
    (hleaf : node.descend place = some leaf) (hobject : leaf.isObject = true) :
    (f node).descend place = some (f leaf) :=
  (h.descend_iff hplace ((h.isObject leaf).trans hobject)).mpr ⟨leaf, hleaf, hobject, rfl⟩

end ActsAt

/-! ## Walks that know names -/

/-- A walk goes into the values of an object schema: into the objects and the elements it takes for
schemas, and through the maps of names. -/
structure NameAware (f : Json → Json) (value : Bool → Json → Json) (item : Json → Json)
    (nameMap kept : String → Bool) : Prop where
  isObject : ∀ v, (f v).isObject = v.isObject
  isObject_value : ∀ names v, (value names v).isObject = v.isObject
  isObject_item : ∀ v, (item v).isObject = v.isObject
  value_of_object : ∀ v, v.isObject = true → value false v = f v
  item_of_object : ∀ v, v.isObject = true → item v = f v
  keyword : ∀ node key, kept key = true →
    Fields.ofJson? (f node) key = (Fields.ofJson? node key).map (value (nameMap key))
  name : ∀ v key, Fields.ofJson? (value true v) key = (Fields.ofJson? v key).map (value false)
  array : ∀ names elems, value names (.array elems) = .array (elems.map item)
  array_of_value : ∀ names v elems, value names v = .array elems → ∃ elems', v = .array elems'

theorem NameAware.actsAt {f : Json → Json} {value : Bool → Json → Json} {item : Json → Json}
    {nameMap kept : String → Bool} (h : NameAware f value item nameMap kept) {positions : Positions}
    (hpositions : ∀ entry ∈ positions, kept entry.1 = true ∧ nameMap entry.1 = decide (entry.2 = .named)) :
    ActsAt positions f where
  isObject := h.isObject
  step node way child' hstep hobject := by
    -- by a function that is the rewrite on object schemas
    have hmap : ∀ {g : Json → Json}, (∀ v, v.isObject = true → g v = f v) →
        (∀ v, (g v).isObject = v.isObject) → (f node).descend way = (node.descend way).map g →
        ((f node).descend way = some child' ↔
          ∃ child, node.descend way = some child ∧ child.isObject = true ∧ f child = child') := by
      intro g hg hgObject hdescend
      rw [hdescend, Option.map_eq_some_iff]
      constructor
      · rintro ⟨child, hchild, rfl⟩
        have hchildObject := (hgObject child).symm.trans hobject
        exact ⟨child, hchild, hchildObject, (hg child hchildObject).symm⟩
      · rintro ⟨child, hchild, hchildObject, rfl⟩
        exact ⟨child, hchild, hg child hchildObject⟩
    cases hstep with
    | @one keyword hmem =>
      obtain ⟨hkept, hnames⟩ := hpositions _ hmem
      refine hmap (g := value false) h.value_of_object (h.isObject_value false) ?_
      show (Fields.ofJson? (f node) keyword).bind some = ((Fields.ofJson? node keyword).bind some).map _
      rw [Option.bind_fun_some, Option.bind_fun_some, h.keyword node keyword hkept, hnames]
      rfl
    | @list keyword hmem i =>
      obtain ⟨hkept, -⟩ := hpositions _ hmem
      refine hmap (g := item) h.item_of_object h.isObject_item ?_
      rw [Json.descend_cons, Json.descend_cons]
      show (Fields.ofJson? (f node) keyword).bind _ = ((Fields.ofJson? node keyword).bind _).map _
      rw [h.keyword node keyword hkept]
      cases Fields.ofJson? node keyword with
      | none => rfl
      | some v =>
        show (((value (nameMap keyword) v).asArray?.bind (·[i]?)).bind some) =
          (((v.asArray?.bind (·[i]?)).bind some)).map item
        rw [Option.bind_fun_some, Option.bind_fun_some]
        cases v with
        | array elems =>
          rw [h.array]
          exact List.getElem?_map
        | _ =>
          cases hvalue : value (nameMap keyword) _ with
          | array elems =>
            obtain ⟨elems', heq⟩ := h.array_of_value _ _ _ hvalue
            cases heq
          | _ => rfl
    | @named keyword hmem name =>
      obtain ⟨hkept, hnames⟩ := hpositions _ hmem
      refine hmap (g := value false) h.value_of_object (h.isObject_value false) ?_
      rw [Json.descend_cons, Json.descend_cons]
      show (Fields.ofJson? (f node) keyword).bind _ = ((Fields.ofJson? node keyword).bind _).map _
      rw [h.keyword node keyword hkept, hnames]
      cases Fields.ofJson? node keyword with
      | none => rfl
      | some v =>
        show (Fields.ofJson? (value true v) name).bind some = ((Fields.ofJson? v name).bind some).map _
        rw [Option.bind_fun_some, Option.bind_fun_some, h.name]

end Apcore

/-! ## Stripping extension keywords, and descriptions for models

Both walks go through a schema by its values, whatever they hold, and tell the keys of a schema from
names by the keyword the object stands under. -/

namespace Apcore

/-! ## The walks -/

/-- `schema_name_map`. -/
def schemaNameMap (key : String) : Bool :=
  ["properties", "patternProperties", "$defs", "definitions", "dependentSchemas"].contains key

/-- A key that is removed where it is a keyword. -/
def isExtension (removeDefaults : Bool) (key : String) : Bool :=
  (stripLead "x-" key).isSome || (removeDefaults && key == "default")

mutual

/-- `strip_extensions`. -/
def stripExtensions : Json → Bool → Bool → Json
  | .object obj, names, removeDefaults => .object (stripEntries obj names removeDefaults)
  | other, _, _ => other

/-- The entries that stay, with what is in them. -/
def stripEntries : List (String × Json) → Bool → Bool → List (String × Json)
  | [], _, _ => []
  | (key, val) :: rest, names, removeDefaults =>
    if !names && isExtension removeDefaults key then stripEntries rest names removeDefaults
    else (key, stripValue val (!names && schemaNameMap key) removeDefaults) ::
      stripEntries rest names removeDefaults

/-- What is in a value: an object, or the objects of an array. -/
def stripValue : Json → Bool → Bool → Json
  | .object obj, names, removeDefaults => .object (stripEntries obj names removeDefaults)
  | .array arr, _, removeDefaults => .array (stripItems arr removeDefaults)
  | other, _, _ => other

def stripItems : List Json → Bool → List Json
  | [], _ => []
  | item :: rest, removeDefaults =>
    stripExtensions item false removeDefaults :: stripItems rest removeDefaults

end

/-- `strip_extension_keywords`. -/
def stripExtensionKeywords (schema : Json) : Json := stripExtensions schema false false

/-- The description of a node: the one for models, where there are both. -/
def describe (names : Bool) (obj : List (String × Json)) : List (String × Json) :=
  if !names && Fields.containsKey obj "description" then
    match Fields.get? obj "x-llm-description" with
    | some llmDesc => Fields.adjust "description" (fun _ => llmDesc) obj
    | none => obj
  else obj

mutual

/-- `apply_llm_descriptions_in_place`. What is in the values is described first; `applyLlm_object` has
the order of the source. -/
def applyLlm : Json → Bool → Json
  | .object obj, names => .object (describe names (applyLlmEntries obj names))
  | .array arr, _ => .array (applyLlmItems arr)
  | other, _ => other

def applyLlmEntries : List (String × Json) → Bool → List (String × Json)
  | [], _ => []
  | (key, v) :: rest, names =>
    (key, applyLlm v (!names && schemaNameMap key)) :: applyLlmEntries rest names

def applyLlmItems : List Json → List Json
  | [] => []
  | v :: rest => applyLlm v false :: applyLlmItems rest

end

/-- `apply_llm_descriptions`. -/
def applyLlmDescriptions (schema : Json) : Json := applyLlm schema false

/-! ## Entries and items -/

section

variable {names removeDefaults : Bool}

theorem stripItems_eq (arr : List Json) :
    stripItems arr removeDefaults = arr.map fun item => stripExtensions item false removeDefaults := by
  induction arr with
  | nil => rfl
  | cons item rest ih => rw [stripItems, ih, List.map_cons]

/-- The entries that stay are those that are not removed, each with what is in it. -/
theorem stripEntries_eq (obj : List (String × Json)) : stripEntries obj names removeDefaults =
    Fields.mapValues (fun key v => stripValue v (!names && schemaNameMap key) removeDefaults)
      (obj.filter fun entry => !(!names && isExtension removeDefaults entry.1)) := by
  induction obj with
  | nil => rfl
  | cons entry rest ih =>
    obtain ⟨key, val⟩ := entry
    rw [stripEntries]
    by_cases h : (!names && isExtension removeDefaults key) = true
    · rw [if_pos h, ih, List.filter_cons_of_neg (by rw [h]; exact Bool.false_ne_true)]
    · rw [if_neg h, ih, List.filter_cons_of_pos (by rw [Bool.not_eq_true] at h; rw [h]; rfl)]
      rfl

theorem stripValue_object (obj : List (String × Json)) :
    stripValue (.object obj) names removeDefaults = stripExtensions (.object obj) names removeDefaults :=
  rfl

theorem applyLlmItems_eq (arr : List Json) :
    applyLlmItems arr = arr.map fun item => applyLlm item false := by
  induction arr with
  | nil => rfl
  | cons item rest ih => rw [applyLlmItems, ih, List.map_cons]

theorem applyLlmEntries_eq (obj : List (String × Json)) : applyLlmEntries obj names =
    Fields.mapValues (fun key v => applyLlm v (!names && schemaNameMap key)) obj := by
  induction obj with
  | nil => rfl
  | cons entry rest ih =>
    rw [applyLlmEntries, ih]
    rfl

/-- The order of the source: the description of a node comes before what is in its values. -/
theorem applyLlm_object (obj : List (String × Json)) : applyLlm (.object obj) names =
    .object (Fields.mapValues (fun key v => applyLlm v (!names && schemaNameMap key))
      (describe names obj)) := by
  rw [applyLlm, applyLlmEntries_eq]
  unfold describe Fields.containsKey
  rw [Fields.get?_mapValues, Option.isSome_map, Fields.get?_mapValues]
  split
  · cases hllm : Fields.get? obj "x-llm-description" with
    | none => rfl
    | some llmDesc =>
      dsimp only [Option.map_some]
      refine congrArg Json.object (Fields.mapValues_adjust ?_ obj).symm
      exact fun _ => rfl
  · rfl

/-- A keyword that stays is looked up as before, and is walked into. -/
theorem ofJson?_stripExtensions {key : String} (h : isExtension removeDefaults key = false ∨ names = true)
    (node : Json) : Fields.ofJson? (stripExtensions node names removeDefaults) key =
      (Fields.ofJson? node key).map fun v => stripValue v (!names && schemaNameMap key) removeDefaults := by
  cases node with
  | object obj =>
    show Fields.get? (stripEntries obj names removeDefaults) key = _
    rw [stripEntries_eq, Fields.get?_mapValues, Fields.get?_filter]
    · rfl
    · intro v
      rcases h with h | h
      · rw [h, Bool.and_false, Bool.not_false]
      · rw [h]
        rfl
  | _ => rfl

/-- A removed keyword is gone. -/
theorem ofJson?_stripExtensions_of_isExtension {key : String} (h : isExtension removeDefaults key = true)
    (node : Json) : Fields.ofJson? (stripExtensions node false removeDefaults) key = none := by
  cases node with
  | object obj =>
    show Fields.get? (stripEntries obj false removeDefaults) key = none
    rw [stripEntries_eq]
    refine Fields.get?_eq_none fun hmem => ?_
    obtain ⟨entry, hentry, rfl⟩ := List.mem_map.mp hmem
    obtain ⟨entry', hentry', rfl⟩ := List.mem_map.mp hentry
    have hstays := (List.mem_filter.mp hentry').2
    rw [h] at hstays
    cases hstays
  | _ => rfl

end

/-! ## Both act at the positions of schemas -/

theorem isObject_stripExtensions (v : Json) (names removeDefaults : Bool) :
    (stripExtensions v names removeDefaults).isObject = v.isObject := by
  cases v <;> rfl

theorem isObject_stripValue (v : Json) (names removeDefaults : Bool) :
    (stripValue v names removeDefaults).isObject = v.isObject := by
  cases v <;> rfl

theorem isObject_applyLlm (v : Json) (names : Bool) : (applyLlm v names).isObject = v.isObject := by
  cases v <;> rfl

theorem stripValue_of_object {v : Json} (h : v.isObject = true) (names removeDefaults : Bool) :
    stripValue v names removeDefaults = stripExtensions v names removeDefaults := by
  cases v with
  | object obj => rfl
  | _ => cases h

theorem ofJson?_stripValue (v : Json) (key : String) (removeDefaults : Bool) :
    Fields.ofJson? (stripValue v true removeDefaults) key =
      (Fields.ofJson? v key).map fun child => stripValue child false removeDefaults := by
  cases v with
  | object obj => exact @ofJson?_stripExtensions true _ _ (.inr rfl) (.object obj)
  | _ => rfl

theorem get?_describe {names : Bool} {key : String} (h : key ≠ "description")
    (obj : List (String × Json)) : Fields.get? (describe names obj) key = Fields.get? obj key := by
  unfold describe
  split
  · split
    · exact Fields.get?_adjust_ne h _ _
    · rfl
  · rfl

theorem ofJson?_applyLlm {names : Bool} {key : String} (h : key ≠ "description" ∨ names = true)
    (node : Json) : Fields.ofJson? (applyLlm node names) key =
      (Fields.ofJson? node key).map fun v => applyLlm v (!names && schemaNameMap key) := by
  cases node with
  | object obj =>
    rw [applyLlm_object]
    show Fields.get? (Fields.mapValues _ _) key = _
    rw [Fields.get?_mapValues]
    rcases h with h | rfl
    · rw [get?_describe h]
      rfl
    · rfl
  | _ => rfl

theorem stripExtensions_nameAware (removeDefaults : Bool) :
    NameAware (fun v => stripExtensions v false removeDefaults)
      (fun names v => stripValue v names removeDefaults)
      (fun v => stripExtensions v false removeDefaults) schemaNameMap
      (fun key => !isExtension removeDefaults key) where
  isObject v := isObject_stripExtensions v _ _
  isObject_value names v := isObject_stripValue v _ _
  isObject_item v := isObject_stripExtensions v _ _
  value_of_object v h := stripValue_of_object h _ _
  item_of_object v h := rfl
  keyword node key h := @ofJson?_stripExtensions false _ _ (.inl (by simpa using h)) node
  name v key := ofJson?_stripValue v key removeDefaults
  array names elems := by rw [stripValue, stripItems_eq]
  array_of_value names v elems h := by
    cases v with
    | array elems' => exact ⟨elems', rfl⟩
    | _ => cases h

theorem applyLlm_nameAware : NameAware (fun v => applyLlm v false) (fun names v => applyLlm v names)
    (fun v => applyLlm v false) schemaNameMap (fun key => key != "description") where
  isObject v := isObject_applyLlm v _
  isObject_value names v := isObject_applyLlm v _
  isObject_item v := isObject_applyLlm v _
  value_of_object v h := rfl
  item_of_object v h := rfl
  keyword node key h := @ofJson?_applyLlm false _ (.inl (by simpa using h)) node
  name v key := @ofJson?_applyLlm true _ (.inr rfl) v
  array names elems := by rw [applyLlm, applyLlmItems_eq]
  array_of_value names v elems h := by
    cases v with
    | array elems' => exact ⟨elems', rfl⟩
    | _ => cases h

theorem stripExtensions_actsAt (removeDefaults : Bool) :
    ActsAt allPositions fun v => stripExtensions v false removeDefaults := by
  refine (stripExtensions_nameAware removeDefaults).actsAt ?_
  cases removeDefaults <;> decide

theorem applyLlm_actsAt : ActsAt allPositions fun v => applyLlm v false :=
  applyLlm_nameAware.actsAt (by decide)

end Apcore
