import Apcore.Schema.Strict

/-! # `Schema.StrictLaws` — what strict mode reaches

The conversion goes into the schemas of some keywords and passes over those of others. The schemas it
comes to are closed and require all their properties; those beneath a keyword it passes over are as
they were, but for their extension keywords. -/

namespace Apcore

open Positions (Everywhere everywhere_iff)

/-! ## What the conversion makes of the schemas in a schema -/

/-- The keywords `recurse_into_nested` goes into. -/
def strictPositions : Positions :=
  [("properties", .named), ("items", .one), ("prefixItems", .list), ("oneOf", .list),
    ("anyOf", .list), ("allOf", .list), ("definitions", .named), ("$defs", .named)]

/-- The keywords of the other schema positions. -/
def passedOver : Positions :=
  [("patternProperties", .named), ("items", .list), ("not", .one), ("if", .one), ("then", .one),
    ("else", .one), ("dependentSchemas", .named)]

theorem mem_schemaPositions {entry : String × Holding} :
    entry ∈ schemaPositions ↔ entry ∈ strictPositions ∨ entry ∈ passedOver := by
  constructor
  · have hall : ∀ entry ∈ schemaPositions, entry ∈ strictPositions ∨ entry ∈ passedOver := by decide
    exact hall entry
  · have hstrict : strictPositions ⊆ schemaPositions := by decide
    have hpassed : passedOver ⊆ schemaPositions := by decide
    exact fun h => h.elim (@hstrict entry) (@hpassed entry)

theorem step_schemaPositions {way : Place} :
    schemaPositions.Step way ↔ strictPositions.Step way ∨ passedOver.Step way := by
  constructor
  · intro h
    cases h with
    | one h => exact (mem_schemaPositions.mp h).imp .one .one
    | list h i => exact (mem_schemaPositions.mp h).imp (.list · i) (.list · i)
    | named h name => exact (mem_schemaPositions.mp h).imp (.named · name) (.named · name)
  · intro h
    exact h.elim (.mono fun _ h => mem_schemaPositions.mpr (.inl h))
      (.mono fun _ h => mem_schemaPositions.mpr (.inr h))

theorem schemaPositions_subset : schemaPositions ⊆ allPositions := List.subset_append_left _ _

/-- The positions that the conversion does not go into, but for the one it may replace. -/
def untouched : Positions :=
  passedOver ++ [("additionalProperties", .one), ("additionalItems", .one), ("contains", .one),
    ("propertyNames", .one), ("unevaluatedItems", .one), ("unevaluatedProperties", .one)]

theorem step_allPositions {way : Place} (h : allPositions.Step way) :
    strictPositions.Step way ∨ untouched.Step way := by
  have hall : ∀ entry ∈ allPositions, entry ∈ strictPositions ∨ entry ∈ untouched := by decide
  cases h with
  | one h => exact (hall _ h).imp .one .one
  | list h i => exact (hall _ h).imp (.list · i) (.list · i)
  | named h name => exact (hall _ h).imp (.named · name) (.named · name)

/-- What becomes of a property. -/
def convertedProperty (obj : List (String × Json)) (name : String) (prop : Json) : Json :=
  if isObjectWithProps obj = true ∧ name ∉ requiredNames obj then makeNullable (convertToStrict prop)
  else convertToStrict prop

variable {obj : List (String × Json)}

theorem get?_convert {keyword : String} (hrequired : keyword ≠ "required")
    (hadditional : keyword ≠ "additionalProperties" ∨ isObjectWithProps obj ≠ true)
    (hproperties : keyword ≠ "properties") :
    Fields.ofJson? (convertToStrict (.object obj)) keyword =
      (Fields.get? obj keyword).map (nested convertToStrict keyword) := by
  rw [convertToStrict_object]
  show Fields.get? (enforceStrict _) keyword = _
  rcases hadditional with hadditional | hprops
  · rw [get?_enforceStrict hrequired hadditional hproperties, Fields.get?_mapValues]
  · unfold enforceStrict
    rw [if_neg (by rwa [isObjectWithProps_nested]), Fields.get?_mapValues]

theorem get?_convert_properties :
    Fields.ofJson? (convertToStrict (.object obj)) "properties" =
      (Fields.get? obj "properties").map (Json.mapEntries (convertedProperty obj)) := by
  rw [convertToStrict_object]
  show Fields.get? (enforceStrict _) "properties" = _
  by_cases h : isObjectWithProps obj = true
  · rw [get?_enforceStrict_properties (isObjectWithProps_nested.trans h), Fields.get?_mapValues,
      Option.map_map, requiredNames_nested]
    congr 1
    funext v
    cases v with
    | object map =>
      refine congrArg Json.object (List.map_map.trans (List.map_congr_left fun entry _ => ?_))
      refine congrArg (Prod.mk entry.1) ?_
      unfold convertedProperty
      by_cases hname : entry.1 ∈ requiredNames obj
      · rw [if_neg fun hboth => hboth.2 hname]
        exact if_pos hname
      · rw [if_pos ⟨h, hname⟩]
        exact if_neg hname
    | _ => rfl
  · unfold enforceStrict
    rw [if_neg (by rwa [isObjectWithProps_nested]), Fields.get?_mapValues]
    congr 1
    funext v
    cases v with
    | object map =>
      refine congrArg Json.object (List.map_congr_left fun entry _ => ?_)
      refine congrArg (Prod.mk entry.1) ?_
      unfold convertedProperty
      rw [if_neg fun hboth => h hboth.1]
    | _ => rfl

theorem select_mapEntries (f : String → Json → Json) (v : Json) (name : String) :
    (v.mapEntries f).select (.key name) = (v.select (.key name)).map (f name) := by
  cases v with
  | object map => exact Fields.get?_mapValues f map name
  | _ => rfl

theorem select_mapElems (f : Json → Json) (v : Json) (i : Nat) :
    (v.mapElems f).select (.index i) = (v.select (.index i)).map f := by
  cases v with
  | array elems => exact List.getElem?_map
  | _ => rfl

/-- The properties of the result. -/
theorem descend_convert_property (name : String) :
    (convertToStrict (.object obj)).descend [.key "properties", .key name] =
      ((Json.object obj).descend [.key "properties", .key name]).map (convertedProperty obj name) := by
  rw [Json.descend_cons, Json.descend_cons]
  show (Fields.ofJson? _ "properties").bind _ = ((Fields.get? obj "properties").bind _).map _
  rw [get?_convert_properties]
  cases Fields.get? obj "properties" with
  | none => rfl
  | some v =>
    show ((v.mapEntries _).select (.key name)).bind some = ((v.select (.key name)).bind some).map _
    rw [Option.bind_fun_some, Option.bind_fun_some, select_mapEntries]

/-- The other schemas the conversion goes into. -/
theorem descend_convert {way : Place} (h : strictPositions.Step way)
    (hproperty : ∀ name, way ≠ [.key "properties", .key name]) :
    (convertToStrict (.object obj)).descend way =
      ((Json.object obj).descend way).map convertToStrict := by
  have hkey : ∀ {keyword holding}, (keyword, holding) ∈ strictPositions → keyword ≠ "properties" →
      Fields.ofJson? (convertToStrict (.object obj)) keyword =
        (Fields.get? obj keyword).map (nested convertToStrict keyword) := by
    intro keyword holding hmem hne
    have hother : ∀ entry ∈ strictPositions, entry.1 ≠ "required" ∧ entry.1 ≠ "additionalProperties" := by
      decide
    exact get?_convert (hother _ hmem).1 (.inl (hother _ hmem).2) hne
  cases h with
  | @one keyword hmem =>
    have hitems : keyword = "items" := by
      have hall : ∀ entry ∈ strictPositions, entry.2 = .one → entry.1 = "items" := by decide
      exact hall _ hmem rfl
    subst hitems
    show (Fields.ofJson? _ "items").bind some = ((Fields.get? obj "items").bind some).map _
    rw [Option.bind_fun_some, Option.bind_fun_some, hkey hmem (by decide)]
    congr 1
    funext v
    show (if v.isObject then convertToStrict v else v) = convertToStrict v
    cases v <;> rfl
  | @list keyword hmem i =>
    have hlisted : ["properties", "definitions", "$defs"].contains keyword = false ∧
        (keyword == "items") = false ∧ ["prefixItems", "oneOf", "anyOf", "allOf"].contains keyword = true := by
      have hall : ∀ entry ∈ strictPositions, entry.2 = .list →
          ["properties", "definitions", "$defs"].contains entry.1 = false ∧ (entry.1 == "items") = false ∧
            ["prefixItems", "oneOf", "anyOf", "allOf"].contains entry.1 = true := by decide
      exact hall _ hmem rfl
    have hne : keyword ≠ "properties" := by
      rintro rfl
      exact absurd hlisted.1 (by decide)
    rw [Json.descend_cons, Json.descend_cons]
    show (Fields.ofJson? _ keyword).bind _ = ((Fields.get? obj keyword).bind _).map _
    rw [hkey hmem hne]
    cases Fields.get? obj keyword with
    | none => rfl
    | some v =>
      show ((nested convertToStrict keyword v).select (.index i)).bind some =
        ((v.select (.index i)).bind some).map _
      unfold nested
      rw [hlisted.1, hlisted.2.1, hlisted.2.2, if_neg Bool.false_ne_true, if_neg Bool.false_ne_true,
        if_pos rfl, Option.bind_fun_some, Option.bind_fun_some, select_mapElems]
  | @named keyword hmem name =>
    have hnamed : ["properties", "definitions", "$defs"].contains keyword = true := by
      have hall : ∀ entry ∈ strictPositions, entry.2 = .named →
          ["properties", "definitions", "$defs"].contains entry.1 = true := by decide
      exact hall _ hmem rfl
    have hne : keyword ≠ "properties" := by
      rintro rfl
      exact hproperty name rfl
    rw [Json.descend_cons, Json.descend_cons]
    show (Fields.ofJson? _ keyword).bind _ = ((Fields.get? obj keyword).bind _).map _
    rw [hkey hmem hne]
    cases Fields.get? obj keyword with
    | none => rfl
    | some v =>
      show ((nested convertToStrict keyword v).select (.key name)).bind some =
        ((v.select (.key name)).bind some).map _
      unfold nested
      rw [if_pos hnamed, Option.bind_fun_some, Option.bind_fun_some, select_mapEntries]

/-- The schemas it does not go into. -/
theorem descend_convert_untouched {way : Place} (h : untouched.Step way)
    (hadditional : way = [.key "additionalProperties"] → isObjectWithProps obj ≠ true) :
    (convertToStrict (.object obj)).descend way = (Json.object obj).descend way := by
  have hkey : ∀ entry ∈ untouched, entry.1 ≠ "required" ∧ entry.1 ≠ "properties" := by decide
  have hsame : ∀ {keyword holding}, (keyword, holding) ∈ untouched → keyword ≠ "items" →
      keyword ≠ "additionalProperties" ∨ isObjectWithProps obj ≠ true →
      Fields.ofJson? (convertToStrict (.object obj)) keyword = Fields.get? obj keyword := by
    intro keyword holding hmem hitems hopen
    have hother : ∀ entry ∈ untouched, entry.1 ≠ "items" →
        ["properties", "definitions", "$defs"].contains entry.1 = false ∧ (entry.1 == "items") = false ∧
          ["prefixItems", "oneOf", "anyOf", "allOf"].contains entry.1 = false := by decide
    obtain ⟨hnamed, hnotItems, hlisted⟩ := hother _ hmem hitems
    rw [get?_convert (hkey _ hmem).1 hopen (hkey _ hmem).2]
    cases Fields.get? obj keyword with
    | none => rfl
    | some v =>
      rw [Option.map_some, nested, hnamed, hnotItems, hlisted, if_neg Bool.false_ne_true,
        if_neg Bool.false_ne_true, if_neg Bool.false_ne_true]
  cases h with
  | @one keyword hmem =>
    have hitems : ∀ entry ∈ untouched, entry.2 = .one → entry.1 ≠ "items" := by decide
    have hopen : keyword ≠ "additionalProperties" ∨ isObjectWithProps obj ≠ true := by
      rw [or_iff_not_imp_left, not_not]
      rintro rfl
      exact hadditional rfl
    show (Fields.ofJson? _ _).bind some = (Fields.get? obj _).bind some
    rw [hsame hmem (hitems _ hmem rfl) hopen]
  | @list keyword hmem i =>
    have hitems : keyword = "items" := by
      have hall : ∀ entry ∈ untouched, entry.2 = .list → entry.1 = "items" := by decide
      exact hall _ hmem rfl
    subst hitems
    rw [Json.descend_cons, Json.descend_cons]
    show (Fields.ofJson? _ "items").bind _ = (Fields.get? obj "items").bind _
    rw [get?_convert (by decide) (.inl (by decide)) (by decide)]
    cases Fields.get? obj "items" with
    | none => rfl
    | some v =>
      cases v with
      | object map =>
        show ((convertToStrict (.object map)).select (.index i)).bind some = none
        rw [convertToStrict_object]
        rfl
      | _ => rfl
  | @named keyword hmem name =>
    have hitems : ∀ entry ∈ untouched, entry.2 = .named →
        entry.1 ≠ "items" ∧ entry.1 ≠ "additionalProperties" := by decide
    rw [Json.descend_cons, Json.descend_cons]
    show (Fields.ofJson? _ _).bind _ = (Fields.get? obj _).bind _
    rw [hsame hmem (hitems _ hmem rfl).1 (.inl (hitems _ hmem rfl).2)]

theorem descend_convert_passedOver {way : Place} (h : passedOver.Step way) :
    (convertToStrict (.object obj)).descend way = (Json.object obj).descend way := by
  refine descend_convert_untouched (h.mono (List.subset_append_left _ _)) fun heq => ?_
  obtain ⟨keyword, rest, holding, rfl, hmem⟩ := h.exists_key
  have hother : ∀ entry ∈ passedOver, entry.1 ≠ "additionalProperties" := by decide
  exact absurd (Selector.key.inj (List.cons.inj heq).1) (hother _ hmem)

/-! ## Properties of every schema in the result -/

theorem descend_widened {way : Place} (h : allPositions.Step way) :
    (Json.object (Fields.adjust "type" widenType obj)).descend way = (Json.object obj).descend way := by
  obtain ⟨keyword, rest, holding, rfl, hmem⟩ := h.exists_key
  have htype : ∀ entry ∈ allPositions, entry.1 ≠ "type" := by decide
  rw [Json.descend_cons, Json.descend_cons]
  show (Fields.get? _ keyword).bind _ = (Fields.get? obj keyword).bind _
  rw [Fields.get?_adjust_ne (htype _ hmem)]

/-- The union with `null`. -/
def nullableUnion (schema : Json) : Json := .object [("anyOf", .array [schema, nullSchema])]

theorem step_nullableUnion {way : Place} {schema child : Json} (h : schemaPositions.Step way)
    (hchild : (nullableUnion schema).descend way = some child) :
    way = [.key "anyOf", .index 0] ∧ child = schema ∨ child = nullSchema := by
  obtain ⟨keyword, rest, holding, rfl, hmem⟩ := h.exists_key
  rw [Json.descend_cons] at hchild
  obtain ⟨v, hv, hrest⟩ := Option.bind_eq_some_iff.mp hchild
  change Fields.get? [("anyOf", Json.array [schema, nullSchema])] keyword = some v at hv
  rw [Fields.get?_cons] at hv
  obtain ⟨rfl, hv⟩ := Option.ite_none_right_eq_some.mp hv
  obtain rfl := Option.some.inj hv
  cases h with
  | one h => exact absurd h (show ("anyOf", Holding.one) ∉ schemaPositions by decide)
  | list h i =>
    match i, hrest with
    | 0, hrest => exact .inl ⟨rfl, (Option.some.inj hrest).symm⟩
    | 1, hrest => exact .inr (Option.some.inj hrest).symm
    | i + 2, hrest => cases hrest
  | named h name => exact absurd h (show ("anyOf", Holding.named) ∉ schemaPositions by decide)

variable {P : Json → Prop}

/-- What holds of every schema in a property holds of those in the nullable one. -/
theorem everywhere_makeNullable (hunion : ∀ schema, P (nullableUnion schema)) (hnull : P nullSchema)
    (hwiden : ∀ obj, P (.object (Fields.adjust "type" widenType obj)) ↔ P (.object obj)) (prop : Json) :
    Everywhere schemaPositions P (makeNullable prop) ↔ Everywhere schemaPositions P prop := by
  cases prop with
  | object obj =>
    rw [makeNullable]
    split
    · show Everywhere schemaPositions P (nullableUnion (.object obj)) ↔ _
      rw [everywhere_iff]
      constructor
      · rintro ⟨-, hsteps⟩
        exact hsteps [.key "anyOf", .index 0] _ (.list (by decide) 0) rfl
      · intro h
        refine ⟨hunion _, fun way child hstep hchild => ?_⟩
        rcases step_nullableUnion hstep hchild with ⟨-, rfl⟩ | rfl
        · exact h
        · refine everywhere_iff.mpr ⟨hnull, fun way child hstep hchild => ?_⟩
          obtain ⟨keyword, rest, holding, rfl, hmem⟩ := hstep.exists_key
          have htype : ∀ entry ∈ schemaPositions, entry.1 ≠ "type" := by decide
          rw [Json.descend_cons] at hchild
          obtain ⟨v, hv, -⟩ := Option.bind_eq_some_iff.mp hchild
          change Fields.get? [("type", Json.string "null")] keyword = some v at hv
          rw [Fields.get?_cons, if_neg (htype _ hmem).symm] at hv
          cases hv
    · rw [everywhere_iff, everywhere_iff (v := .object obj), hwiden]
      refine and_congr_right fun _ => ?_
      refine forall_congr' fun way => forall_congr' fun child => forall_congr' fun hstep => ?_
      rw [descend_widened (hstep.mono schemaPositions_subset)]
  | _ => exact Iff.rfl

/-- A schema the conversion goes into becomes what its conversion is, nullable or not. -/
theorem step_convert {way : Place} {child : Json} (h : strictPositions.Step way)
    (hchild : (Json.object obj).descend way = some child) :
    ∃ child', (convertToStrict (.object obj)).descend way = some child' ∧
      (child' = convertToStrict child ∨
        (∃ name, way = [.key "properties", .key name]) ∧ child' = makeNullable (convertToStrict child)) := by
  by_cases hproperty : ∃ name, way = [.key "properties", .key name]
  · obtain ⟨name, rfl⟩ := hproperty
    refine ⟨convertedProperty obj name child, ?_, ?_⟩
    · rw [descend_convert_property, hchild]
      rfl
    · unfold convertedProperty
      split
      · exact .inr ⟨⟨name, rfl⟩, rfl⟩
      · exact .inl rfl
  · refine ⟨convertToStrict child, ?_, .inl rfl⟩
    rw [descend_convert h fun name heq => hproperty ⟨name, heq⟩, hchild]
    rfl

/-- Every schema in the result comes from one in the schema. -/
theorem of_step_convert {way : Place} {child' : Json} (h : schemaPositions.Step way)
    (hchild' : (convertToStrict (.object obj)).descend way = some child') :
    (strictPositions.Step way ∧ ∃ child, (Json.object obj).descend way = some child ∧
      (child' = convertToStrict child ∨ child' = makeNullable (convertToStrict child))) ∨
    (passedOver.Step way ∧ (Json.object obj).descend way = some child') := by
  rcases step_schemaPositions.mp h with hstrict | hpassed
  · refine .inl ⟨hstrict, ?_⟩
    cases hchild : (Json.object obj).descend way with
    | none =>
      have hnone : (convertToStrict (.object obj)).descend way = none := by
        by_cases hproperty : ∃ name, way = [.key "properties", .key name]
        · obtain ⟨name, rfl⟩ := hproperty
          rw [descend_convert_property, hchild]
          rfl
        · rw [descend_convert hstrict fun name heq => hproperty ⟨name, heq⟩, hchild]
          rfl
      rw [hnone] at hchild'
      cases hchild'
    | some child =>
      obtain ⟨image, himage, hcases⟩ := step_convert hstrict hchild
      obtain rfl := Option.some.inj (himage.symm.trans hchild')
      exact ⟨child, rfl, hcases.imp id And.right⟩
  · exact .inr ⟨hpassed, by rwa [descend_convert_passedOver hpassed] at hchild'⟩

/-! ## Closed schemas -/

/-- An object schema with properties. -/
def IsObjectSchema (node : Json) : Prop := ∃ obj, node = .object obj ∧ isObjectWithProps obj = true

/-- A schema that allows its properties only, and requires all of them. -/
structure Hardened (node : Json) : Prop where
  closed : Fields.ofJson? node "additionalProperties" = some (.bool false)
  required : ∃ names : List String, Fields.ofJson? node "required" = some (.array (names.map Json.string)) ∧
    names.Nodup ∧ ∀ name, name ∈ names ↔ (node.descend [.key "properties", .key name]).isSome

/-- An object schema with properties is hardened. -/
def StrictNode (node : Json) : Prop := IsObjectSchema node → Hardened node

theorem mem_propertyNames {name : String} : name ∈ propertyNames obj ↔
    ((Json.object obj).descend [.key "properties", .key name]).isSome = true := by
  unfold propertyNames
  rw [mem_sortedKeys, Json.descend_cons]
  show _ ↔ ((Fields.get? obj "properties").bind _).isSome = true
  cases Fields.get? obj "properties" with
  | none => exact Iff.rfl
  | some v =>
    show _ ↔ ((v.select (.key name)).bind some).isSome = true
    rw [Option.bind_fun_some]
    cases v <;> exact Iff.rfl

/-- The result of the conversion is hardened. -/
theorem strictNode_convert (schema : Json) : StrictNode (convertToStrict schema) := by
  rintro ⟨obj', heq, hprops⟩
  cases schema with
  | object obj =>
    rw [convertToStrict_object] at heq ⊢
    obtain rfl := Json.object.inj heq
    rw [isObjectWithProps_enforceStrict] at hprops
    refine ⟨get?_enforceStrict_additional hprops, _, get?_enforceStrict_required hprops,
      (sortedKeys_sortedLT _).nodup, fun name => ?_⟩
    rw [← mem_propertyNames, propertyNames_congr (get?_enforceStrict_properties hprops)]
  | _ => cases heq

theorem strictNode_widened : StrictNode (.object (Fields.adjust "type" widenType obj)) ↔
    StrictNode (.object obj) := by
  have hkey : ∀ key, key ≠ "type" →
      Fields.ofJson? (.object (Fields.adjust "type" widenType obj)) key =
        Fields.ofJson? (.object obj) key := fun key hne => Fields.get?_adjust_ne hne _ _
  have hobject : IsObjectSchema (.object (Fields.adjust "type" widenType obj)) ↔
      IsObjectSchema (.object obj) := by
    constructor
    · rintro ⟨obj', heq, hprops⟩
      obtain rfl := Json.object.inj heq
      exact ⟨obj, rfl, isObjectWithProps_widened.symm.trans hprops⟩
    · rintro ⟨obj', heq, hprops⟩
      obtain rfl := Json.object.inj heq
      exact ⟨_, rfl, isObjectWithProps_widened.trans hprops⟩
  have hnames : ∀ name, (Json.object (Fields.adjust "type" widenType obj)).descend
      [.key "properties", .key name] = (Json.object obj).descend [.key "properties", .key name] :=
    fun name => descend_widened (.named (by decide) name)
  have hhardened : Hardened (.object (Fields.adjust "type" widenType obj)) ↔ Hardened (.object obj) := by
    constructor
    · rintro ⟨hclosed, hrequired⟩
      rw [hkey _ (by decide)] at hclosed hrequired
      simp only [hnames] at hrequired
      exact ⟨hclosed, hrequired⟩
    · rintro ⟨hclosed, hrequired⟩
      refine ⟨(hkey _ (by decide)).trans hclosed, ?_⟩
      rw [hkey _ (by decide)]
      simp only [hnames]
      exact hrequired
  unfold StrictNode
  rw [hobject, hhardened]

/-- A place beneath a keyword that the conversion passes over. -/
inductive BeneathPassedOver : Place → Prop
  | passed {way rest : Place} (hstep : passedOver.Step way) (hrest : schemaPositions.Reaches rest) :
      BeneathPassedOver (way ++ rest)
  | step {way rest : Place} (hstep : strictPositions.Step way) (hrest : BeneathPassedOver rest) :
      BeneathPassedOver (way ++ rest)

theorem everywhere_strictNode_nullable (prop : Json) :
    Everywhere schemaPositions StrictNode (makeNullable prop) ↔
      Everywhere schemaPositions StrictNode prop := by
  refine everywhere_makeNullable (fun schema => ?_) ?_ (fun obj => strictNode_widened) prop
  · rintro ⟨obj, heq, hprops⟩
    obtain rfl := Json.object.inj heq
    cases hprops
  · rintro ⟨obj, heq, hprops⟩
    obtain rfl := Json.object.inj heq
    cases hprops

/-- Everything in the result is hardened if and only if what the conversion passes over is so. -/
theorem everywhere_strictNode_iff (schema : Json) :
    Everywhere schemaPositions StrictNode (convertToStrict schema) ↔
      ∀ place node, BeneathPassedOver place → schema.descend place = some node → StrictNode node := by
  constructor
  · intro h place node hplace hnode
    induction hplace generalizing schema with
    | @passed way rest hstep hrest =>
      rw [Json.descend_append] at hnode
      obtain ⟨child, hchild, hleaf⟩ := Option.bind_eq_some_iff.mp hnode
      have hstep' := step_schemaPositions.mpr (.inr hstep)
      cases schema with
      | object obj =>
        refine h (way ++ rest) node (.step hstep' hrest) ?_
        rw [Json.descend_append, descend_convert_passedOver hstep, hchild]
        exact hleaf
      | _ => cases hstep.isObject hchild
    | @step way rest hstep _ ih =>
      rw [Json.descend_append] at hnode
      obtain ⟨child, hchild, hleaf⟩ := Option.bind_eq_some_iff.mp hnode
      have hstep' := step_schemaPositions.mpr (.inl hstep)
      cases schema with
      | object obj =>
        obtain ⟨child', hchild', hcases⟩ := step_convert hstep hchild
        have hbelow := (everywhere_iff.mp h).2 way child' hstep' hchild'
        rcases hcases with rfl | ⟨-, rfl⟩
        · exact ih child hbelow hleaf
        · exact ih child ((everywhere_strictNode_nullable _).mp hbelow) hleaf
      | _ => cases hstep.isObject hchild
  · intro h
    induction schema using Json.size_induction with
    | h schema ih =>
      refine everywhere_iff.mpr ⟨strictNode_convert schema, fun way child' hstep hchild' => ?_⟩
      cases schema with
      | object obj =>
        rcases of_step_convert hstep hchild' with ⟨hstrict, child, hchild, hcases⟩ | ⟨hpassed, hchild⟩
        · have hconverted := ih child (Json.sizeOf_descend_lt hstep.ne_nil hchild)
            fun place node hplace hnode => h (way ++ place) node (.step hstrict hplace) (by
              rw [Json.descend_append, hchild]
              exact hnode)
          rcases hcases with rfl | rfl
          · exact hconverted
          · exact (everywhere_strictNode_nullable _).mpr hconverted
        · intro place node hplace hnode
          refine h (way ++ place) node (.passed hpassed hplace) ?_
          rw [Json.descend_append, hchild]
          exact hnode
      | _ => cases hstep.isObject hchild'

end Apcore
