import Apcore.Schema.StrictLaws

/-! # `Schema.ToStrict` — strict mode, from end to end

What is stripped once is stripped for good: the conversion brings in no keyword that the stripping would
remove. So the result is a fixed point of both. -/

namespace Apcore

/-! ## What the stripping leaves as it is -/

section

variable {names removeDefaults : Bool}

theorem length_stripEntries (obj : List (String × Json)) :
    (stripEntries obj names removeDefaults).length ≤ obj.length := by
  rw [stripEntries_eq, Fields.mapValues, List.length_map]
  exact List.length_filter_le _ _

/-- An entry that stays, with a value that stays as it is. -/
def EntryKept (names removeDefaults : Bool) (entry : String × Json) : Prop :=
  (!names && isExtension removeDefaults entry.1) = false ∧
    stripValue entry.2 (!names && schemaNameMap entry.1) removeDefaults = entry.2

theorem entryKept {key : String} {v : Json} (hkey : isExtension removeDefaults key = false)
    (h : stripValue v (schemaNameMap key) removeDefaults = v) :
    EntryKept false removeDefaults (key, v) := by
  refine ⟨?_, h⟩
  show (true && isExtension removeDefaults key) = false
  rw [hkey]
  rfl

theorem stripEntries_eq_self {obj : List (String × Json)} :
    stripEntries obj names removeDefaults = obj ↔ ∀ entry ∈ obj, EntryKept names removeDefaults entry := by
  induction obj with
  | nil => exact iff_of_true rfl fun _ h => absurd h List.not_mem_nil
  | cons entry rest ih =>
    obtain ⟨key, val⟩ := entry
    rw [List.forall_mem_cons, ← ih, stripEntries]
    by_cases h : (!names && isExtension removeDefaults key) = true
    · rw [if_pos h]
      refine iff_of_false (fun heq => ?_) fun hkept => ?_
      · have hle := @length_stripEntries names removeDefaults rest
        rw [heq, List.length_cons] at hle
        omega
      · exact absurd (h.symm.trans hkept.1.1) (by decide)
    · rw [if_neg h, List.cons.injEq, Prod.mk.injEq]
      refine and_congr_left fun _ => ?_
      exact ⟨fun heq => ⟨Bool.eq_false_of_not_eq_true h, heq.2⟩, fun hkept => ⟨rfl, hkept.2⟩⟩

theorem stripItems_eq_self {arr : List Json} : stripItems arr removeDefaults = arr ↔
    ∀ item ∈ arr, stripExtensions item false removeDefaults = item := by
  rw [stripItems_eq]
  constructor
  · intro h item hmem
    exact List.map_inj_left.mp (h.trans (List.map_id arr).symm) item hmem
  · intro h
    exact (List.map_congr_left h).trans (List.map_id arr)

theorem stripExtensions_object_eq_self {obj : List (String × Json)} :
    stripExtensions (.object obj) names removeDefaults = .object obj ↔
      ∀ entry ∈ obj, EntryKept names removeDefaults entry := by
  rw [stripExtensions, Json.object.injEq, stripEntries_eq_self]

/-- Only objects are stripped. -/
theorem stripExtensions_of_stripValue {v : Json} (h : stripValue v names removeDefaults = v) :
    stripExtensions v names removeDefaults = v := by
  cases v with
  | object obj => exact h
  | _ => rfl

end

mutual

theorem stripExtensions_idem (names removeDefaults : Bool) : (v : Json) →
    stripExtensions (stripExtensions v names removeDefaults) names removeDefaults =
      stripExtensions v names removeDefaults
  | .object obj => congrArg Json.object (stripEntries_idem names removeDefaults obj)
  | .null | .bool _ | .number _ | .string _ | .array _ => rfl

theorem stripEntries_idem (names removeDefaults : Bool) : (obj : List (String × Json)) →
    stripEntries (stripEntries obj names removeDefaults) names removeDefaults =
      stripEntries obj names removeDefaults
  | [] => rfl
  | (key, val) :: rest => by
    have hrest := stripEntries_idem names removeDefaults rest
    have hval := stripValue_idem (!names && schemaNameMap key) removeDefaults val
    rw [stripEntries]
    by_cases h : (!names && isExtension removeDefaults key) = true
    · rw [if_pos h, hrest]
    · rw [if_neg h, stripEntries, if_neg h, hval, hrest]

theorem stripValue_idem (names removeDefaults : Bool) : (v : Json) →
    stripValue (stripValue v names removeDefaults) names removeDefaults =
      stripValue v names removeDefaults
  | .object obj => congrArg Json.object (stripEntries_idem names removeDefaults obj)
  | .array arr => congrArg Json.array (stripItems_idem removeDefaults arr)
  | .null | .bool _ | .number _ | .string _ => rfl

theorem stripItems_idem (removeDefaults : Bool) : (arr : List Json) →
    stripItems (stripItems arr removeDefaults) removeDefaults = stripItems arr removeDefaults
  | [] => rfl
  | item :: rest => by
    rw [stripItems, stripItems, stripExtensions_idem false removeDefaults item,
      stripItems_idem removeDefaults rest]

end

/-! ## What the conversion brings in -/

/-- A value that the stripping of strict mode leaves as it is. -/
def Stripped (names : Bool) (v : Json) : Prop := stripValue v names true = v

theorem stripped_object {names : Bool} {obj : List (String × Json)} :
    Stripped names (.object obj) ↔ ∀ entry ∈ obj, EntryKept names true entry :=
  stripExtensions_object_eq_self

theorem stripped_array {names : Bool} {arr : List Json} : Stripped names (.array arr) ↔
    ∀ item ∈ arr, stripExtensions item false true = item := by
  unfold Stripped
  rw [stripValue, Json.array.injEq, stripItems_eq_self]

theorem stripped_strings (names : Bool) (strings : List String) :
    Stripped names (.array (strings.map Json.string)) := by
  refine stripped_array.mpr fun item hmem => ?_
  obtain ⟨s, -, rfl⟩ := List.mem_map.mp hmem
  rfl

theorem stripped_nullSchema : stripExtensions nullSchema false true = nullSchema := by
  refine stripExtensions_object_eq_self.mpr fun entry hentry => ?_
  obtain rfl := List.mem_singleton.mp hentry
  exact entryKept (by decide) rfl

theorem Stripped.widenType {type : Json} (h : Stripped false type) :
    Stripped false (widenType type) := by
  cases type with
  | string s =>
    rw [Apcore.widenType]
    split
    · exact stripped_strings false [s, "null"]
    · exact h
  | array arr =>
    rw [Apcore.widenType]
    split
    · exact h
    · refine stripped_array.mpr fun item hmem => ?_
      rcases List.mem_append.mp hmem with hmem | hmem
      · exact stripped_array.mp h item hmem
      · obtain rfl := List.mem_singleton.mp hmem
        rfl
  | _ => exact h

theorem Stripped.makeNullable {prop : Json} (h : Stripped false prop) :
    Stripped false (makeNullable prop) := by
  cases prop with
  | object obj =>
    rw [Apcore.makeNullable]
    split
    · refine stripped_object.mpr fun entry hentry => ?_
      obtain rfl := List.mem_singleton.mp hentry
      refine entryKept (by decide) (stripped_array.mpr fun item hmem => ?_)
      rcases List.mem_pair.mp hmem with rfl | rfl
      · exact h
      · exact stripped_nullSchema
    · refine stripped_object.mpr fun entry hentry => ?_
      rcases Fields.mem_adjust hentry with hentry | ⟨type, htype, rfl⟩
      · exact stripped_object.mp h entry hentry
      · obtain ⟨hkeyword, hvalue⟩ := stripped_object.mp h _ htype
        exact ⟨hkeyword, Stripped.widenType hvalue⟩
  | _ => exact h

/-- The strict rules keep the entries of a stripped schema, and those they bring in stay. -/
theorem entryKept_enforceStrict {obj : List (String × Json)}
    (h : ∀ entry ∈ obj, EntryKept false true entry) :
    ∀ entry ∈ enforceStrict obj, EntryKept false true entry := by
  intro entry hentry
  unfold enforceStrict at hentry
  split at hentry
  · rcases Fields.mem_insert hentry with rfl | hentry
    · exact entryKept (by decide) (stripped_strings _ _)
    rcases Fields.mem_adjust hentry with hentry | ⟨properties, hproperties, rfl⟩
    · rcases Fields.mem_insert hentry with rfl | hentry
      · exact entryKept (by decide) rfl
      · exact h entry hentry
    · rcases Fields.mem_insert hproperties with heq | hproperties
      · exact absurd (congrArg Prod.fst heq) (show ¬("properties" = "additionalProperties") by decide)
      · obtain ⟨hkeyword, hvalue⟩ := h _ hproperties
        refine ⟨hkeyword, ?_⟩
        cases properties with
        | object map =>
          refine stripped_object.mpr fun prop hprop => ?_
          obtain ⟨prop', hprop', rfl⟩ := List.mem_map.mp hprop
          have hkept : Stripped false prop'.2 := ((@stripped_object true _).mp hvalue prop' hprop').2
          refine ⟨rfl, ?_⟩
          show Stripped false (if prop'.1 ∈ requiredNames obj then prop'.2 else makeNullable prop'.2)
          split
          · exact hkept
          · exact hkept.makeNullable
        | _ => exact hvalue
  · exact h entry hentry

/-- The conversion of a stripped schema is stripped. -/
theorem stripped_convertToStrict {node : Json} (h : Stripped false node) :
    Stripped false (convertToStrict node) := by
  induction node using Json.size_induction with
  | h node ih =>
    cases node with
    | object obj =>
      rw [convertToStrict_object]
      refine stripped_object.mpr (entryKept_enforceStrict fun entry hentry => ?_)
      obtain ⟨entry', hentry', rfl⟩ := List.mem_map.mp hentry
      obtain ⟨keyword, value⟩ := entry'
      have hlt : sizeOf value < sizeOf (Json.object obj) := sizeOf_entry_lt hentry'
      obtain ⟨hkeyword, hvalue⟩ := stripped_object.mp h _ hentry'
      refine ⟨hkeyword, ?_⟩
      show stripValue (nested convertToStrict keyword value) (schemaNameMap keyword) true = _
      change stripValue value (schemaNameMap keyword) true = value at hvalue
      unfold nested
      split_ifs with hnamed hitems hobject hlisted
      · have hnames : schemaNameMap keyword = true := by
          have hall : ∀ name ∈ ["properties", "definitions", "$defs"], schemaNameMap name = true := by
            decide
          exact hall keyword (List.contains_iff_mem.mp hnamed)
        rw [hnames] at hvalue ⊢
        cases value with
        | object map =>
          refine (@stripped_object true _).mpr fun prop hprop => ?_
          obtain ⟨prop', hprop', rfl⟩ := List.mem_map.mp hprop
          have hkept : Stripped false prop'.2 := ((@stripped_object true _).mp hvalue prop' hprop').2
          exact ⟨rfl, ih prop'.2 ((sizeOf_entry_lt hprop').trans hlt) hkept⟩
        | _ => exact hvalue
      · have hnames : schemaNameMap keyword = false := by
          obtain rfl := eq_of_beq hitems
          rfl
        rw [hnames] at hvalue ⊢
        exact ih value hlt hvalue
      · exact hvalue
      · cases value with
        | array elems =>
          refine (@stripped_array (schemaNameMap keyword) _).mpr fun elem helem => ?_
          obtain ⟨elem', helem', rfl⟩ := List.mem_map.mp helem
          have hkept := (@stripped_array (schemaNameMap keyword) _).mp hvalue elem' helem'
          cases elem' with
          | object map =>
            exact stripExtensions_of_stripValue (ih _ ((sizeOf_elem_lt helem').trans hlt) hkept)
          | _ => rfl
        | _ => exact hvalue
      · exact hvalue
    | _ => exact h

/-! ## Where a schema goes -/

/-- A place in a schema, and one in the result: a property may have gone into a nullable union. -/
inductive Wraps : Place → Place → Prop
  | here : Wraps [] []
  | step {way rest rest' : Place} (hstep : allPositions.Step way) (hrest : Wraps rest rest') :
      Wraps (way ++ rest) (way ++ rest')
  | wrap {name : String} {rest rest' : Place} (hrest : Wraps rest rest') :
      Wraps ([.key "properties", .key name] ++ rest)
        ([.key "properties", .key name] ++ ([.key "anyOf", .index 0] ++ rest'))

theorem Wraps.refl {place : Place} (h : allPositions.Reaches place) : Wraps place place := by
  induction h with
  | here => exact .here
  | step hstep _ ih => exact .step hstep ih

theorem Wraps.reaches {place place' : Place} (h : Wraps place place') :
    allPositions.Reaches place' := by
  induction h with
  | here => exact .here
  | step hstep _ ih => exact .step hstep ih
  | wrap _ ih => exact .step (.named (by decide) _) (.step (.list (by decide) 0) ih)

theorem Wraps.eq_nil_or_step {place place' : Place} (h : Wraps place place') :
    place' = [] ∨ ∃ way rest, allPositions.Step way ∧ place' = way ++ rest := by
  cases h with
  | here => exact .inl rfl
  | step hstep _ => exact .inr ⟨_, _, hstep, rfl⟩
  | wrap _ => exact .inr ⟨_, _, .named (by decide) _, rfl⟩

/-- A place where a schema stands that strict mode does not replace: it closes the object schemas with
properties, whatever they say of other ones. -/
inductive Stays : Json → Place → Prop
  | here {node : Json} : Stays node []
  | step {node child : Json} {way rest : Place} (hstep : allPositions.Step way)
      (hclosed : way = [.key "additionalProperties"] → ¬IsObjectSchema node)
      (hchild : node.descend way = some child) (hrest : Stays child rest) : Stays node (way ++ rest)

theorem Stays.reaches {node : Json} {place : Place} (h : Stays node place) :
    allPositions.Reaches place := by
  induction h with
  | here => exact .here
  | step hstep _ _ _ ih => exact .step hstep ih

/-- No schema of the listed positions is replaced. -/
theorem stays_of_reaches {place : Place} (h : schemaPositions.Reaches place) {node leaf : Json}
    (hleaf : node.descend place = some leaf) : Stays node place := by
  induction h generalizing node with
  | here => exact .here
  | step hstep _ ih =>
    rw [Json.descend_append] at hleaf
    obtain ⟨child, hchild, hbelow⟩ := Option.bind_eq_some_iff.mp hleaf
    refine .step (hstep.mono schemaPositions_subset) (fun heq => ?_) hchild (ih hbelow)
    obtain ⟨keyword, rest, holding, rfl, hmem⟩ := hstep.exists_key
    have hother : ∀ entry ∈ schemaPositions, entry.1 ≠ "additionalProperties" := by decide
    exact absurd (Selector.key.inj (List.cons.inj heq).1) (hother _ hmem)

/-- What the conversion makes of a schema somewhere in another. -/
inductive Image (leaf : Json) : Json → Prop
  | same : Image leaf leaf
  | converted : Image leaf (convertToStrict leaf)
  | widened {obj : List (String × Json)} (h : Image leaf (.object obj)) :
      Image leaf (.object (Fields.adjust "type" widenType obj))

theorem exists_image {schema : Json} {place : Place} (hplace : Stays schema place) {leaf : Json}
    (hleaf : schema.descend place = some leaf) (hobject : leaf.isObject = true) :
    ∃ place' leaf', Wraps place place' ∧ (convertToStrict schema).descend place' = some leaf' ∧
      Image leaf leaf' := by
  induction hplace with
  | @here schema =>
    obtain rfl := Option.some.inj hleaf
    exact ⟨[], convertToStrict schema, .here, rfl, .converted⟩
  | @step schema child way rest hstep hclosed hchild hrest ih =>
    have hbelow := hleaf
    rw [Json.descend_append, hchild] at hbelow
    obtain ⟨obj, rfl⟩ := Json.isObject_iff.mp (hstep.isObject hchild)
    rcases step_allPositions hstep with hstrict | huntouched
    · obtain ⟨child', hchild', hcases⟩ := step_convert hstrict hchild
      obtain ⟨rest', leaf', hwraps, hleaf', himage⟩ := ih hbelow
      rcases hcases with rfl | ⟨⟨name, rfl⟩, rfl⟩
      · refine ⟨way ++ rest', leaf', .step hstep hwraps, ?_, himage⟩
        rw [Json.descend_append, hchild']
        exact hleaf'
      · -- the property is nullable: behind a union, or with a wider type
        obtain ⟨map, hmap⟩ := Json.isObject_iff.mp
          ((isObject_convertToStrict child).trans (hrest.reaches.isObject hbelow hobject))
        rw [hmap] at hleaf' hchild'
        rw [makeNullable] at hchild'
        split at hchild'
        · refine ⟨_, leaf', .wrap hwraps, ?_, himage⟩
          rw [Json.descend_append, hchild']
          exact hleaf'
        · rcases hwraps.eq_nil_or_step with rfl | ⟨way', rest'', hstep', rfl⟩
          · obtain rfl := Option.some.inj hleaf'
            refine ⟨_, _, .step hstep hwraps, ?_, .widened himage⟩
            rw [Json.descend_append, hchild']
            rfl
          · refine ⟨_, leaf', .step hstep hwraps, ?_, himage⟩
            rw [Json.descend_append, hchild', Option.bind_some, Json.descend_append,
              descend_widened hstep', ← Json.descend_append]
            exact hleaf'
    · refine ⟨way ++ rest, leaf, .step hstep (Wraps.refl hrest.reaches), ?_, .same⟩
      rw [Json.descend_append, descend_convert_untouched huntouched fun heq hprops =>
        hclosed heq ⟨obj, rfl, hprops⟩, ← Json.descend_append]
      exact hleaf

/-! ## Strict mode of what is stripped -/

theorem stripItems_strings {arr : List Json} {removeDefaults : Bool} {strings : List String} :
    stripItems arr removeDefaults = strings.map Json.string ↔ arr = strings.map Json.string := by
  rw [stripItems_eq]
  induction arr generalizing strings with
  | nil => exact Iff.rfl
  | cons item rest ih =>
    cases strings with
    | nil => exact iff_of_false (List.cons_ne_nil _ _) (List.cons_ne_nil _ _)
    | cons s strings =>
      rw [List.map_cons, List.map_cons, List.cons.injEq, List.cons.injEq, ih]
      refine and_congr_left fun _ => ?_
      cases item with
      | object obj => exact Iff.rfl.trans (iff_of_false Json.noConfusion Json.noConfusion)
      | _ => exact Iff.rfl

theorem declaresObjectType_stripValue (type : Option Json) (names removeDefaults : Bool) :
    declaresObjectType (type.map fun v => stripValue v names removeDefaults) =
      declaresObjectType type := by
  cases type with
  | none => rfl
  | some v =>
    cases v with
    | array arr =>
      show ((stripItems arr removeDefaults).any fun v => v.asStr? == some "object") = arr.any _
      rw [stripItems_eq, List.any_map]
      congr 1
      funext item
      cases item <;> rfl
    | _ => rfl

theorem isObjectSchema_iff {node : Json} : IsObjectSchema node ↔
    (Fields.ofJson? node "properties").isSome = true ∧
      (Fields.ofJson? node "type" = none ∨ declaresObjectType (Fields.ofJson? node "type") = true) := by
  constructor
  · rintro ⟨obj, rfl, hprops⟩
    obtain ⟨hproperties, htype⟩ := Bool.and_eq_true_iff.mp hprops
    exact ⟨hproperties, (Bool.or_eq_true_iff.mp htype).imp_left Option.isNone_iff_eq_none.mp⟩
  · rintro ⟨hproperties, htype⟩
    cases node with
    | object obj =>
      refine ⟨obj, rfl, Bool.and_eq_true_iff.mpr ⟨hproperties, ?_⟩⟩
      exact Bool.or_eq_true_iff.mpr (htype.imp_left Option.isNone_iff_eq_none.mpr)
    | _ => cases hproperties

section

variable (node : Json)

/-- A keyword of a schema that strict mode does not remove. -/
theorem ofJson?_stripped {key : String} (h : isExtension true key = false) :
    Fields.ofJson? (stripExtensions node false true) key =
      (Fields.ofJson? node key).map fun v => stripValue v (schemaNameMap key) true :=
  ofJson?_stripExtensions (.inl h) node

theorem isObjectSchema_stripped :
    IsObjectSchema (stripExtensions node false true) ↔ IsObjectSchema node := by
  rw [isObjectSchema_iff, isObjectSchema_iff, ofJson?_stripped node (by decide),
    ofJson?_stripped node (by decide), Option.isSome_map, Option.map_eq_none_iff,
    declaresObjectType_stripValue]

/-- The names under a keyword stay. -/
theorem isSome_descend_stripped {keyword : String} (h : (keyword, .named) ∈ schemaPositions)
    (name : String) :
    ((stripExtensions node false true).descend [.key keyword, .key name]).isSome =
      (node.descend [.key keyword, .key name]).isSome := by
  have hall : ∀ entry ∈ schemaPositions, entry.2 = .named →
      isExtension true entry.1 = false ∧ schemaNameMap entry.1 = true := by decide
  obtain ⟨hkept, hnames⟩ := hall _ h rfl
  rw [Json.descend_cons, Json.descend_cons]
  show ((Fields.ofJson? _ keyword).bind _).isSome = ((Fields.ofJson? node keyword).bind _).isSome
  rw [ofJson?_stripped node hkept, hnames]
  cases Fields.ofJson? node keyword with
  | none => rfl
  | some v =>
    show ((Fields.ofJson? (stripValue v true true) name).bind some).isSome =
      ((Fields.ofJson? v name).bind some).isSome
    rw [Option.bind_fun_some, Option.bind_fun_some, ofJson?_stripValue, Option.isSome_map]

theorem hardened_stripped : Hardened (stripExtensions node false true) ↔ Hardened node := by
  have hclosed : Fields.ofJson? (stripExtensions node false true) "additionalProperties" =
      some (.bool false) ↔ Fields.ofJson? node "additionalProperties" = some (.bool false) := by
    rw [ofJson?_stripped node (by decide)]
    cases Fields.ofJson? node "additionalProperties" with
    | none => exact Iff.rfl
    | some v =>
      rw [Option.map_some, Option.some.injEq, Option.some.injEq]
      cases v with
      | object obj => exact iff_of_false Json.noConfusion Json.noConfusion
      | array arr => exact iff_of_false Json.noConfusion Json.noConfusion
      | _ => exact Iff.rfl
  have hrequired : ∀ names : List String, Fields.ofJson? (stripExtensions node false true) "required" =
      some (.array (names.map Json.string)) ↔
        Fields.ofJson? node "required" = some (.array (names.map Json.string)) := by
    intro names
    rw [ofJson?_stripped node (by decide)]
    cases Fields.ofJson? node "required" with
    | none => exact Iff.rfl
    | some v =>
      rw [Option.map_some, Option.some.injEq, Option.some.injEq]
      cases v with
      | array arr => rw [stripValue, Json.array.injEq, Json.array.injEq, stripItems_strings]
      | object obj => exact iff_of_false Json.noConfusion Json.noConfusion
      | _ => exact Iff.rfl
  have hnames := @isSome_descend_stripped node "properties" (by decide)
  constructor
  · rintro ⟨h, names, hlist, hnodup, hiff⟩
    exact ⟨hclosed.mp h, names, (hrequired names).mp hlist, hnodup, fun name => by
      rw [← hnames]
      exact hiff name⟩
  · rintro ⟨h, names, hlist, hnodup, hiff⟩
    exact ⟨hclosed.mpr h, names, (hrequired names).mpr hlist, hnodup, fun name => by
      rw [hnames]
      exact hiff name⟩

theorem strictNode_stripped : StrictNode (stripExtensions node false true) ↔ StrictNode node := by
  unfold StrictNode
  rw [isObjectSchema_stripped, hardened_stripped]

end

/-! ## The laws of strict mode -/

/-- What strict mode is to make of a schema. -/
structure StrictLaws (schema : Json) : Prop where
  hardened : ∀ place node, schemaPositions.Reaches place →
    (toStrictSchema schema).descend place = some node → IsObjectSchema node → Hardened node
  bare : ∀ place node key, schemaPositions.Reaches place →
    (toStrictSchema schema).descend place = some node → isExtension true key = true →
      Fields.ofJson? node key = none
  names : ∀ place keyword name, schemaPositions.Reaches place → (keyword, .named) ∈ schemaPositions →
    (schema.descend (place ++ [.key keyword, .key name])).isSome = true →
      ∃ place', Wraps place place' ∧
        ((toStrictSchema schema).descend (place' ++ [.key keyword, .key name])).isSome = true
  idem : toStrictSchema (toStrictSchema schema) = toStrictSchema schema

theorem strip_actsAt : ActsAt schemaPositions fun v => stripExtensions v false true :=
  (stripExtensions_actsAt true).mono schemaPositions_subset

/-- The result has nothing left to strip. -/
theorem stripExtensions_toStrictSchema (schema : Json) :
    stripExtensions (toStrictSchema schema) false true = toStrictSchema schema := by
  unfold toStrictSchema
  cases schema with
  | object obj =>
    exact stripExtensions_of_stripValue
      (stripped_convertToStrict (stripExtensions_idem false true (.object obj)))
  | _ => rfl

theorem toStrictSchema_idem (schema : Json) :
    toStrictSchema (toStrictSchema schema) = toStrictSchema schema := by
  conv_lhs => rw [toStrictSchema, stripExtensions_toStrictSchema, toStrictSchema, convertToStrict_idem]
  rfl

/-- A schema in the result is stripped. -/
theorem stripExtensions_of_descend {schema node : Json} {place : Place}
    (hplace : allPositions.Reaches place)
    (hnode : (toStrictSchema schema).descend place = some node) :
    stripExtensions node false true = node := by
  cases node with
  | object obj =>
    have hdescend := (stripExtensions_actsAt true).descend hplace hnode rfl
    rw [stripExtensions_toStrictSchema, hnode] at hdescend
    exact (Option.some.inj hdescend).symm
  | _ => rfl

/-- What becomes of the names under a keyword of a schema. -/
theorem Image.isSome_descend {leaf leaf' : Json} (h : Image leaf leaf') {keyword name : String}
    (hkeyword : (keyword, .named) ∈ schemaPositions)
    (hname : (leaf.descend [.key keyword, .key name]).isSome = true) :
    (leaf'.descend [.key keyword, .key name]).isSome = true := by
  have hstep : schemaPositions.Step [.key keyword, .key name] := .named hkeyword name
  induction h with
  | same => exact hname
  | converted =>
    obtain ⟨child, hchild⟩ := Option.isSome_iff_exists.mp hname
    obtain ⟨obj, rfl⟩ := Json.isObject_iff.mp (hstep.isObject hchild)
    rcases step_schemaPositions.mp hstep with hstrict | hpassed
    · obtain ⟨child', hchild', -⟩ := step_convert hstrict hchild
      rw [hchild']
      rfl
    · rw [descend_convert_passedOver hpassed]
      exact hname
  | widened _ ih =>
    rw [descend_widened (hstep.mono schemaPositions_subset)]
    exact ih

theorem exists_name {schema : Json} {place : Place} {keyword name : String}
    (hplace : schemaPositions.Reaches place) (hkeyword : (keyword, .named) ∈ schemaPositions)
    (h : (schema.descend (place ++ [.key keyword, .key name])).isSome = true) :
    ∃ place', Wraps place place' ∧
      ((toStrictSchema schema).descend (place' ++ [.key keyword, .key name])).isSome = true := by
  rw [Json.descend_append] at h
  obtain ⟨child, hchild⟩ := Option.isSome_iff_exists.mp h
  obtain ⟨leaf, hleaf, hbelow⟩ := Option.bind_eq_some_iff.mp hchild
  have hobject := (Positions.Step.named hkeyword name).isObject hbelow
  have hstripped := strip_actsAt.descend hplace hleaf hobject
  obtain ⟨place', leaf', hwraps, hleaf', himage⟩ := exists_image (stays_of_reaches hplace hstripped)
    hstripped ((isObject_stripExtensions leaf false true).trans hobject)
  refine ⟨place', hwraps, ?_⟩
  rw [Json.descend_append, toStrictSchema, hleaf']
  refine himage.isSome_descend hkeyword ?_
  rw [isSome_descend_stripped leaf hkeyword, hbelow]
  rfl

theorem BeneathPassedOver.reaches {place : Place} (h : BeneathPassedOver place) :
    schemaPositions.Reaches place := by
  induction h with
  | passed hstep hrest => exact .step (step_schemaPositions.mpr (.inr hstep)) hrest
  | step hstep _ ih => exact .step (step_schemaPositions.mpr (.inl hstep)) ih

/-- Strict mode keeps its laws if and only if the object schemas beneath the keywords it passes over are
hardened as they are written. -/
theorem toStrictSchema_laws_iff (schema : Json) : StrictLaws schema ↔
    ∀ place node, BeneathPassedOver place → schema.descend place = some node →
      IsObjectSchema node → Hardened node := by
  constructor
  · intro hlaws place node hplace hnode hobject
    obtain ⟨obj, rfl, -⟩ := id hobject
    have hstripped := strip_actsAt.descend hplace.reaches hnode rfl
    exact (strictNode_stripped _).mp ((everywhere_strictNode_iff _).mp hlaws.hardened place _ hplace
      hstripped) hobject
  · intro h
    refine ⟨?_, fun place node key hplace hnode hkey => ?_, fun place keyword name hplace hkeyword =>
      exists_name hplace hkeyword, toStrictSchema_idem schema⟩
    · refine (everywhere_strictNode_iff _).mpr fun place node hplace hnode hobject => ?_
      obtain ⟨obj, rfl, -⟩ := id hobject
      obtain ⟨leaf, hleaf, -, heq⟩ := (strip_actsAt.descend_iff hplace.reaches rfl).mp hnode
      rw [← heq] at hobject ⊢
      exact (strictNode_stripped leaf).mpr (h place leaf hplace hleaf) hobject
    · rw [← stripExtensions_of_descend (hplace.mono schemaPositions_subset) hnode]
      exact ofJson?_stripExtensions_of_isExtension hkey node

/-- An object schema in a tuple of draft 7 stays open. -/
theorem toStrictSchema_open_tuple : ¬StrictLaws (.object [("type", .string "array"), ("items", .array
    [.object [("properties", .object [("x", .object [("type", .string "integer")])]),
      ("type", .string "object")]])]) := by
  intro h
  have hclosed := (h.hardened [.key "items", .index 0] _
    (.step (.list (by decide) 0) .here) rfl ⟨_, rfl, rfl⟩).closed
  cases hclosed

end Apcore
