import Apcore.Schema.Coercion
import Apcore.Schema.Masking

/-! # `Schema.CoerceValue` — values coerced to a schema

`coerce_value` goes through a value by `properties` and `items` and turns strings into what the types of
their schema ask for. It leaves a valid value alone except where a type besides `string` is declared, or
where `items` is applied to an element that `prefixItems` covers. -/

namespace Apcore

open Json

/-! ## The walk -/

theorem sizeOf_mem_object {map : List (String × Json)} {entry : String × Json} (h : entry ∈ map) :
    sizeOf entry.2 < sizeOf (Json.object map) := by
  have hlt := List.sizeOf_lt_of_mem h
  have hentry : sizeOf entry.2 < sizeOf entry := by
    rw [Prod.mk.sizeOf_spec]
    omega
  rw [Json.object.sizeOf_spec]
  omega

theorem sizeOf_mem_array {items : List Json} {item : Json} (h : item ∈ items) :
    sizeOf item < sizeOf (Json.array items) := by
  have hlt := List.sizeOf_lt_of_mem h
  rw [Json.array.sizeOf_spec]
  omega

/-- `serde_json::Number` of an `i64`. -/
def Number.ofI64 (n : ℤ) : Number := if 0 ≤ n then .posInt (UInt64.ofNat n.toNat) else .negInt n

/-- `declared_types`. -/
def declaredTypes (schema : Json) : List String := (declaredTypes? schema).getD []

/-- What a string is turned into at a schema without containers. -/
def coerceScalar (types : List String) (s : String) : Option Json :=
  ((if "boolean" ∈ types then coerceStrToBool s else none).map Json.bool).or
    (((if "integer" ∈ types then coerceStrToInteger s else none).map (.number ∘ Number.ofI64)).or
      ((if "number" ∈ types then coerceStrToNumber s else none).map (.number ∘ Number.float)))

/-- `coerce_value`. -/
def coerceValue (value schema : Json) : Json :=
  if "object" ∈ declaredTypes schema then
    match value with
    | .object map => .object (map.attach.map fun entry => (entry.1.1,
        match schema.descend [.key "properties", .key entry.1.1] with
        | some propSchema => coerceValue entry.1.2 propSchema
        | none => entry.1.2))
    | _ => value
  else if "array" ∈ declaredTypes schema then
    match value with
    | .array items =>
      match Fields.ofJson? schema "items" with
      | some itemsSchema => .array (items.attach.map fun item => coerceValue item.1 itemsSchema)
      | none => value
    | _ => value
  else
    match value with
    | .string s => (coerceScalar (declaredTypes schema) s).getD value
    | _ => value
termination_by sizeOf value
decreasing_by
  · exact sizeOf_mem_object entry.2
  · exact sizeOf_mem_array item.2

/-- The schema of a property, as far as the walk uses it. -/
def coercedProperty (schema : Json) (name : String) : Option Json :=
  if "object" ∈ declaredTypes schema then schema.descend [.key "properties", .key name] else none

/-- The schema of the elements, as far as the walk uses it. -/
def coercedItems (schema : Json) : Option Json :=
  if "object" ∈ declaredTypes schema then none
  else if "array" ∈ declaredTypes schema then Fields.ofJson? schema "items"
  else none

/-- What a string is turned into. -/
def coerceString (schema : Json) (s : String) : Option Json :=
  if "object" ∈ declaredTypes schema ∨ "array" ∈ declaredTypes schema then none
  else coerceScalar (declaredTypes schema) s

/-- The walk into a part that has a schema or none. -/
def coerceWith (value : Json) : Option Json → Json
  | some schema => coerceValue value schema
  | none => value

theorem coerceValue_object (map : List (String × Json)) (schema : Json) :
    coerceValue (.object map) schema =
      .object (map.map fun entry => (entry.1, coerceWith entry.2 (coercedProperty schema entry.1))) := by
  rw [coerceValue]
  unfold coercedProperty
  by_cases hobject : "object" ∈ declaredTypes schema
  · rw [if_pos hobject]
    have hentry : ∀ entry : String × Json, (entry.1,
        match schema.descend [.key "properties", .key entry.1] with
        | some propSchema => coerceValue entry.2 propSchema
        | none => entry.2) =
        (entry.1, coerceWith entry.2 (schema.descend [.key "properties", .key entry.1])) := by
      intro entry
      cases schema.descend [.key "properties", .key entry.1] <;> rfl
    simp only [hentry, if_pos hobject]
    exact congrArg Json.object (List.attach_map_val (f := fun entry : String × Json =>
      (entry.1, coerceWith entry.2 (schema.descend [.key "properties", .key entry.1]))))
  · rw [if_neg hobject]
    simp only [if_neg hobject, coerceWith, Prod.mk.eta, List.map_id']
    split <;> rfl

theorem coerceValue_array (items : List Json) (schema : Json) : coerceValue (.array items) schema =
    .array (items.map fun item => coerceWith item (coercedItems schema)) := by
  rw [coerceValue]
  unfold coercedItems
  by_cases hobject : "object" ∈ declaredTypes schema
  · simp only [if_pos hobject, coerceWith, List.map_id']
  · rw [if_neg hobject, if_neg hobject]
    by_cases harray : "array" ∈ declaredTypes schema
    · rw [if_pos harray, if_pos harray]
      cases Fields.ofJson? schema "items" with
      | none => simp only [coerceWith, List.map_id']
      | some itemsSchema =>
        exact congrArg Json.array (List.attach_map_val (f := fun item => coerceValue item itemsSchema))
    · simp only [if_neg harray, coerceWith, List.map_id']

theorem coerceValue_string (s : String) (schema : Json) :
    coerceValue (.string s) schema = (coerceString schema s).getD (.string s) := by
  rw [coerceValue]
  unfold coerceString
  by_cases hobject : "object" ∈ declaredTypes schema
  · rw [if_pos hobject, if_pos (.inl hobject)]
    rfl
  · rw [if_neg hobject]
    by_cases harray : "array" ∈ declaredTypes schema
    · rw [if_pos harray, if_pos (.inr harray)]
      rfl
    · rw [if_neg harray, if_neg (not_or.mpr ⟨hobject, harray⟩)]

/-- What is no container and no string stays. -/
theorem coerceValue_other {value : Json} (hobject : value.isObject = false) (harray : value.isArray = false)
    (hstring : value.isString = false) (schema : Json) : coerceValue value schema = value := by
  cases value with
  | object => cases hobject
  | array => cases harray
  | string => cases hstring
  | _ =>
    rw [coerceValue]
    · split_ifs <;> rfl
    all_goals
      intro _ h
      cases h

/-! ## Coercing twice -/

/-- What a string is turned into is a boolean or a number. -/
theorem coerceString_shape {schema : Json} {s : String} {w : Json} (h : coerceString schema s = some w) :
    w.isObject = false ∧ w.isArray = false ∧ w.isString = false := by
  unfold coerceString coerceScalar at h
  split at h
  · cases h
  · rcases Option.or_eq_some_iff.mp h with h | ⟨-, h⟩
    · obtain ⟨b, -, rfl⟩ := Option.map_eq_some_iff.mp h
      exact ⟨rfl, rfl, rfl⟩
    · rcases Option.or_eq_some_iff.mp h with h | ⟨-, h⟩
      · obtain ⟨n, -, rfl⟩ := Option.map_eq_some_iff.mp h
        exact ⟨rfl, rfl, rfl⟩
      · obtain ⟨q, -, rfl⟩ := Option.map_eq_some_iff.mp h
        exact ⟨rfl, rfl, rfl⟩

theorem coerceValue_idem (value schema : Json) :
    coerceValue (coerceValue value schema) schema = coerceValue value schema := by
  have hwith : ∀ {v : Json} {schema? : Option Json},
      (∀ schema, coerceValue (coerceValue v schema) schema = coerceValue v schema) →
      coerceWith (coerceWith v schema?) schema? = coerceWith v schema? := by
    intro v schema? h
    cases schema? with
    | none => rfl
    | some schema => exact h schema
  have hother : ∀ {v schema : Json}, coerceValue v schema = v →
      coerceValue (coerceValue v schema) schema = coerceValue v schema := by
    intro v schema h
    rw [h, h]
  induction value using Json.children_induction generalizing schema with
  | null => exact hother (coerceValue_other rfl rfl rfl schema)
  | bool => exact hother (coerceValue_other rfl rfl rfl schema)
  | number => exact hother (coerceValue_other rfl rfl rfl schema)
  | string s =>
    rw [coerceValue_string]
    cases hs : coerceString schema s with
    | none =>
      show coerceValue (.string s) schema = .string s
      rw [coerceValue_string, hs]
      rfl
    | some w =>
      obtain ⟨hobject, harray, hstring⟩ := coerceString_shape hs
      exact coerceValue_other hobject harray hstring schema
  | array items ih =>
    rw [coerceValue_array, coerceValue_array, List.map_map]
    refine congrArg Json.array (List.map_congr_left fun item hitem => ?_)
    exact hwith (ih item hitem)
  | object map ih =>
    rw [coerceValue_object, coerceValue_object, List.map_map]
    refine congrArg Json.object (List.map_congr_left fun entry hentry => ?_)
    exact congrArg (Prod.mk entry.1) (hwith (ih entry hentry))

/-! ## Places and their schemas -/

/-- The schema of a child, as far as the walk uses it. -/
def coercedChild (schema : Json) : Selector → Option Json
  | .key name => coercedProperty schema name
  | .index _ => coercedItems schema

/-- The schema that is declared for a child: `items` is for the elements behind those of
`prefixItems`. -/
def declaredChild (schema : Json) : Selector → Option Json
  | .key name => schema.descend [.key "properties", .key name]
  | .index i =>
    if i < (schema.elemsUnder "prefixItems").length then schema.descend [.key "prefixItems", .index i]
    else Fields.ofJson? schema "items"

/-- The schema the part at a place is coerced by. -/
def coercedAt (schema : Json) (place : Place) : Option Json := place.foldlM coercedChild schema

/-- The schema that is declared for the part at a place. -/
def declaredAt (schema : Json) (place : Place) : Option Json := place.foldlM declaredChild schema

theorem declaredAt_cons (schema : Json) (sel : Selector) (place : Place) :
    declaredAt schema (sel :: place) = (declaredChild schema sel).bind (declaredAt · place) := rfl

theorem select_coerceValue {value child : Json} {sel : Selector} (h : value.select sel = some child)
    (schema : Json) :
    (coerceValue value schema).select sel = some (coerceWith child (coercedChild schema sel)) := by
  cases sel with
  | key name =>
    cases value with
    | object map =>
      have hchild : Fields.get? map name = some child := h
      rw [coerceValue_object]
      show Fields.get? _ name = _
      rw [get?_map_entries map fun key v => coerceWith v (coercedProperty schema key), hchild]
      rfl
    | _ => cases h
  | index i =>
    cases value with
    | array items =>
      have hchild : items[i]? = some child := h
      rw [coerceValue_array]
      show (items.map _)[i]? = _
      rw [List.getElem?_map, hchild]
      rfl
    | _ => cases h

/-- Every part is coerced by the schema the walk has for its place. -/
theorem descend_coerceValue {value part : Json} {place : Place} (h : value.descend place = some part)
    (schema : Json) :
    (coerceValue value schema).descend place = some (coerceWith part (coercedAt schema place)) := by
  have hwith : ∀ schema? : Option Json, (coerceWith value schema?).descend place =
      some (coerceWith part (schema?.bind (coercedAt · place))) := by
    induction place generalizing value with
    | nil =>
      intro schema?
      obtain rfl := Option.some.inj h
      cases schema? <;> rfl
    | cons sel place ih =>
      intro schema?
      rw [Json.descend_cons] at h ⊢
      obtain ⟨child, hchild, hpart⟩ := Option.bind_eq_some_iff.mp h
      cases schema? with
      | none =>
        show (value.select sel).bind _ = _
        rw [hchild]
        exact hpart
      | some schema =>
        show ((coerceValue value schema).select sel).bind _ = _
        rw [select_coerceValue hchild]
        exact ih hpart (coercedChild schema sel)
  exact hwith (some schema)

/-! ## Nodes -/

/-- A value without what is in it. -/
def Json.node : Json → Json
  | .object map => .object (map.map fun entry => (entry.1, .null))
  | .array items => .array (items.map fun _ => .null)
  | other => other

/-- Where a part is replaced by one with another node, it was a string that is coerced. -/
theorem node_coerceWith {part : Json} {schema? : Option Json} (h : (coerceWith part schema?).node ≠ part.node) :
    ∃ s schema, part = .string s ∧ schema? = some schema ∧ coerceString schema s ≠ none := by
  cases schema? with
  | none => exact absurd rfl h
  | some schema =>
    change (coerceValue part schema).node ≠ part.node at h
    cases part with
    | string s =>
      refine ⟨s, schema, rfl, rfl, fun hnone => h ?_⟩
      rw [coerceValue_string, hnone]
      rfl
    | object map =>
      refine absurd ?_ h
      rw [coerceValue_object]
      simp only [Json.node, List.map_map, Function.comp_def]
    | array items =>
      refine absurd ?_ h
      rw [coerceValue_array]
      simp only [Json.node, List.map_map, Function.comp_def]
    | _ => exact absurd (congrArg Json.node (coerceValue_other rfl rfl rfl schema)) h

/-- A coerced string is another node. -/
theorem node_coerced {schema : Json} {s : String} (h : coerceString schema s ≠ none) :
    (coerceValue (.string s) schema).node ≠ .string s := by
  obtain ⟨w, hw⟩ := Option.ne_none_iff_exists'.mp h
  obtain ⟨hobject, harray, hstring⟩ := coerceString_shape hw
  rw [coerceValue_string, hw]
  cases w with
  | object => cases hobject
  | array => cases harray
  | string => cases hstring
  | _ => exact fun heq => by cases heq

theorem eq_of_node_eq {v r : Json} (hobject : v.isObject = false) (harray : v.isArray = false)
    (h : r.node = v.node) : r = v := by
  cases v with
  | object => cases hobject
  | array => cases harray
  | _ => cases r <;> first | exact h | cases h

/-- A value with the nodes of another at all its places is the other. -/
theorem eq_of_nodes {v r : Json} (hv : v.DistinctKeys)
    (h : ∀ place part, v.descend place = some part → (r.descend place).map Json.node = some part.node) :
    r = v := by
  have hroot : ∀ {v r : Json}, (∀ place part, v.descend place = some part →
      (r.descend place).map Json.node = some part.node) → r.node = v.node :=
    fun h => Option.some.inj (h [] _ rfl)
  induction v using Json.children_induction generalizing r with
  | null => exact eq_of_node_eq rfl rfl (hroot h)
  | bool => exact eq_of_node_eq rfl rfl (hroot h)
  | number => exact eq_of_node_eq rfl rfl (hroot h)
  | string => exact eq_of_node_eq rfl rfl (hroot h)
  | array items ih =>
    have hnode := hroot h
    cases r with
    | array items' =>
      have hlength : items'.length = items.length := by
        have := congrArg List.length (Json.array.inj hnode)
        simpa using this
      refine congrArg Json.array (List.ext_getElem hlength fun i hi' hi => ?_)
      have hselect : (Json.array items).select (.index i) = some items[i] := List.getElem?_eq_getElem hi
      have hselect' : (Json.array items').select (.index i) = some items'[i] :=
        List.getElem?_eq_getElem hi'
      refine ih items[i] (List.getElem_mem hi) (hv.select hselect) fun place part hpart => ?_
      have hplace := h (.index i :: place) part (by rw [Json.descend_cons, hselect]; exact hpart)
      rw [Json.descend_cons, hselect'] at hplace
      exact hplace
    | _ => cases hnode
  | object map ih =>
    have hnode := hroot h
    cases r with
    | object map' =>
      have hkeys : map'.map (·.1) = map.map (·.1) := by
        have := congrArg (List.map (·.1)) (Json.object.inj hnode)
        simpa [Function.comp_def] using this
      have hlength : map'.length = map.length := by
        have := congrArg List.length hkeys
        simpa using this
      have hnodup : (map.map (·.1)).Nodup := hv [] map rfl
      refine congrArg Json.object (List.ext_getElem hlength fun i hi' hi => ?_)
      have hname : map'[i].1 = map[i].1 := by
        have := List.getElem_of_eq hkeys (i := i) (by simpa using hi')
        simpa using this
      have hselect : (Json.object map).select (.key map[i].1) = some map[i].2 :=
        Fields.get?_of_mem hnodup (List.getElem_mem hi)
      have hselect' : (Json.object map').select (.key map[i].1) = some map'[i].2 := by
        rw [← hname]
        exact Fields.get?_of_mem (hkeys ▸ hnodup) (List.getElem_mem hi')
      refine Prod.ext hname (ih map[i] (List.getElem_mem hi) (hv.select hselect)
        fun place part hpart => ?_)
      have hplace := h (.key map[i].1 :: place) part (by rw [Json.descend_cons, hselect]; exact hpart)
      rw [Json.descend_cons, hselect'] at hplace
      exact hplace
    | _ => cases hnode

/-! ## Conservative coercion -/

/-- A part of a valid value is valid for the schema that is declared for its place. -/
theorem Valid.declaredAt {dialect : Dialect} {schema value sub part : Json} {place : Place}
    (h : Valid dialect schema value) (hpart : value.descend place = some part)
    (hsub : declaredAt schema place = some sub) : Valid dialect sub part := by
  induction place generalizing schema value with
  | nil =>
    obtain rfl := Option.some.inj hpart
    obtain rfl := Option.some.inj hsub
    exact h
  | cons sel place ih =>
    rw [Json.descend_cons] at hpart
    rw [declaredAt_cons] at hsub
    obtain ⟨child, hchild, hpart⟩ := Option.bind_eq_some_iff.mp hpart
    obtain ⟨below, hbelow, hsub⟩ := Option.bind_eq_some_iff.mp hsub
    refine ih ?_ hpart hsub
    cases sel with
    | key name => exact h.property hbelow hchild
    | index i =>
      change (if _ then _ else _) = _ at hbelow
      split at hbelow
      · exact h.leadingItem hbelow hchild
      · next hi => exact h.item (Json.descend_key.mpr hbelow) hchild (Nat.le_of_not_lt hi)

/-- A schema declares one of the types that strings are coerced to. -/
def DeclaresScalar (schema : Json) : Prop :=
  ∃ name ∈ ["integer", "number", "boolean"], name ∈ declaredTypes schema

/-- What a careful coercion keeps to: a part that has a declared type stays, valid values stay valid,
only strings where a scalar is declared change, and once is enough. -/
structure Conservative (schema value : Json) : Prop where
  keeps : ∀ place part sub, value.descend place = some part → declaredAt schema place = some sub →
    (∃ name ∈ declaredTypes sub, hasType name part) →
    ((coerceValue value schema).descend place).map Json.node = some part.node
  valid : ∀ dialect, Valid dialect schema value → Valid dialect schema (coerceValue value schema)
  strings : ∀ place part, value.descend place = some part →
    ((coerceValue value schema).descend place).map Json.node ≠ some part.node →
    part.isString ∧ ∃ sub, declaredAt schema place = some sub ∧ DeclaresScalar sub
  idem : coerceValue (coerceValue value schema) schema = coerceValue value schema

/-- Every string that the walk coerces stands where a scalar is declared, and no string. -/
def CoercesProperly (schema value : Json) : Prop :=
  ∀ place s sub, value.descend place = some (.string s) → coercedAt schema place = some sub →
    coerceString sub s ≠ none →
    ∃ declared, declaredAt schema place = some declared ∧ DeclaresScalar declared ∧
      "string" ∉ declaredTypes declared

theorem eq_string_of_hasType {name s : String} (h : hasType name (.string s) = true) : name = "string" := by
  unfold hasType at h
  split_ifs at h with _ _ hstring
  all_goals first | exact hstring | cases h

/-- Coercion is conservative if and only if it coerces properly. -/
theorem coerceValue_conservative_iff (schema value : Json) (hkeys : value.DistinctKeys) :
    Conservative schema value ↔ CoercesProperly schema value := by
  constructor
  · intro h place s sub hpart hcoerced hturns
    have hchanged : ((coerceValue value schema).descend place).map Json.node ≠ some (.string s) := by
      rw [descend_coerceValue hpart, hcoerced]
      exact fun heq => node_coerced hturns (Option.some.inj heq)
    obtain ⟨-, declared, hdeclared, hscalar⟩ := h.strings place _ hpart hchanged
    refine ⟨declared, hdeclared, hscalar, fun hstring => hchanged ?_⟩
    exact h.keeps place _ declared hpart hdeclared ⟨"string", hstring, rfl⟩
  · intro h
    have hcoerced : ∀ place part, value.descend place = some part →
        ((coerceValue value schema).descend place).map Json.node ≠ some part.node →
        ∃ s declared, part = .string s ∧ declaredAt schema place = some declared ∧
          DeclaresScalar declared ∧ "string" ∉ declaredTypes declared := by
      intro place part hpart hchanged
      rw [descend_coerceValue hpart] at hchanged
      obtain ⟨s, sub, rfl, hsub, hturns⟩ := node_coerceWith fun heq => hchanged (congrArg some heq)
      obtain ⟨declared, hdeclared⟩ := h place s sub hpart hsub hturns
      exact ⟨s, declared, rfl, hdeclared⟩
    refine ⟨fun place part sub hpart hsub htype => ?_, fun dialect hvalid => ?_,
      fun place part hpart hchanged => ?_, coerceValue_idem value schema⟩
    · by_contra hchanged
      obtain ⟨s, declared, rfl, hdeclared, -, hnostring⟩ := hcoerced place part hpart hchanged
      obtain rfl := Option.some.inj (hdeclared.symm.trans hsub)
      obtain ⟨name, hname, htype⟩ := htype
      exact hnostring (eq_string_of_hasType htype ▸ hname)
    · -- a string where another type is declared makes no valid value
      have hsame : coerceValue value schema = value := by
        refine eq_of_nodes hkeys fun place part hpart => ?_
        by_contra hchanged
        obtain ⟨s, declared, rfl, hdeclared, ⟨name, -, hscalar⟩, hnostring⟩ :=
          hcoerced place part hpart hchanged
        have hasserts := (hvalid.declaredAt hpart hdeclared).asserts ?_
        · cases htypes : declaredTypes? declared with
          | none =>
            rw [declaredTypes, htypes] at hscalar
            cases hscalar
          | some names =>
            obtain ⟨name', hname', htype⟩ := hasserts.type names htypes
            refine hnostring ?_
            rw [declaredTypes, htypes]
            exact eq_string_of_hasType htype ▸ hname'
        · cases declared with
          | object => rfl
          | _ => cases hscalar
      rw [hsame]
      exact hvalid
    · obtain ⟨s, declared, rfl, hdeclared, hscalar, -⟩ := hcoerced place part hpart hchanged
      exact ⟨rfl, declared, hdeclared, hscalar⟩

/-- An object of one property, as a schema and as a value. -/
def countSchema : Json :=
  .object [("properties", .object [("count", .object [("type", .string "integer")])]),
    ("type", .string "object")]

def countValue : Json := .object [("count", .string "42")]

theorem descend_countValue {place : Place} {part : Json} (h : countValue.descend place = some part) :
    (place = [] ∧ part = countValue) ∨ (place = [.key "count"] ∧ part = .string "42") := by
  cases place with
  | nil => exact .inl ⟨rfl, (Option.some.inj h).symm⟩
  | cons sel place =>
    rw [Json.descend_cons] at h
    obtain ⟨child, hchild, hpart⟩ := Option.bind_eq_some_iff.mp h
    cases sel with
    | index => cases hchild
    | key name =>
      change Fields.get? [("count", Json.string "42")] name = some child at hchild
      rw [Fields.get?_cons] at hchild
      obtain ⟨rfl, hchild⟩ := Option.ite_none_right_eq_some.mp hchild
      obtain rfl := Option.some.inj hchild
      cases place with
      | nil => exact .inr ⟨rfl, (Option.some.inj hpart).symm⟩
      | cons sel place =>
        rw [Json.descend_cons] at hpart
        cases sel <;> cases hpart

theorem coerceValue_conservative_count :
    countValue.DistinctKeys ∧ (Conservative countSchema countValue ↔ CoercesProperly countSchema countValue) ∧
      CoercesProperly countSchema countValue := by
  have hkeys : countValue.DistinctKeys := by
    intro place map hmap
    rcases descend_countValue hmap with ⟨-, heq⟩ | ⟨-, heq⟩
    · obtain rfl := Json.object.inj heq
      decide
    · cases heq
  refine ⟨hkeys, coerceValue_conservative_iff _ _ hkeys, fun place s sub hpart _ _ => ?_⟩
  rcases descend_countValue hpart with ⟨-, heq⟩ | ⟨rfl, -⟩
  · cases heq
  · exact ⟨.object [("type", .string "integer")], rfl, ⟨"integer", by decide, by decide⟩, by decide⟩

/-- A string that may be an integer. -/
def textOrInteger : Json := .object [("type", .array [.string "string", .string "integer"])]

/-- A string, and integers behind it. -/
def labelledIntegers : Json :=
  .object [("items", .object [("type", .string "integer")]),
    ("prefixItems", .array [.object [("type", .string "string")]]), ("type", .string "array")]

/-- A string is turned into an integer although its type is declared, and so is one that `prefixItems`
covers. -/
theorem coerceValue_not_conservative : ¬Conservative textOrInteger (.string "42") ∧
    ¬Conservative labelledIntegers (.array [.string "42"]) := by
  have hturns : ∀ schema, coerceString schema "42" = some (.number (.posInt 42)) →
      (coerceValue (.string "42") schema).node ≠ .string "42" := by
    intro schema h
    exact node_coerced (by rw [h]; exact Option.some_ne_none _)
  constructor
  · intro h
    have hkept := h.keeps [] _ _ rfl rfl ⟨"string", by decide, rfl⟩
    exact hturns textOrInteger rfl (Option.some.inj hkept)
  · intro h
    have hplace : (Json.array [.string "42"]).descend [.index 0] = some (.string "42") := rfl
    obtain ⟨-, sub, hsub, name, hname, hdeclared⟩ := h.strings [.index 0] _ hplace (by
      rw [descend_coerceValue hplace]
      exact fun heq => hturns (.object [("type", .string "integer")]) rfl (Option.some.inj heq))
    obtain rfl : Json.object [("type", .string "string")] = sub := Option.some.inj hsub
    revert name
    decide

end Apcore
