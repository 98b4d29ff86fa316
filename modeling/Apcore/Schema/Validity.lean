import Apcore.Json
import Apcore.Schema.Positions

/-! # `Schema.Validity` — equalities of values, and when a value is valid for a schema

`==` of `serde_json` tells the three shapes of a number apart; JSON Schema compares numbers by what
they are worth. -/

namespace Apcore

/-- What a number is worth. -/
def Number.value : Number → ℚ
  | .posInt n => n.toNat
  | .negInt n => n
  | .float q => q

namespace Json

/-! ## Equality of representations -/

mutual

/-- `==`. -/
def beq : Json → Json → Bool
  | .null, .null => true
  | .bool a, .bool b => a == b
  | .number m, .number n => m == n
  | .string s, .string t => s == t
  | .array xs, .array ys => beqElems xs ys
  | .object fields, .object fields' => beqFields fields fields'
  | _, _ => false

def beqElems : List Json → List Json → Bool
  | [], [] => true
  | x :: xs, y :: ys => beq x y && beqElems xs ys
  | _, _ => false

def beqFields : List (String × Json) → List (String × Json) → Bool
  | [], [] => true
  | (k, x) :: xs, (k', y) :: ys => k == k' && beq x y && beqFields xs ys
  | _, _ => false

end

theorem beqElems_iff {xs ys : List Json} (h : ∀ x ∈ xs, ∀ y, beq x y = true ↔ x = y) :
    beqElems xs ys = true ↔ xs = ys := by
  induction xs generalizing ys with
  | nil => cases ys <;> simp [beqElems]
  | cons x xs ih =>
    cases ys with
    | nil => simp [beqElems]
    | cons y ys =>
      rw [beqElems, Bool.and_eq_true, h x List.mem_cons_self,
        ih fun z hz => h z (List.mem_cons_of_mem _ hz), List.cons.injEq]

theorem beqFields_iff {fields fields' : List (String × Json)}
    (h : ∀ entry ∈ fields, ∀ y, beq entry.2 y = true ↔ entry.2 = y) :
    beqFields fields fields' = true ↔ fields = fields' := by
  induction fields generalizing fields' with
  | nil => cases fields' <;> simp [beqFields]
  | cons entry rest ih =>
    obtain ⟨k, x⟩ := entry
    cases fields' with
    | nil => simp [beqFields]
    | cons entry' rest' =>
      obtain ⟨k', y⟩ := entry'
      rw [beqFields, Bool.and_eq_true, Bool.and_eq_true, beq_iff_eq, h (k, x) List.mem_cons_self,
        ih fun z hz => h z (List.mem_cons_of_mem _ hz), List.cons.injEq, Prod.mk.injEq]

theorem beq_iff (a b : Json) : beq a b = true ↔ a = b := by
  induction a using Json.children_induction generalizing b with
  | null => cases b <;> simp [beq]
  | bool => cases b <;> simp [beq]
  | number => cases b <;> simp [beq]
  | string => cases b <;> simp [beq]
  | array elems ih =>
    cases b with
    | array ys => rw [beq, beqElems_iff ih, Json.array.injEq]
    | _ => simp [beq]
  | object fields ih =>
    cases b with
    | object fields' => rw [beq, beqFields_iff ih, Json.object.injEq]
    | _ => simp [beq]

instance : DecidableEq Json := fun a b => decidable_of_iff _ (beq_iff a b)

/-! ## Equality of values -/

mutual

/-- The value with every number by what it is worth. -/
def byValue : Json → Json
  | .number n => .number (.float n.value)
  | .array elems => .array (byValueElems elems)
  | .object fields => .object (byValueFields fields)
  | other => other

def byValueElems : List Json → List Json
  | [] => []
  | v :: rest => byValue v :: byValueElems rest

def byValueFields : List (String × Json) → List (String × Json)
  | [] => []
  | (key, v) :: rest => (key, byValue v) :: byValueFields rest

end

/-- Two values are one where numbers count by what they are worth. -/
def SameValue (a b : Json) : Prop := a.byValue = b.byValue

instance (a b : Json) : Decidable (SameValue a b) := inferInstanceAs (Decidable (_ = _))

example : SameValue (.number (.posInt 1)) (.number (.float 1)) := rfl

end Json

end Apcore

/-! ## When a value is valid for a schema

The keywords of JSON Schema (draft 2020-12) that the checks of the program look at. What the others
ask of a value, how a pattern is matched and whether `format` asserts anything is left open. -/

namespace Apcore

/-- What validity depends on besides. -/
structure Dialect where
  /-- A pattern is found in a name. -/
  finds : String → String → Prop
  /-- What a `format` asserts of a string. -/
  format : String → String → Prop
  /-- What a schema asks of a value through the keywords that are not named here. -/
  others : Json → Json → Prop

namespace Json

def isBool (v : Json) : Bool := v.asBool?.isSome

def isString (v : Json) : Bool := v.asStr?.isSome

def isNumber (v : Json) : Bool := v.asNumber?.isSome

def isArray (v : Json) : Bool := v.asArray?.isSome

end Json

/-- A value has a type of JSON Schema. -/
def hasType (name : String) (v : Json) : Bool :=
  if name = "null" then v.isNull
  else if name = "boolean" then v.isBool
  else if name = "string" then v.isString
  else if name = "number" then v.isNumber
  else if name = "integer" then v.asNumber?.any fun n => n.value.den == 1
  else if name = "array" then v.isArray
  else if name = "object" then v.isObject
  else false

/-- The types a schema names: one, or a list of them. -/
def declaredTypes? (schema : Json) : Option (List String) :=
  match Fields.ofJson? schema "type" with
  | some (.string name) => some [name]
  | some (.array names) => some (names.filterMap Json.asStr?)
  | _ => none

/-- What the keywords without a schema in them ask of a value. -/
structure Asserts (dialect : Dialect) (schema data : Json) : Prop where
  type : ∀ names, declaredTypes? schema = some names → ∃ name ∈ names, hasType name data
  const : ∀ expected, Fields.ofJson? schema "const" = some expected → expected.SameValue data
  enum : ∀ allowed, Fields.ofJson? schema "enum" = some (.array allowed) →
    ∃ v ∈ allowed, v.SameValue data
  required : ∀ names, Fields.ofJson? schema "required" = some (.array names) →
    data.isObject → ∀ name, .string name ∈ names → (Fields.ofJson? data name).isSome
  format : ∀ name text, Fields.ofJson? schema "format" = some (.string name) →
    data = .string text → dialect.format name text
  others : dialect.others schema data

/-- A name of a value is covered by neither `properties` nor `patternProperties`. -/
def Additional (dialect : Dialect) (schema : Json) (name : String) : Prop :=
  schema.descend [.key "properties", .key name] = none ∧
    ∀ pattern, (schema.descend [.key "patternProperties", .key pattern]).isSome →
      ¬ dialect.finds pattern name

/-- The value is valid for the schema. -/
def Valid (dialect : Dialect) (schema data : Json) : Prop :=
  schema ≠ .bool false ∧ (schema.isObject → Asserts dialect schema data) ∧
  (∀ name sub (_h : schema.descend [.key "properties", .key name] = some sub) value,
    Fields.ofJson? data name = some value → Valid dialect sub value) ∧
  (∀ pattern sub (_h : schema.descend [.key "patternProperties", .key pattern] = some sub) name value,
    Fields.ofJson? data name = some value → dialect.finds pattern name → Valid dialect sub value) ∧
  (∀ sub (_h : schema.descend [.key "additionalProperties"] = some sub) name value,
    Fields.ofJson? data name = some value → Additional dialect schema name → Valid dialect sub value) ∧
  (∀ i sub (_h : schema.descend [.key "prefixItems", .index i] = some sub) value,
    data.select (.index i) = some value → Valid dialect sub value) ∧
  (∀ sub (_h : schema.descend [.key "items"] = some sub) i value,
    data.select (.index i) = some value → (schema.elemsUnder "prefixItems").length ≤ i →
      Valid dialect sub value) ∧
  (∀ i sub (_h : schema.descend [.key "allOf", .index i] = some sub), Valid dialect sub data) ∧
  (∀ branches, Fields.ofJson? schema "anyOf" = some (.array branches) →
    ∃ i sub, ∃ _h : schema.descend [.key "anyOf", .index i] = some sub, Valid dialect sub data) ∧
  (∀ branches, Fields.ofJson? schema "oneOf" = some (.array branches) →
    ∃! i, ∃ sub, ∃ _h : schema.descend [.key "oneOf", .index i] = some sub, Valid dialect sub data)
termination_by sizeOf schema
decreasing_by all_goals exact Json.sizeOf_descend_lt (List.cons_ne_nil _ _) _h

namespace Valid

variable {dialect : Dialect} {schema data sub value : Json} {name : String} {i : Nat}

theorem asserts (h : Valid dialect schema data) (hobject : schema.isObject = true) :
    Asserts dialect schema data := by
  rw [Valid] at h
  exact h.2.1 hobject

theorem property (h : Valid dialect schema data)
    (hsub : schema.descend [.key "properties", .key name] = some sub)
    (hvalue : Fields.ofJson? data name = some value) : Valid dialect sub value := by
  rw [Valid] at h
  obtain ⟨-, -, hproperty, -⟩ := h
  exact hproperty name sub hsub value hvalue

theorem patternProperty {pattern : String} (h : Valid dialect schema data)
    (hsub : schema.descend [.key "patternProperties", .key pattern] = some sub)
    (hvalue : Fields.ofJson? data name = some value) (hfinds : dialect.finds pattern name) :
    Valid dialect sub value := by
  rw [Valid] at h
  obtain ⟨-, -, -, hpattern, -⟩ := h
  exact hpattern pattern sub hsub name value hvalue hfinds

theorem additional (h : Valid dialect schema data)
    (hsub : schema.descend [.key "additionalProperties"] = some sub)
    (hvalue : Fields.ofJson? data name = some value) (hname : Additional dialect schema name) :
    Valid dialect sub value := by
  rw [Valid] at h
  obtain ⟨-, -, -, -, hadditional, -⟩ := h
  exact hadditional sub hsub name value hvalue hname

theorem leadingItem (h : Valid dialect schema data)
    (hsub : schema.descend [.key "prefixItems", .index i] = some sub)
    (hvalue : data.select (.index i) = some value) : Valid dialect sub value := by
  rw [Valid] at h
  obtain ⟨-, -, -, -, -, hleading, -⟩ := h
  exact hleading i sub hsub value hvalue

theorem item (h : Valid dialect schema data) (hsub : schema.descend [.key "items"] = some sub)
    (hvalue : data.select (.index i) = some value)
    (hi : (schema.elemsUnder "prefixItems").length ≤ i) : Valid dialect sub value := by
  rw [Valid] at h
  obtain ⟨-, -, -, -, -, -, hitems, -⟩ := h
  exact hitems sub hsub i value hvalue hi

theorem member (h : Valid dialect schema data)
    (hsub : schema.descend [.key "allOf", .index i] = some sub) : Valid dialect sub data := by
  rw [Valid] at h
  obtain ⟨-, -, -, -, -, -, -, hall, -⟩ := h
  exact hall i sub hsub

/-- Of a union one branch accepts the value. -/
theorem branch (h : Valid dialect schema data) {keyword : String} (hkeyword : keyword ∈ ["anyOf", "oneOf"])
    {branches : List Json} (hbranches : Fields.ofJson? schema keyword = some (.array branches)) :
    ∃ sub ∈ branches, Valid dialect sub data := by
  rw [Valid] at h
  obtain ⟨-, -, -, -, -, -, -, -, hany, hone⟩ := h
  have hfound : ∃ i sub, schema.descend [.key keyword, .index i] = some sub ∧
      Valid dialect sub data := by
    rcases List.mem_cons.mp hkeyword with rfl | hkeyword
    · obtain ⟨i, sub, hsub, hvalid⟩ := hany branches hbranches
      exact ⟨i, sub, hsub, hvalid⟩
    · obtain rfl := List.mem_singleton.mp hkeyword
      obtain ⟨i, ⟨sub, hsub, hvalid⟩, -⟩ := hone branches hbranches
      exact ⟨i, sub, hsub, hvalid⟩
  obtain ⟨i, sub, hsub, hvalid⟩ := hfound
  obtain ⟨elems, helems, hmem⟩ := Json.descend_elem.mp hsub
  obtain rfl := Json.array.inj (Option.some.inj (hbranches.symm.trans helems))
  exact ⟨sub, List.mem_of_getElem? hmem, hvalid⟩

end Valid

end Apcore
