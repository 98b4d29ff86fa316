import Apcore.Schema.Validity

/-! # `Schema.Contradiction` — what the structural check refutes

`contradicts` looks at a few keywords only, and answers `true` where the data cannot match. -/

namespace Apcore

open Json

/-- `type_matches`. -/
def typeMatches (declared : String) (data : Json) : Bool :=
  if declared = "null" then data.isNull
  else if declared = "boolean" then data.isBool
  else if declared = "string" then data.isString
  else if declared = "integer" ∨ declared = "number" then data.isNumber
  else if declared = "array" then data.isArray
  else if declared = "object" then data.isObject
  else true

/-! ## The check -/

/-- None of the types that are named is the data's. -/
def typeClashes (schema data : Json) : Bool :=
  match declaredTypes? schema with
  | some names => !names.any (typeMatches · data)
  | none => false

/-- `const`, by `==`. -/
def constClashes (schema data : Json) : Bool :=
  (Fields.ofJson? schema "const").any (· ≠ data)

/-- `enum`, by `==`. -/
def enumClashes (schema data : Json) : Bool :=
  match Fields.ofJson? schema "enum" with
  | some (.array allowed) => data ∉ allowed
  | _ => false

def requiredClashes (schema data : Json) : Bool :=
  data.isObject &&
    ((elemsUnder schema "required").filterMap asStr?).any fun name =>
      (Fields.ofJson? data name).isNone

/-- `contradicts`. -/
def contradicts (schema data : Json) : Bool :=
  if schema.isObject then
    typeClashes schema data || constClashes schema data || enumClashes schema data ||
      requiredClashes schema data ||
      (entriesUnder schema "properties").attach.any (fun entry =>
        (Fields.ofJson? data entry.1.1).any fun value => contradicts entry.1.2 value) ||
      (elemsUnder schema "allOf").attach.any (fun member => contradicts member.1 data) ||
      (!(elemsUnder schema "anyOf").isEmpty &&
        (elemsUnder schema "anyOf").attach.all fun branch => contradicts branch.1 data) ||
      (!(elemsUnder schema "oneOf").isEmpty &&
        (elemsUnder schema "oneOf").attach.all fun branch => contradicts branch.1 data)
  else false
termination_by sizeOf schema
decreasing_by
  · exact sizeOf_entriesUnder entry.2
  · exact sizeOf_elemsUnder member.2
  · exact sizeOf_elemsUnder branch.2
  · exact sizeOf_elemsUnder branch.2

/-! ## What refutes -/

/-- The keywords that are looked at refute the data, with an equality for `const` and `enum`. -/
inductive Refuted (same : Json → Json → Prop) : Json → Json → Prop
  | type {schema data : Json} (h : typeClashes schema data = true) : Refuted same schema data
  | const {schema data expected : Json} (h : Fields.ofJson? schema "const" = some expected)
      (hne : ¬ same expected data) : Refuted same schema data
  | enum {schema data : Json} {allowed : List Json}
      (h : Fields.ofJson? schema "enum" = some (.array allowed))
      (hnone : ∀ v ∈ allowed, ¬ same v data) : Refuted same schema data
  | required {schema data : Json} (h : requiredClashes schema data = true) :
      Refuted same schema data
  | property {schema data sub value : Json} {name : String}
      (hsub : schema.descend [.key "properties", .key name] = some sub)
      (hvalue : Fields.ofJson? data name = some value) (h : Refuted same sub value) :
      Refuted same schema data
  | member {schema data sub : Json} {i : Nat}
      (hsub : schema.descend [.key "allOf", .index i] = some sub) (h : Refuted same sub data) :
      Refuted same schema data
  | union {schema data : Json} {keyword : String} {branches : List Json}
      (hkeyword : keyword ∈ ["anyOf", "oneOf"])
      (hbranches : Fields.ofJson? schema keyword = some (.array branches)) (hne : branches ≠ [])
      (h : ∀ branch ∈ branches, Refuted same branch data) : Refuted same schema data

/-- Only an object refutes anything. -/
theorem Refuted.isObject {same : Json → Json → Prop} {schema data : Json}
    (h : Refuted same schema data) : schema.isObject = true := by
  have hdescend : ∀ {key : String} {rest : Place} {v : Json},
      schema.descend (.key key :: rest) = some v → schema.isObject = true := by
    intro key rest v h
    obtain ⟨child, hchild, -⟩ := Option.bind_eq_some_iff.mp (descend_cons _ _ _ ▸ h)
    exact isObject_of_ofJson? hchild
  cases h with
  | type h =>
    cases schema with
    | object fields => rfl
    | _ => cases h
  | const h => exact isObject_of_ofJson? h
  | enum h => exact isObject_of_ofJson? h
  | required h =>
    cases schema with
    | object fields => rfl
    | _ => cases data <;> cases h
  | property hsub => exact hdescend hsub
  | member hsub => exact hdescend hsub
  | union _ hbranches => exact isObject_of_ofJson? hbranches

/-- A notion of validity under which the keywords that are looked at assert what they do in JSON
Schema. What an unknown type admits, and what else a number must be to be an integer, is left open. -/
structure Reading where
  valid : Json → Json → Prop
  type : ∀ {schema data : Json}, valid schema data → ∀ names, declaredTypes? schema = some names →
    ∃ name ∈ names, typeMatches name data = true
  const : ∀ {schema data : Json}, valid schema data →
    ∀ expected, Fields.ofJson? schema "const" = some expected → expected.SameValue data
  enum : ∀ {schema data : Json}, valid schema data →
    ∀ allowed, Fields.ofJson? schema "enum" = some (.array allowed) → ∃ v ∈ allowed, v.SameValue data
  required : ∀ {schema data : Json}, valid schema data → requiredClashes schema data = false
  property : ∀ {schema data sub value : Json} {name : String}, valid schema data →
    schema.descend [.key "properties", .key name] = some sub →
    Fields.ofJson? data name = some value → valid sub value
  member : ∀ {schema data sub : Json} {i : Nat}, valid schema data →
    schema.descend [.key "allOf", .index i] = some sub → valid sub data
  branch : ∀ {schema data : Json} {keyword : String} {branches : List Json}, valid schema data →
    keyword ∈ ["anyOf", "oneOf"] → Fields.ofJson? schema keyword = some (.array branches) →
    branches ≠ [] → ∃ branch ∈ branches, valid branch data

theorem typeClashes_iff {schema data : Json} : typeClashes schema data = true ↔
    ∃ names, declaredTypes? schema = some names ∧ ∀ name ∈ names, typeMatches name data = false := by
  unfold typeClashes
  cases declaredTypes? schema with
  | none => exact ⟨fun h => absurd h Bool.false_ne_true, fun ⟨_, h, _⟩ => absurd h.symm (Option.some_ne_none _)⟩
  | some names =>
    dsimp only
    rw [Bool.not_eq_true', List.any_eq_false]
    constructor
    · exact fun h => ⟨names, rfl, fun name hname => Bool.eq_false_iff.mpr (h name hname)⟩
    · rintro ⟨names', heq, h⟩ name hname
      obtain rfl := Option.some.inj heq
      exact Bool.eq_false_iff.mp (h name hname)

/-- What is refuted with numbers by what they are worth is valid under no reading. -/
theorem Reading.not_valid (R : Reading) {schema data : Json} (h : Refuted SameValue schema data) :
    ¬ R.valid schema data := by
  induction h with
  | type h =>
    intro hvalid
    obtain ⟨names, hnames, hnone⟩ := typeClashes_iff.mp h
    obtain ⟨name, hname, hmatches⟩ := R.type hvalid names hnames
    exact Bool.false_ne_true ((hnone name hname).symm.trans hmatches)
  | const h hne => exact fun hvalid => hne (R.const hvalid _ h)
  | enum h hnone =>
    intro hvalid
    obtain ⟨v, hv, hsame⟩ := R.enum hvalid _ h
    exact hnone v hv hsame
  | required h => exact fun hvalid => absurd h (Bool.eq_false_iff.mp (R.required hvalid))
  | property hsub hvalue _ ih => exact fun hvalid => ih (R.property hvalid hsub hvalue)
  | member hsub _ ih => exact fun hvalid => ih (R.member hvalid hsub)
  | union hkeyword hbranches hne _ ih =>
    intro hvalid
    obtain ⟨branch, hbranch, hvalid⟩ := R.branch hvalid hkeyword hbranches hne
    exact ih branch hbranch hvalid

theorem typeMatches_of_hasType {name : String} {data : Json} (h : hasType name data = true) :
    typeMatches name data = true := by
  unfold hasType at h
  unfold typeMatches
  by_cases hinteger : name = "integer"
  · subst hinteger
    cases data with
    | number n => rfl
    | _ => cases h
  · by_cases hnumber : name = "number"
    · subst hnumber
      exact h
    · have hneither : ¬ (name = "integer" ∨ name = "number") := fun hor => hor.elim hinteger hnumber
      rw [if_neg hneither]
      rw [if_neg hinteger, if_neg hnumber] at h
      repeat' split at h
      all_goals simp_all

theorem requiredClashes_iff {schema data : Json} : requiredClashes schema data = true ↔
    data.isObject = true ∧ ∃ name, .string name ∈ elemsUnder schema "required" ∧
      Fields.ofJson? data name = none := by
  unfold requiredClashes
  rw [Bool.and_eq_true, List.any_eq_true]
  refine and_congr_right fun _ => exists_congr fun name => ?_
  rw [Option.isNone_iff_eq_none, List.mem_filterMap]
  refine and_congr_left fun _ => ⟨?_, fun h => ⟨_, h, rfl⟩⟩
  rintro ⟨v, hv, hname⟩
  cases v with
  | string s =>
    obtain rfl := Option.some.inj hname
    exact hv
  | _ => cases hname

/-- JSON Schema is read so, whatever the other keywords ask. -/
def Dialect.reading (dialect : Dialect) : Reading where
  valid := Valid dialect
  type := by
    intro schema data hvalid names hnames
    have hobject : schema.isObject = true := by
      cases schema with
      | object fields => rfl
      | _ => cases hnames
    obtain ⟨name, hname, hhas⟩ := (hvalid.asserts hobject).type names hnames
    exact ⟨name, hname, typeMatches_of_hasType hhas⟩
  const := fun hvalid expected h => (hvalid.asserts (isObject_of_ofJson? h)).const expected h
  enum := fun hvalid allowed h => (hvalid.asserts (isObject_of_ofJson? h)).enum allowed h
  required := by
    intro schema data hvalid
    rw [Bool.eq_false_iff]
    intro hclashes
    obtain ⟨hdata, name, hname, hmissing⟩ := requiredClashes_iff.mp hclashes
    have harray := array_of_elemsUnder (List.ne_nil_of_mem hname)
    have hasserts := hvalid.asserts (isObject_of_ofJson? harray)
    have hsome := hasserts.required _ harray hdata name hname
    rw [hmissing] at hsome
    cases hsome
  property := fun hvalid hsub hvalue => hvalid.property hsub hvalue
  member := fun hvalid hsub => hvalid.member hsub
  branch := fun hvalid hkeyword hbranches _ => hvalid.branch hkeyword hbranches

end Apcore
