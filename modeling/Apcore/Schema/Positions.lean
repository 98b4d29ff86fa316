import Apcore.Schema.Places

/-! # `Schema.Positions` — where schemas stand in a schema

A keyword holds schemas in one of three ways. What a table of keywords says is a matter of the way
alone: a place is a position for schemas, or it is one of data or of names, whatever stands there. -/

namespace Apcore

namespace Json

/-- Induction over a value: everything smaller comes first. -/
@[elab_as_elim]
theorem size_induction {motive : Json → Prop}
    (h : ∀ v, (∀ part, sizeOf part < sizeOf v → motive part) → motive v) (v : Json) : motive v :=
  (measure (sizeOf : Json → Nat)).wf.induction v h

/-- The entries of an object, each with what its key is looked up as. -/
def members (v : Json) : List (String × Json) :=
  let entries := v.asObject?.getD []
  entries.filterMap fun entry => (Fields.get? entries entry.1).map (entry.1, ·)

/-- The entries of the object under a key. -/
def entriesUnder (node : Json) (key : String) : List (String × Json) :=
  ((Fields.ofJson? node key).getD .null).members

/-- The elements of the array under a key. -/
def elemsUnder (node : Json) (key : String) : List Json :=
  ((Fields.ofJson? node key).bind asArray?).getD []

theorem descend_entry {node v : Json} {key name : String} :
    node.descend [.key key, .key name] = some v ↔
      ∃ entries, Fields.ofJson? node key = some (.object entries) ∧ Fields.get? entries name = some v := by
  rw [descend_cons, Option.bind_eq_some_iff]
  constructor
  · rintro ⟨child, hchild, hv⟩
    rw [descend_cons, Option.bind_eq_some_iff] at hv
    obtain ⟨v', hv', hsome⟩ := hv
    obtain rfl := Option.some.inj hsome
    cases child with
    | object entries => exact ⟨entries, hchild, hv'⟩
    | _ => cases hv'
  · rintro ⟨entries, hentries, hv⟩
    refine ⟨.object entries, hentries, ?_⟩
    rw [descend_cons, Option.bind_eq_some_iff]
    exact ⟨v, hv, rfl⟩

theorem descend_elem {node v : Json} {key : String} {i : Nat} :
    node.descend [.key key, .index i] = some v ↔
      ∃ elems, Fields.ofJson? node key = some (.array elems) ∧ elems[i]? = some v := by
  rw [descend_cons, Option.bind_eq_some_iff]
  constructor
  · rintro ⟨child, hchild, hv⟩
    rw [descend_cons, Option.bind_eq_some_iff] at hv
    obtain ⟨v', hv', hsome⟩ := hv
    obtain rfl := Option.some.inj hsome
    cases child with
    | array elems => exact ⟨elems, hchild, hv'⟩
    | _ => cases hv'
  · rintro ⟨elems, helems, hv⟩
    refine ⟨.array elems, helems, ?_⟩
    rw [descend_cons, Option.bind_eq_some_iff]
    exact ⟨v, hv, rfl⟩

theorem descend_key {node v : Json} {key : String} :
    node.descend [.key key] = some v ↔ Fields.ofJson? node key = some v := by
  show (Fields.ofJson? node key).bind some = some v ↔ _
  rw [Option.bind_fun_some]

theorem mem_members {v : Json} {entry : String × Json} :
    entry ∈ v.members ↔ Fields.ofJson? v entry.1 = some entry.2 := by
  cases v with
  | object fields =>
    show entry ∈ fields.filterMap (fun entry => (Fields.get? fields entry.1).map (entry.1, ·)) ↔
      Fields.get? fields entry.1 = some entry.2
    rw [List.mem_filterMap]
    constructor
    · rintro ⟨listed, -, hentry⟩
      obtain ⟨child, hchild, rfl⟩ := Option.map_eq_some_iff.mp hentry
      exact hchild
    · intro h
      obtain ⟨listed, hfind, hlisted⟩ := Option.map_eq_some_iff.mp h
      have hname : listed.1 = entry.1 := by simpa using List.find?_some hfind
      refine ⟨listed, List.mem_of_find?_eq_some hfind, ?_⟩
      rw [hname]
      exact Option.map_eq_some_iff.mpr ⟨entry.2, h, rfl⟩
  | _ =>
    constructor
    · intro h
      cases h
    · intro h
      cases h

theorem mem_entriesUnder {node : Json} {key : String} {entry : String × Json} :
    entry ∈ entriesUnder node key ↔ node.descend [.key key, .key entry.1] = some entry.2 := by
  unfold entriesUnder
  rw [mem_members, descend_entry]
  cases hchild : Fields.ofJson? node key with
  | none =>
    constructor
    · intro h
      cases h
    · rintro ⟨entries, hentries, -⟩
      cases hentries
  | some child =>
    constructor
    · intro h
      cases child with
      | object entries => exact ⟨entries, rfl, h⟩
      | _ => cases h
    · rintro ⟨entries, hentries, h⟩
      obtain rfl := Option.some.inj hentries
      exact h

theorem mem_elemsUnder {node v : Json} {key : String} {i : Nat} :
    (v, i) ∈ (elemsUnder node key).zipIdx ↔ node.descend [.key key, .index i] = some v := by
  rw [descend_elem, List.mem_zipIdx_iff_getElem?]
  unfold elemsUnder
  constructor
  · intro h
    cases harray : (Fields.ofJson? node key).bind asArray? with
    | none =>
      rw [harray] at h
      cases h
    | some elems =>
      rw [harray] at h
      obtain ⟨child, hchild, helems⟩ := Option.bind_eq_some_iff.mp harray
      obtain rfl := asArray?_eq_some.mp helems
      exact ⟨elems, hchild, h⟩
  · rintro ⟨elems, helems, hv⟩
    rw [helems]
    exact hv

theorem exists_descend_of_mem_elemsUnder {node v : Json} {key : String}
    (h : v ∈ elemsUnder node key) : ∃ i, node.descend [.key key, .index i] = some v := by
  obtain ⟨i, hi⟩ := List.mem_iff_getElem?.mp h
  exact ⟨i, mem_elemsUnder.mp (List.mem_zipIdx_iff_getElem?.mpr hi)⟩

theorem sizeOf_elemsUnder {node v : Json} {key : String} (h : v ∈ elemsUnder node key) :
    sizeOf v < sizeOf node := by
  obtain ⟨i, hi⟩ := exists_descend_of_mem_elemsUnder h
  exact sizeOf_descend_lt (List.cons_ne_nil _ _) hi

theorem sizeOf_entriesUnder {node : Json} {key : String} {entry : String × Json}
    (h : entry ∈ entriesUnder node key) : sizeOf entry.2 < sizeOf node :=
  sizeOf_descend_lt (List.cons_ne_nil _ _) (mem_entriesUnder.mp h)

theorem array_of_elemsUnder {node : Json} {key : String} (h : elemsUnder node key ≠ []) :
    Fields.ofJson? node key = some (.array (elemsUnder node key)) := by
  unfold elemsUnder at h ⊢
  cases hv : Fields.ofJson? node key with
  | none =>
    rw [hv] at h
    exact absurd rfl h
  | some v =>
    rw [hv] at h
    cases v with
    | array elems => rfl
    | _ => exact absurd rfl h

theorem isObject_iff {v : Json} : v.isObject = true ↔ ∃ obj, v = .object obj := by
  constructor
  · intro h
    cases v with
    | object obj => exact ⟨obj, rfl⟩
    | _ => cases h
  · rintro ⟨obj, rfl⟩
    rfl

theorem isObject_of_ofJson? {node v : Json} {key : String} (h : Fields.ofJson? node key = some v) :
    node.isObject = true := by
  cases node with
  | object fields => rfl
  | _ => cases h

/-- No object of a value lists a key twice: it is a `serde_json::Map`. -/
def DistinctKeys (v : Json) : Prop :=
  ∀ place map, v.descend place = some (.object map) → (map.map (·.1)).Nodup

theorem distinctKeys_object {map : List (String × Json)} (hkeys : (map.map (·.1)).Nodup)
    (h : ∀ key v, Fields.get? map key = some v → v.DistinctKeys) : (Json.object map).DistinctKeys := by
  intro place map' hmap
  cases place with
  | nil =>
    obtain rfl := Json.object.inj (Option.some.inj hmap)
    exact hkeys
  | cons s place =>
    rw [descend_cons] at hmap
    obtain ⟨child, hchild, hbelow⟩ := Option.bind_eq_some_iff.mp hmap
    cases s with
    | key name => exact h name child hchild place map' hbelow
    | index i => cases hchild

theorem DistinctKeys.select {v child : Json} {sel : Selector} (hv : v.DistinctKeys)
    (h : v.select sel = some child) : child.DistinctKeys := by
  intro place map hmap
  refine hv (sel :: place) map ?_
  rw [Json.descend_cons, h]
  exact hmap

end Json

/-- How the value of a keyword holds schemas. -/
inductive Holding where
  /-- The value is one. -/
  | one
  /-- The elements are. -/
  | list
  /-- The values under the author's names are. -/
  | named
  deriving DecidableEq, Repr

/-- Keywords, and how each holds schemas. -/
abbrev Positions := List (String × Holding)

/-- The subschema positions of draft 7 and of draft 2020-12. -/
def schemaPositions : Positions :=
  [("properties", .named), ("patternProperties", .named), ("items", .one), ("items", .list),
    ("prefixItems", .list), ("allOf", .list), ("anyOf", .list), ("oneOf", .list), ("not", .one),
    ("if", .one), ("then", .one), ("else", .one), ("$defs", .named), ("definitions", .named),
    ("dependentSchemas", .named)]

/-- With them, the schemas that are met only by what no other keyword speaks of, or that constrain no
part of their own. -/
def allPositions : Positions :=
  schemaPositions ++ [("additionalProperties", .one), ("additionalItems", .one), ("contains", .one),
    ("propertyNames", .one), ("unevaluatedItems", .one), ("unevaluatedProperties", .one)]

namespace Positions

/-- One step from a schema to a schema in it. -/
inductive Step (positions : Positions) : Place → Prop
  | one {keyword : String} (h : (keyword, .one) ∈ positions) : Step positions [.key keyword]
  | list {keyword : String} (h : (keyword, .list) ∈ positions) (i : Nat) :
      Step positions [.key keyword, .index i]
  | named {keyword : String} (h : (keyword, .named) ∈ positions) (name : String) :
      Step positions [.key keyword, .key name]

/-- A place where a schema stands, in the schema it is counted from. -/
inductive Reaches (positions : Positions) : Place → Prop
  | here : Reaches positions []
  | step {way rest : Place} (hstep : positions.Step way) (hrest : Reaches positions rest) :
      Reaches positions (way ++ rest)

variable {positions positions' : Positions} {way place : Place}

theorem Step.ne_nil (h : positions.Step way) : way ≠ [] := by
  cases h <;> exact List.cons_ne_nil _ _

theorem Step.mono (hsub : positions ⊆ positions') (h : positions.Step way) : positions'.Step way := by
  cases h with
  | one h => exact .one (hsub h)
  | list h i => exact .list (hsub h) i
  | named h name => exact .named (hsub h) name

theorem Reaches.mono (hsub : positions ⊆ positions') (h : positions.Reaches place) :
    positions'.Reaches place := by
  induction h with
  | here => exact .here
  | step hstep _ ih => exact .step (hstep.mono hsub) ih

end Positions

end Apcore
