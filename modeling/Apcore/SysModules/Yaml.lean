import Apcore.Schema.Keys

/-! # `SysModules.Yaml` — overrides as YAML values

An overrides file is written from JSON and read back through `yaml_to_json`. A document is what the
parser makes of a text; its mappings have each key once. -/

namespace Apcore

/-- `serde_yaml_ng::Value`. A number that is not finite is apart. -/
inductive Yaml where
  | null
  | bool (b : Bool)
  | number (n : Number)
  | nonFinite
  | string (s : String)
  | sequence (elems : List Yaml)
  | mapping (entries : List (Yaml × Yaml))
  | tagged (tag : String) (value : Yaml)
  deriving Repr, Inhabited

/-- A key that is a string. -/
def Yaml.asStr? : Yaml → Option String
  | .string s => some s
  | _ => none

/-- The entries put one by one into a map in ascending key order. -/
def Fields.ofList {α : Type} (entries : List (String × α)) : List (String × α) :=
  entries.foldl (fun fields entry => Fields.insert entry.1 entry.2 fields) []

mutual

/-- `yaml_to_json`. -/
def yamlToJson : Yaml → Option Json
  | .null => some .null
  | .bool b => some (.bool b)
  | .number n => some (.number n)
  | .nonFinite => none
  | .string s => some (.string s)
  | .sequence elems => (yamlToJsonAll elems).map .array
  | .mapping entries => (yamlToJsonEntries entries).map fun fields => .object (Fields.ofList fields)
  | .tagged _ value => yamlToJson value

def yamlToJsonAll : List Yaml → Option (List Json)
  | [] => some []
  | y :: rest => (yamlToJson y).bind fun v => (yamlToJsonAll rest).map (v :: ·)

def yamlToJsonEntries : List (Yaml × Yaml) → Option (List (String × Json))
  | [] => some []
  | (k, y) :: rest =>
    k.asStr?.bind fun key => (yamlToJson y).bind fun v =>
      (yamlToJsonEntries rest).map ((key, v) :: ·)

end

mutual

/-- What `serde_yaml_ng` writes for a JSON value. -/
def Json.toYaml : Json → Yaml
  | .null => .null
  | .bool b => .bool b
  | .number n => .number n
  | .string s => .string s
  | .array elems => .sequence (toYamlAll elems)
  | .object fields => .mapping (toYamlEntries fields)

def Json.toYamlAll : List Json → List Yaml
  | [] => []
  | v :: rest => v.toYaml :: toYamlAll rest

def Json.toYamlEntries : List (String × Json) → List (Yaml × Yaml)
  | [] => []
  | (key, v) :: rest => (.string key, v.toYaml) :: toYamlEntries rest

end

/-! ## Objects in order -/

mutual

/-- Every object in the value is in ascending key order, as those of `serde_json` are. -/
def Json.Ordered : Json → Prop
  | .array elems => OrderedAll elems
  | .object fields => fields.Pairwise (·.1 < ·.1) ∧ OrderedEntries fields
  | _ => True

def Json.OrderedAll : List Json → Prop
  | [] => True
  | v :: rest => v.Ordered ∧ OrderedAll rest

def Json.OrderedEntries : List (String × Json) → Prop
  | [] => True
  | (_, v) :: rest => v.Ordered ∧ OrderedEntries rest

end

section Fields

variable {α : Type} {fields : List (String × α)}

theorem ofList_of_pairwise (h : fields.Pairwise (·.1 < ·.1)) : Fields.ofList fields = fields :=
  Fields.foldl_insert_of_pairwise h

end Fields

/-! ## Round trips -/

mutual

/-- A value that is written is read back. -/
theorem yamlToJson_toYaml : ∀ v : Json, v.Ordered → yamlToJson v.toYaml = some v
  | .null | .bool _ | .number _ | .string _ => by
    intro _
    simp only [Json.toYaml, yamlToJson]
  | .array elems => by
    intro h
    rw [Json.Ordered] at h
    rw [Json.toYaml, yamlToJson, yamlToJsonAll_toYamlAll elems h]
    rfl
  | .object fields => by
    intro h
    rw [Json.Ordered] at h
    rw [Json.toYaml, yamlToJson, yamlToJsonEntries_toYamlEntries fields h.2, Option.map_some,
      ofList_of_pairwise h.1]

theorem yamlToJsonAll_toYamlAll : ∀ elems : List Json, Json.OrderedAll elems →
    yamlToJsonAll (Json.toYamlAll elems) = some elems
  | [] => by
    intro _
    rw [Json.toYamlAll, yamlToJsonAll]
  | v :: rest => by
    intro h
    rw [Json.OrderedAll] at h
    rw [Json.toYamlAll, yamlToJsonAll, yamlToJson_toYaml v h.1, Option.bind_some,
      yamlToJsonAll_toYamlAll rest h.2]
    rfl

theorem yamlToJsonEntries_toYamlEntries : ∀ fields : List (String × Json),
    Json.OrderedEntries fields → yamlToJsonEntries (Json.toYamlEntries fields) = some fields
  | [] => by
    intro _
    rw [Json.toYamlEntries, yamlToJsonEntries]
  | (key, v) :: rest => by
    intro h
    rw [Json.OrderedEntries] at h
    rw [Json.toYamlEntries, yamlToJsonEntries, Yaml.asStr?, Option.bind_some,
      yamlToJson_toYaml v h.1, Option.bind_some, yamlToJsonEntries_toYamlEntries rest h.2]
    rfl

end

theorem orderedEntries_iff {fields : List (String × Json)} :
    Json.OrderedEntries fields ↔ ∀ entry ∈ fields, entry.2.Ordered := by
  induction fields with
  | nil => simp [Json.OrderedEntries]
  | cons entry rest ih =>
    obtain ⟨key, v⟩ := entry
    rw [Json.OrderedEntries, List.forall_mem_cons, ih]

/-- Entries put into an ordered map keep it ordered. -/
theorem ordered_foldl_insert {entries acc : List (String × Json)}
    (hacc : acc.Pairwise (·.1 < ·.1) ∧ ∀ entry ∈ acc, entry.2.Ordered)
    (h : ∀ entry ∈ entries, entry.2.Ordered) :
    let fields := entries.foldl (fun fields entry => Fields.insert entry.1 entry.2 fields) acc
    fields.Pairwise (·.1 < ·.1) ∧ ∀ entry ∈ fields, entry.2.Ordered := by
  induction entries generalizing acc with
  | nil => exact hacc
  | cons entry rest ih =>
    obtain ⟨hentry, hrest⟩ := List.forall_mem_cons.mp h
    refine ih ⟨Fields.pairwise_insert hacc.1, fun other hother => ?_⟩ hrest
    rcases Fields.mem_insert hother with rfl | hother
    · exact hentry
    · exact hacc.2 other hother

mutual

/-- What is read is ordered. -/
theorem ordered_of_yamlToJson : ∀ (y : Yaml) (v : Json), yamlToJson y = some v → v.Ordered
  | .null, v, h | .bool _, v, h | .number _, v, h | .string _, v, h => by
    rw [yamlToJson] at h
    obtain rfl := Option.some.inj h
    rw [Json.Ordered]
    all_goals simp
  | .nonFinite, v, h => by
    rw [yamlToJson] at h
    cases h
  | .sequence elems, v, h => by
    rw [yamlToJson] at h
    obtain ⟨vs, hvs, rfl⟩ := Option.map_eq_some_iff.mp h
    rw [Json.Ordered]
    exact orderedAll_of_yamlToJsonAll elems vs hvs
  | .mapping entries, v, h => by
    rw [yamlToJson] at h
    obtain ⟨fields, hfields, rfl⟩ := Option.map_eq_some_iff.mp h
    have hordered := ordered_of_yamlToJsonEntries entries fields hfields
    obtain ⟨hkeys, hvalues⟩ := ordered_foldl_insert
      ⟨List.Pairwise.nil, fun entry hentry => by cases hentry⟩ hordered
    rw [Json.Ordered]
    exact ⟨hkeys, orderedEntries_iff.mpr hvalues⟩
  | .tagged _ value, v, h => by
    rw [yamlToJson] at h
    exact ordered_of_yamlToJson value v h

theorem orderedAll_of_yamlToJsonAll : ∀ (elems : List Yaml) (vs : List Json),
    yamlToJsonAll elems = some vs → Json.OrderedAll vs
  | [], vs, h => by
    rw [yamlToJsonAll] at h
    obtain rfl := Option.some.inj h
    rw [Json.OrderedAll]
    trivial
  | y :: rest, vs, h => by
    rw [yamlToJsonAll] at h
    obtain ⟨v, hv, h⟩ := Option.bind_eq_some_iff.mp h
    obtain ⟨tail, htail, rfl⟩ := Option.map_eq_some_iff.mp h
    rw [Json.OrderedAll]
    exact ⟨ordered_of_yamlToJson y v hv, orderedAll_of_yamlToJsonAll rest tail htail⟩

theorem ordered_of_yamlToJsonEntries : ∀ (entries : List (Yaml × Yaml))
    (fields : List (String × Json)), yamlToJsonEntries entries = some fields →
      ∀ entry ∈ fields, entry.2.Ordered
  | [], fields, h => by
    rw [yamlToJsonEntries] at h
    obtain rfl := Option.some.inj h
    simp
  | (k, y) :: rest, fields, h => by
    rw [yamlToJsonEntries] at h
    obtain ⟨key, _, h⟩ := Option.bind_eq_some_iff.mp h
    obtain ⟨v, hv, h⟩ := Option.bind_eq_some_iff.mp h
    obtain ⟨tail, htail, rfl⟩ := Option.map_eq_some_iff.mp h
    refine List.forall_mem_cons.mpr ⟨ordered_of_yamlToJson y v hv, ?_⟩
    exact ordered_of_yamlToJsonEntries rest tail htail

end

end Apcore
