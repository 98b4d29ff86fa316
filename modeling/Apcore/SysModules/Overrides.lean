import Apcore.SysModules.Yaml
import Apcore.Lib.Transition
import Mathlib.Data.List.Forall2

/-! # `SysModules.Overrides` — stored overrides

An overrides store is a map in memory or a YAML file. `persist_one` loads the map, edits it and
saves it; `write_override` does the same on a file, under the lock of its path. -/

namespace Apcore.Overrides

/-- A map of overrides, in ascending key order. -/
abbrev Entries := List (String × Json)

/-- A map as it is built by insertions, of values as `serde_json` has them. -/
structure WellFormed (entries : Entries) : Prop where
  keys : entries.Pairwise (·.1 < ·.1)
  values : ∀ entry ∈ entries, entry.2.Ordered

/-- The overrides file: what the parser makes of its text, where that is YAML. An empty text is the
null document. -/
inductive FileState where
  | absent
  | text (doc : Option Yaml)

/-- The entries of a mapping under string keys; the others are skipped. -/
def stringEntries (entries : List (Yaml × Yaml)) : List (String × Yaml) :=
  entries.filterMap fun entry => entry.1.asStr?.map fun key => (key, entry.2)

/-- One entry of the file as JSON. -/
def entryToJson (entry : String × Yaml) : Option (String × Json) :=
  (yamlToJson entry.2).map fun v => (entry.1, v)

/-- `read_yaml_overrides_sync`, on a text that could be read. -/
def readYamlOverridesSync : Option Yaml → Option Entries
  | some (.mapping entries) => ((stringEntries entries).mapM entryToJson).map Fields.ofList
  | some .null => some []
  | _ => none

/-- What `write_override` makes of the text before it edits: an entry that is no JSON is left out,
and a document that is no mapping counts as empty. -/
def readExisting : FileState → Entries
  | .text (some (.mapping entries)) => Fields.ofList ((stringEntries entries).filterMap entryToJson)
  | _ => []

/-- What is stored, in memory or on disk. -/
inductive Backing where
  | memory (entries : Entries)
  | file (state : FileState)

namespace Backing

/-- `OverridesStore::load`, where no read fails. -/
def load : Backing → Option Entries
  | memory entries => some entries
  | file .absent => some []
  | file (.text doc) => readYamlOverridesSync doc

/-- The edit of `write_override` starts from this. -/
def existing : Backing → Entries
  | memory entries => entries
  | file state => readExisting state

/-- `OverridesStore::save`, and the end of `write_override`. -/
def save (entries : Entries) : Backing → Backing
  | memory _ => memory entries
  | file _ => file (.text (some (.mapping (Json.toYamlEntries (Fields.ofList entries)))))

/-- The entry stored under a key, with its value where that is JSON. -/
def stored : Backing → String → Option (Option Json)
  | memory entries, key => (Fields.get? entries key).map some
  | file (.text (some (.mapping entries))), key =>
    (Fields.get? (Fields.ofList (stringEntries entries)) key).map yamlToJson
  | file _, _ => none

/-- What is in memory is a map. -/
def WellFormed : Backing → Prop
  | memory entries => Overrides.WellFormed entries
  | file _ => True

end Backing

/-! ## Reading what is stored -/

section Lookup

variable {α β : Type} {f : α → Option β}

/-- An insertion of read values, key by key. -/
theorem get?_foldl_insert_congr {entries : List (String × α)} {results : List (String × β)}
    (h : List.Forall₂ (fun entry result => entry.1 = result.1 ∧ f entry.2 = some result.2)
      entries results) {acc : List (String × α)} {acc' : List (String × β)}
    (hacc : ∀ key, (Fields.get? acc key).map f = (Fields.get? acc' key).map some) (key : String) :
    (Fields.get? (entries.foldl (fun fields entry => Fields.insert entry.1 entry.2 fields) acc)
      key).map f =
      (Fields.get? (results.foldl (fun fields entry => Fields.insert entry.1 entry.2 fields) acc')
        key).map some := by
  induction h generalizing acc acc' with
  | nil => exact hacc key
  | @cons entry result entries results hentry _ ih =>
    refine ih fun other => ?_
    dsimp only
    rw [hentry.1]
    by_cases hother : other = result.1
    · subst hother
      rw [Fields.get?_insert_self, Fields.get?_insert_self, Option.map_some, Option.map_some,
        hentry.2]
    · rw [Fields.get?_insert_ne hother, Fields.get?_insert_ne hother]
      exact hacc other

/-- A key that is inserted is there. -/
theorem get?_foldl_insert_isSome {entries acc : List (String × α)} {key : String}
    (h : (Fields.get? acc key).isSome ∨ ∃ entry ∈ entries, entry.1 = key) :
    (Fields.get? (entries.foldl (fun fields entry => Fields.insert entry.1 entry.2 fields) acc)
      key).isSome := by
  induction entries generalizing acc with
  | nil =>
    rcases h with h | ⟨entry, hentry, _⟩
    · exact h
    · cases hentry
  | cons first rest ih =>
    refine ih ?_
    by_cases hfirst : key = first.1
    · subst hfirst
      exact .inl (by simp)
    · rw [Fields.get?_insert_ne hfirst]
      refine h.imp_right ?_
      rintro ⟨entry, hentry, rfl⟩
      rcases List.mem_cons.mp hentry with rfl | hentry
      · exact absurd rfl hfirst
      · exact ⟨entry, hentry, rfl⟩

end Lookup

theorem forall₂_of_mapM {entries : List (String × Yaml)} {results : Entries}
    (h : entries.mapM entryToJson = some results) :
    List.Forall₂ (fun entry result => entry.1 = result.1 ∧ yamlToJson entry.2 = some result.2)
      entries results := by
  induction entries generalizing results with
  | nil =>
    obtain rfl := Option.some.inj h
    exact .nil
  | cons entry rest ih =>
    rw [List.mapM_cons] at h
    obtain ⟨result, hresult, h⟩ := Option.bind_eq_some_iff.mp h
    obtain ⟨tail, htail, h⟩ := Option.bind_eq_some_iff.mp h
    obtain rfl := Option.some.inj h
    obtain ⟨v, hv, rfl⟩ := Option.map_eq_some_iff.mp hresult
    exact .cons ⟨rfl, hv⟩ (ih htail)

theorem filterMap_of_mapM {entries : List (String × Yaml)} {results : Entries}
    (h : entries.mapM entryToJson = some results) : entries.filterMap entryToJson = results := by
  induction entries generalizing results with
  | nil => exact Option.some.inj h
  | cons entry rest ih =>
    rw [List.mapM_cons] at h
    obtain ⟨result, hresult, h⟩ := Option.bind_eq_some_iff.mp h
    obtain ⟨tail, htail, h⟩ := Option.bind_eq_some_iff.mp h
    obtain rfl := Option.some.inj h
    rw [List.filterMap_cons_some hresult, ih htail]

namespace Backing

variable {backing : Backing} {entries : Entries}

/-- A load that succeeds has every entry. -/
theorem stored_of_load (h : backing.load = some entries) (key : String) :
    backing.stored key = (Fields.get? entries key).map some := by
  cases backing with
  | memory m =>
    obtain rfl := Option.some.inj h
    rfl
  | file state =>
    cases state with
    | absent =>
      obtain rfl := Option.some.inj h
      rfl
    | text doc =>
      rw [load] at h
      unfold readYamlOverridesSync at h
      split at h
      · next raw =>
        obtain ⟨results, hresults, rfl⟩ := Option.map_eq_some_iff.mp h
        exact get?_foldl_insert_congr (forall₂_of_mapM hresults) (fun _ => rfl) key
      · obtain rfl := Option.some.inj h
        rfl
      · cases h

/-- Where a load succeeds, `write_override` reads the same. -/
theorem existing_of_load (h : backing.load = some entries) : backing.existing = entries := by
  cases backing with
  | memory m => exact Option.some.inj h
  | file state =>
    cases state with
    | absent => exact Option.some.inj h
    | text doc =>
      rw [load] at h
      unfold readYamlOverridesSync at h
      split at h
      · obtain ⟨results, hresults, rfl⟩ := Option.map_eq_some_iff.mp h
        rw [existing, readExisting, filterMap_of_mapM hresults]
      · exact Option.some.inj h
      · cases h

/-- Where nothing is stored, `write_override` reads nothing. -/
theorem get?_existing_of_stored (h : ∀ key, backing.stored key = none) (key : String) :
    Fields.get? backing.existing key = none := by
  have hkey := h key
  cases backing with
  | memory m => simpa [stored, existing] using hkey
  | file state =>
    show Fields.get? (readExisting state) key = none
    unfold readExisting
    split
    · next raw =>
      -- a mapping with nothing under a string key
      have hnil : stringEntries raw = [] := by
        rw [List.eq_nil_iff_forall_not_mem]
        intro entry hentry
        have hsome : (Fields.get? (Fields.ofList (stringEntries raw)) entry.1).isSome :=
          get?_foldl_insert_isSome (.inr ⟨entry, hentry, rfl⟩)
        have hnone := h entry.1
        rw [stored, Option.map_eq_none_iff] at hnone
        rw [hnone] at hsome
        cases hsome
      rw [hnil]
      rfl
    · rfl

end Backing

theorem WellFormed.ofList {entries : Entries} (h : ∀ entry ∈ entries, entry.2.Ordered) :
    WellFormed (Fields.ofList entries) := by
  obtain ⟨hkeys, hvalues⟩ := ordered_foldl_insert
    ⟨List.Pairwise.nil, fun entry hentry => by cases hentry⟩ h
  exact ⟨hkeys, hvalues⟩

theorem WellFormed.insert {entries : Entries} (h : WellFormed entries) {key : String} {v : Json}
    (hv : v.Ordered) : WellFormed (Fields.insert key v entries) := by
  refine ⟨Fields.pairwise_insert h.keys, fun entry hentry => ?_⟩
  rcases Fields.mem_insert hentry with rfl | hentry
  · exact hv
  · exact h.values entry hentry

theorem ordered_of_entryToJson {entry : String × Yaml} {result : String × Json}
    (h : entryToJson entry = some result) : result.2.Ordered := by
  obtain ⟨v, hv, rfl⟩ := Option.map_eq_some_iff.mp h
  exact ordered_of_yamlToJson _ v hv

namespace Backing

variable {backing : Backing} {entries : Entries}

theorem wellFormed_existing (h : backing.WellFormed) : Overrides.WellFormed backing.existing := by
  cases backing with
  | memory m => exact h
  | file state =>
    show Overrides.WellFormed (readExisting state)
    unfold readExisting
    split
    · refine .ofList fun entry hentry => ?_
      obtain ⟨raw, _, hraw⟩ := List.mem_filterMap.mp hentry
      exact ordered_of_entryToJson hraw
    · exact ⟨List.Pairwise.nil, fun entry hentry => by cases hentry⟩

theorem stringEntries_toYamlEntries : ∀ entries : Entries,
    stringEntries (Json.toYamlEntries entries) = entries.map fun entry => (entry.1, entry.2.toYaml)
  | [] => by
    rw [Json.toYamlEntries]
    rfl
  | (key, v) :: rest => by
    rw [Json.toYamlEntries, List.map_cons, ← stringEntries_toYamlEntries rest]
    rfl

/-- **A save is read back**: what is saved is what is stored. -/
theorem stored_save (h : Overrides.WellFormed entries) (key : String) :
    (backing.save entries).stored key = (Fields.get? entries key).map some := by
  cases backing with
  | memory m => rfl
  | file state =>
    have hentries : List.Forall₂
        (fun entry result => entry.1 = result.1 ∧ yamlToJson entry.2 = some result.2)
        (entries.map fun entry => (entry.1, entry.2.toYaml)) entries := by
      refine List.forall₂_map_left_iff.mpr (List.forall₂_same.mpr fun entry hentry => ⟨rfl, ?_⟩)
      exact yamlToJson_toYaml entry.2 (h.values entry hentry)
    have hnone : ∀ other, (Fields.get? ([] : List (String × Yaml)) other).map yamlToJson =
        (Fields.get? ([] : Entries) other).map some := fun _ => rfl
    have hread := get?_foldl_insert_congr hentries hnone key
    rw [save, stored, ofList_of_pairwise h.keys, stringEntries_toYamlEntries]
    refine hread.trans ?_
    show (Fields.get? (Fields.ofList entries) key).map some = _
    rw [ofList_of_pairwise h.keys]

theorem wellFormed_save (h : Overrides.WellFormed entries) : (backing.save entries).WellFormed := by
  cases backing with
  | memory m => exact h
  | file state => trivial

end Backing

end Apcore.Overrides
