import Apcore.Executor.SchemaRedaction
import Apcore.Lib.Fuel

/-! # `Executor.SchemaIndex` — what the index of a document knows

The schemas of a document, listed in the order `index_schema` comes to them, say what every
identifier and every anchor names: the last schema that claims it. A part of the document that is no
listed schema belongs to the closest schema around it. -/

namespace Apcore

namespace SchemaRedaction

open Fuel (Enough)

variable (referencing : Referencing)

/-! ## The schemas of a document -/

/-- A schema and the schemas in it. -/
def subschemas (schema : Json) (place : Place) (parentBase : String) (parentDraft : Draft) :
    List SchemaEntry :=
  let entry := entryOf referencing schema place parentBase parentDraft
  entry :: (referencing.subresources entry.draft schema).attach.flatMap fun child =>
    match _hsub : schema.descend child.1 with
    | some sub => subschemas sub (place ++ child.1) entry.resource entry.draft
    | none => []
termination_by sizeOf schema
decreasing_by
  exact Json.sizeOf_descend_lt (referencing.subresources_proper _ _ _ child.2).1 _hsub

/-- The schemas of a whole document. -/
def documentSchemas (root : Json) : List SchemaEntry :=
  subschemas referencing root [] localRootUri .draft202012

/-- The schemas in a part of a schema. -/
def subschemasAt (schema : Json) (place : Place) (entry : SchemaEntry) (child : Place) :
    List SchemaEntry :=
  match schema.descend child with
  | some sub => subschemas referencing sub (place ++ child) entry.resource entry.draft
  | none => []

theorem subschemas_eq (schema : Json) (place : Place) (parentBase : String) (parentDraft : Draft) :
    subschemas referencing schema place parentBase parentDraft =
      let entry := entryOf referencing schema place parentBase parentDraft
      entry :: (referencing.subresources entry.draft schema).flatMap
        (subschemasAt referencing schema place entry) := by
  rw [subschemas]
  dsimp only
  refine congrArg _ ?_
  set entry := entryOf referencing schema place parentBase parentDraft
  have hblocks : ∀ child ∈ (referencing.subresources entry.draft schema).attach,
      (match hsub : schema.descend child.1 with
        | some sub => subschemas referencing sub (place ++ child.1) entry.resource entry.draft
        | none => []) = subschemasAt referencing schema place entry child.1 := by
    intro child _
    unfold subschemasAt
    cases schema.descend child.1 <;> rfl
  rw [List.flatMap_congr hblocks]
  conv_rhs => rw [← List.attach_map_subtype_val (referencing.subresources entry.draft schema)]
  rw [List.flatMap_map]

variable {referencing}

/-- `index_schema` enters the schemas of a document one after the other. -/
theorem indexSchema_eq (schema : Json) (place : Place) (parentBase : String) (parentDraft : Draft) :
    Enough fun fuel => ∀ index,
      indexSchema referencing fuel schema place parentBase parentDraft index =
        some ((subschemas referencing schema place parentBase parentDraft).foldl
          LocalSchemas.add index) := by
  induction hsize : sizeOf schema using Nat.strong_induction_on
    generalizing schema place parentBase parentDraft with
  | _ size ih =>
    set entry := entryOf referencing schema place parentBase parentDraft with hentry
    -- one call for each subresource, and every one of them in time
    have hchildren : Enough fun fuel => ∀ child ∈ referencing.subresources entry.draft schema,
        ∀ index, indexPart (fun sub place =>
          indexSchema referencing fuel sub place entry.resource entry.draft) schema place index child =
          some ((subschemasAt referencing schema place entry child).foldl LocalSchemas.add index) := by
      refine Enough.forall_mem fun child hchild => ?_
      unfold subschemasAt indexPart
      cases hsub : schema.descend child with
      | none => exact .of_forall fun _ _ => rfl
      | some sub =>
        have hproper := (referencing.subresources_proper _ _ _ hchild).1
        have hlt : sizeOf sub < size := hsize ▸ Json.sizeOf_descend_lt hproper hsub
        exact ih _ hlt sub (place ++ child) entry.resource entry.draft rfl
    refine hchildren.succ fun fuel hfuel index => ?_
    rw [subschemas_eq, List.foldl_cons]
    unfold indexSchema
    dsimp only
    rw [← hentry]
    generalize index.add entry = index
    generalize referencing.subresources entry.draft schema = children at hfuel ⊢
    induction children generalizing index with
    | nil => rfl
    | cons child rest ihRest =>
      rw [List.foldlM_cons, hfuel child List.mem_cons_self index, List.flatMap_cons,
        List.foldl_append]
      exact ihRest _ fun other hother => hfuel other (List.mem_cons_of_mem _ hother)

/-! ## Names -/

variable (entries : List SchemaEntry)

/-- The entry of a place. -/
def entryAt (place : Place) : Option SchemaEntry := entries.reverse.find? (·.place = place)

/-- The place of the resource of a name; the document itself has the local one. -/
def resourceNamed (name : String) : Option Place :=
  ((entries.reverse.find? (·.ownResource = some name)).map (·.place)).or
    (if name = localRootUri then some [] else none)

/-- The place of the anchor of a name. -/
def anchorNamed (name : String) : Option Place :=
  (entries.reverse.find? (name ∈ ·.ownAnchors)).map (·.place)

/-- The index of the schemas listed. -/
def indexOf : LocalSchemas :=
  entries.foldl LocalSchemas.add
    { bases := fun _ => none
      drafts := fun _ => none
      resources := Function.update (fun _ => none) localRootUri (some [])
      anchors := fun _ => none }

variable {entries}

theorem indexOf_append_singleton (entry : SchemaEntry) :
    indexOf (entries ++ [entry]) = (indexOf entries).add entry := by
  unfold indexOf
  rw [List.foldl_append]
  rfl

theorem find?_reverse_append_singleton (p : SchemaEntry → Bool) (entry : SchemaEntry) :
    (entries ++ [entry]).reverse.find? p = if p entry then some entry else entries.reverse.find? p := by
  rw [List.reverse_append, List.reverse_singleton, List.singleton_append, List.find?_cons]
  cases p entry <;> rfl

theorem bases_indexOf (place : Place) :
    (indexOf entries).bases place = (entryAt entries place).map (·.resource) := by
  induction entries using List.reverseRecOn with
  | nil => rfl
  | append_singleton entries entry ih =>
    rw [indexOf_append_singleton]
    unfold entryAt at ih ⊢
    rw [find?_reverse_append_singleton]
    by_cases hplace : entry.place = place
    · subst hplace
      simp [LocalSchemas.add]
    · simp [LocalSchemas.add, hplace, Function.update_of_ne (Ne.symm hplace), ih]

theorem drafts_indexOf (place : Place) :
    (indexOf entries).drafts place = (entryAt entries place).map (·.draft) := by
  induction entries using List.reverseRecOn with
  | nil => rfl
  | append_singleton entries entry ih =>
    rw [indexOf_append_singleton]
    unfold entryAt at ih ⊢
    rw [find?_reverse_append_singleton]
    by_cases hplace : entry.place = place
    · subst hplace
      simp [LocalSchemas.add]
    · simp [LocalSchemas.add, hplace, Function.update_of_ne (Ne.symm hplace), ih]

theorem resources_indexOf (name : String) :
    (indexOf entries).resources name = resourceNamed entries name := by
  induction entries using List.reverseRecOn with
  | nil =>
    show Function.update (fun _ => none) localRootUri (some []) name = _
    unfold resourceNamed
    rw [Function.update_apply]
    rfl
  | append_singleton entries entry ih =>
    rw [indexOf_append_singleton]
    unfold resourceNamed at ih ⊢
    rw [find?_reverse_append_singleton]
    unfold LocalSchemas.add
    cases hown : entry.ownResource with
    | none => simpa using ih
    | some resource =>
      by_cases hname : resource = name
      · subst hname
        simp
      · simpa [hname, Function.update_of_ne (Ne.symm hname)] using ih

/-- What a name among several is entered as. -/
theorem foldl_update_apply (anchors : String → Option Place) (names : List String) (place : Place)
    (name : String) :
    names.foldl (fun anchors anchor => Function.update anchors anchor (some place)) anchors name =
      if name ∈ names then some place else anchors name := by
  induction names generalizing anchors with
  | nil => simp
  | cons head rest ih =>
    rw [List.foldl_cons, ih, Function.update_apply]
    by_cases hrest : name ∈ rest
    · simp [hrest]
    · simp [hrest]

theorem anchors_indexOf (name : String) :
    (indexOf entries).anchors name = anchorNamed entries name := by
  induction entries using List.reverseRecOn with
  | nil => rfl
  | append_singleton entries entry ih =>
    rw [indexOf_append_singleton]
    unfold anchorNamed at ih ⊢
    rw [find?_reverse_append_singleton]
    show entry.ownAnchors.foldl (fun anchors anchor =>
      Function.update anchors anchor (some entry.place)) (indexOf entries).anchors name = _
    rw [foldl_update_apply, ih]
    by_cases hname : name ∈ entry.ownAnchors
    · simp [hname]
    · simp [hname]

/-- `LocalSchemas::new` is the index of the schemas of the document. -/
theorem new_eq (root : Json) :
    Enough fun fuel => LocalSchemas.new referencing fuel root =
      some (indexOf (documentSchemas referencing root)) :=
  (indexSchema_eq root [] localRootUri .draft202012).mono fun _ h => h _

/-! ## How a document reads -/

/-- The closest schema around a place. -/
def home (entries : List SchemaEntry) (place : Place) : Option SchemaEntry :=
  place.inits.reverse.findSome? (entryAt entries)

variable (referencing) (root : Json)

/-- How references and item keywords read, when a schema has the base and the draft of its owner. -/
def readingBy (owner : Place → Option SchemaEntry) : Reading where
  resolve := fun place reference => (owner place).bind fun entry =>
    resolveFrom referencing root (resourceNamed (documentSchemas referencing root))
      (anchorNamed (documentSchemas referencing root)) entry.resource reference
  modern := fun place => (owner place).map (·.draft) = some .draft202012

/-- How a document reads: a part that is no listed schema belongs to the closest one around it. -/
def documentReading : Reading :=
  readingBy referencing root (home (documentSchemas referencing root))

/-- How it reads if only the schemas listed have a base and a draft. -/
def listedReading : Reading :=
  readingBy referencing root (entryAt (documentSchemas referencing root))

variable {referencing root}

/-- The index is the latter. -/
theorem reading_indexOf :
    (indexOf (documentSchemas referencing root)).reading referencing root =
      listedReading referencing root := by
  have hresources : (indexOf (documentSchemas referencing root)).resources = _ :=
    funext resources_indexOf
  have hanchors : (indexOf (documentSchemas referencing root)).anchors = _ :=
    funext anchors_indexOf
  unfold LocalSchemas.reading listedReading readingBy LocalSchemas.resolve
  rw [hresources, hanchors]
  congr 1
  · funext place reference
    rw [bases_indexOf, Option.bind_map]
    rfl
  · funext place
    rw [drafts_indexOf]

end SchemaRedaction

end Apcore
