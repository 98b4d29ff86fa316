import Apcore.Executor.SchemaRedaction
import Apcore.Lib.Fuel
import Apcore.Lib.Worklist
import Apcore.Schema.Masking

/-! # `Executor.RedactionWalk` — redaction is a mask

The worklist of one value visits the schemas that govern it, and its parts are redacted with the
schemas that those name for them. So `redact` puts the sentinel in the place of every part that a
sensitive schema governs, however the references of the document are read. -/

namespace Apcore

namespace SchemaRedaction

open Fuel (Enough)
open Worklist (Reaches work work_pass work_visit)

variable (root : Json) (reading : Reading)

/-! ## What governs a part of a value -/

/-- The schemas that govern the part of a value at a place, for a value the schema `start` governs. -/
inductive Governs (start : Place) : Place → Place → Prop
  | start : Governs start [] start
  | branch {path schema other} (h : Governs start path schema)
      (hmem : other ∈ branches root reading schema) : Governs start path other
  | part {path schema s other} (h : Governs start path schema)
      (hpart : partSchema root reading schema s = some other) : Governs start (path ++ [s]) other

/-- The parts that a sensitive schema governs. -/
def Governed (start : Place) : Marked := fun path =>
  ∃ schema, Governs root reading start path schema ∧ isSensitive root schema = true

/-- The parts that a sensitive schema governs by way of the parts of one schema. -/
def GovernedBelow (schema : Place) : Marked := fun path =>
  ∃ s rest other, path = s :: rest ∧ partSchema root reading schema s = some other ∧
    Governed root reading other rest

variable {root reading}

theorem Governs.of_reaches {start schema other path : Place}
    (h : Governs root reading start path schema)
    (hreach : Reaches (branches root reading) schema other) :
    Governs root reading start path other := by
  induction hreach with
  | refl => exact h
  | tail _ hmem ih => exact .branch ih hmem

theorem Governs.trans {start schema other path rest : Place}
    (h : Governs root reading start path schema) (h' : Governs root reading schema rest other) :
    Governs root reading start (path ++ rest) other := by
  induction h' with
  | start =>
    rw [List.append_nil]
    exact h
  | branch _ hmem ih => exact .branch ih hmem
  | part _ hpart ih =>
    rw [← List.append_assoc]
    exact .part ih hpart

/-- The value itself is governed by what its schema reaches. -/
theorem governs_nil_iff {start schema : Place} :
    Governs root reading start [] schema ↔ Reaches (branches root reading) start schema := by
  constructor
  · intro h
    generalize hpath : ([] : Place) = path at h
    induction h with
    | start => exact .refl
    | branch _ hmem ih => exact (ih hpath).tail hmem
    | part => exact absurd hpath.symm (by simp)
  · exact fun h => Governs.start.of_reaches h

/-- A part of it is governed by way of the schemas that govern the value. -/
theorem governs_cons_iff {start schema path : Place} {s : Selector} :
    Governs root reading start (s :: path) schema ↔
      ∃ whole other, Reaches (branches root reading) start whole ∧
        partSchema root reading whole s = some other ∧ Governs root reading other path schema := by
  constructor
  · intro h
    generalize hfull : s :: path = full at h
    induction h generalizing path with
    | start => cases hfull
    | branch _ hmem ih =>
      obtain ⟨whole, other, hreach, hpart, hrest⟩ := ih hfull
      exact ⟨whole, other, hreach, hpart, .branch hrest hmem⟩
    | @part before schema last other hbefore hlast ih =>
      cases before with
      | nil =>
        rw [List.nil_append, List.cons.injEq] at hfull
        obtain ⟨rfl, rfl⟩ := hfull
        exact ⟨schema, other, governs_nil_iff.mp hbefore, hlast, .start⟩
      | cons first before =>
        rw [List.cons_append, List.cons.injEq] at hfull
        obtain ⟨rfl, rfl⟩ := hfull
        obtain ⟨whole, child, hreach, hpart, hrest⟩ := ih rfl
        exact ⟨whole, child, hreach, hpart, .part hrest hlast⟩
  · rintro ⟨whole, other, hreach, hpart, hrest⟩
    have hother : Governs root reading start ([] ++ [s]) other :=
      .part (governs_nil_iff.mpr hreach) hpart
    exact hother.trans hrest

/-- What a reference names is the next schema. -/
theorem mem_branches_of_ref {place target : Place} {reference : String}
    (href : stringAt (schemaAt root place) "$ref" = some reference)
    (htarget : reading.resolve place reference = some target) :
    target ∈ branches root reading place := by
  unfold branches
  rw [href]
  refine List.mem_append_left _ ?_
  show target ∈ (reading.resolve place reference).toList
  rw [htarget]
  exact List.mem_cons_self

/-! ## Places of schemas -/

/-- References lead to parts of the document. -/
def Reading.Valid (root : Json) (reading : Reading) : Prop :=
  ∀ place reference target, reading.resolve place reference = some target →
    (root.descend target).isSome

theorem descend_of_at {place : Place} {key : String} {value : Json}
    (h : Fields.ofJson? (schemaAt root place) key = some value) :
    root.descend (place ++ [.key key]) = some value := by
  rw [Json.descend_append]
  unfold schemaAt at h
  cases hat : root.descend place with
  | none =>
    rw [hat] at h
    cases h
  | some schema =>
    rw [hat] at h
    show ((schema.select (.key key)).bind fun child => child.descend []) = some value
    have hselect : schema.select (.key key) = some value := h
    rw [hselect]
    rfl

theorem descend_of_arrayAt {place : Place} {key : String} {elems : List Json} {i : Nat}
    (h : arrayAt (schemaAt root place) key = some elems) (hi : i < elems.length) :
    (root.descend (place ++ [.key key, .index i])).isSome := by
  obtain ⟨value, hvalue, harray⟩ := Option.bind_eq_some_iff.mp h
  obtain rfl := Json.asArray?_eq_some.mp harray
  have hplace : place ++ [.key key, .index i] = (place ++ [.key key]) ++ [Selector.index i] := by simp
  rw [hplace, Json.descend_append, descend_of_at hvalue]
  show ((elems[i]?).bind fun child => child.descend []).isSome
  rw [List.getElem?_eq_getElem hi]
  rfl

theorem isSome_of_mem_branches (hvalid : reading.Valid root) {place other : Place}
    (h : other ∈ branches root reading place) : (root.descend other).isSome := by
  unfold branches at h
  rcases List.mem_append.mp h with h | h
  · obtain ⟨reference, -, hresolve⟩ := Option.bind_eq_some_iff.mp (Option.mem_toList.mp h)
    exact hvalid place reference other hresolve
  · obtain ⟨keyword, -, h⟩ := List.mem_flatMap.mp h
    obtain ⟨i, hi, rfl⟩ := List.mem_map.mp h
    rw [List.mem_range] at hi
    cases helems : arrayAt (schemaAt root place) keyword with
    | none =>
      rw [helems] at hi
      exact absurd hi (Nat.not_lt_zero i)
    | some elems =>
      rw [helems] at hi
      exact descend_of_arrayAt helems hi

theorem isSome_of_itemSchema {place other : Place} {i : Nat}
    (h : itemSchema root reading place i = some other) : (root.descend other).isSome := by
  unfold itemSchema at h
  dsimp only at h
  generalize hlead : (if reading.modern place = true then
    (arrayAt (schemaAt root place) "prefixItems").getD [] else []) = leading at h
  by_cases hleading : i < leading.length
  · rw [if_pos hleading] at h
    obtain rfl := Option.some.inj h
    split at hlead
    · cases helems : arrayAt (schemaAt root place) "prefixItems" with
      | none =>
        rw [helems] at hlead
        subst hlead
        exact absurd hleading (Nat.not_lt_zero i)
      | some elems =>
        rw [helems] at hlead
        subst hlead
        exact descend_of_arrayAt helems hleading
    · subst hlead
      exact absurd hleading (Nat.not_lt_zero i)
  · rw [if_neg hleading] at h
    cases hitems : Fields.ofJson? (schemaAt root place) "items" with
    | none =>
      rw [hitems] at h
      cases h
    | some items =>
      rw [hitems] at h
      cases items with
      | array tuple =>
        dsimp only at h
        split_ifs at h with hmodern htuple hadditional
        · obtain rfl := Option.some.inj h
          refine descend_of_arrayAt ?_ htuple
          unfold arrayAt
          rw [hitems]
          rfl
        · obtain rfl := Option.some.inj h
          obtain ⟨value, hvalue⟩ := Option.isSome_iff_exists.mp hadditional
          rw [descend_of_at hvalue]
          rfl
      | _ =>
        obtain rfl := Option.some.inj h
        rw [descend_of_at hitems]
        rfl

theorem isSome_of_partSchema {place other : Place} {s : Selector}
    (h : partSchema root reading place s = some other) : (root.descend other).isSome := by
  cases s with
  | key name =>
    unfold partSchema propertySchema at h
    dsimp only at h
    split_ifs at h with hproperty
    obtain rfl := Option.some.inj h
    obtain ⟨value, hvalue⟩ := Option.isSome_iff_exists.mp hproperty
    obtain ⟨properties, hproperties, hname⟩ := Option.bind_eq_some_iff.mp hvalue
    have hplace : place ++ [Selector.key "properties", .key name] =
        (place ++ [Selector.key "properties"]) ++ [Selector.key name] := by simp
    rw [hplace, Json.descend_append, descend_of_at hproperties]
    show ((properties.select (.key name)).bind fun child => child.descend []).isSome
    have hselect : properties.select (.key name) = some value := hname
    rw [hselect]
    rfl
  | index i => exact isSome_of_itemSchema h

theorem isSome_of_reaches (hvalid : reading.Valid root) {start schema : Place}
    (hstart : (root.descend start).isSome) (h : Reaches (branches root reading) start schema) :
    (root.descend schema).isSome := by
  induction h with
  | refl => exact hstart
  | tail _ hmem _ => exact isSome_of_mem_branches hvalid hmem

/-! ## The parts of a value -/

variable (root reading)

/-- Redaction by the schemas that govern a value masks the parts that a sensitive one governs. -/
def Masks (preserveObjectRoot : Bool) (value : Json) : Prop :=
  ∀ (marked : Marked) (start : Place), (root.descend start).isSome → Enough fun fuel =>
    redactLoop root reading fuel preserveObjectRoot [start] [] (mask redactedValue marked value) =
      some (mask redactedValue (marked.or fun path =>
        (preserveObjectRoot = true → path ≠ []) ∧ Governed root reading start path) value)

/-- So does the redaction of its parts by one schema. -/
def MasksParts (value : Json) : Prop :=
  ∀ (marked : Marked) (place : Place), Enough fun fuel =>
    redactShape root reading (fun schema part => redactLoop root reading fuel false [schema] [] part)
      place (mask redactedValue marked value) =
      some (mask redactedValue (marked.or (GovernedBelow root reading place)) value)

variable {root reading}

theorem not_governedBelow_nil (place : Place) : ¬ GovernedBelow root reading place [] := by
  rintro ⟨s, rest, other, hpath, -⟩
  cases hpath

/-- What is singled out in a part, when a schema of the whole has been taken into account. -/
theorem under_or_governedBelow (marked : Marked) (place : Place) (s : Selector) :
    (marked.or (GovernedBelow root reading place)).under s =
      (partSchema root reading place s).elim (marked.under s) fun schema =>
        (marked.under s).or (Governed root reading schema) := by
  have hbelow : ∀ rest, GovernedBelow root reading place (s :: rest) ↔
      ∃ other, partSchema root reading place s = some other ∧ Governed root reading other rest := by
    intro rest
    constructor
    · rintro ⟨s', rest', other, hpath, hother⟩
      rw [List.cons.injEq] at hpath
      obtain ⟨rfl, rfl⟩ := hpath
      exact ⟨other, hother⟩
    · rintro ⟨other, hother⟩
      exact ⟨s, rest, other, rfl, hother⟩
  funext rest
  show (marked (s :: rest) ∨ GovernedBelow root reading place (s :: rest)) = _
  rw [hbelow]
  cases partSchema root reading place s with
  | none => simp [Marked.under]
  | some schema => simp [Marked.under, Marked.or]

/-- A part is redacted by the schema the whole has for it, if it has one. -/
theorem Masks.part {part : Json} (h : Masks root reading false part) (marked : Marked)
    (place : Place) (s : Selector) : Enough fun fuel =>
      (partSchema root reading place s).elim (some (mask redactedValue (marked.under s) part))
          (fun schema => redactLoop root reading fuel false [schema] []
            (mask redactedValue (marked.under s) part)) =
        some (mask redactedValue ((marked.or (GovernedBelow root reading place)).under s) part) := by
  rw [under_or_governedBelow]
  cases hschema : partSchema root reading place s with
  | none => exact .of_forall fun _ => rfl
  | some schema =>
    refine (h (marked.under s) schema (isSome_of_partSchema hschema)).mono fun fuel hfuel => ?_
    simpa using hfuel

theorem mapM_entries {f : String × Json → Option (String × Json)} {g k : String × Json → String × Json}
    {fields : List (String × Json)} (h : ∀ entry ∈ fields, f (g entry) = some (k entry)) :
    (fields.map g).mapM f = some (fields.map k) := by
  induction fields with
  | nil => rfl
  | cons entry rest ih =>
    rw [List.map_cons, List.mapM_cons, h entry List.mem_cons_self,
      ih fun other hother => h other (List.mem_cons_of_mem _ hother)]
    rfl

theorem mapM_elems {f : Json × Nat → Option Json} {g k : Nat → Json → Json} {elems : List Json}
    {i : Nat} (h : ∀ j child, elems[j]? = some child → f (g j child, i + j) = some (k j child)) :
    ((elems.mapIdx g).zipIdx i).mapM f = some (elems.mapIdx k) := by
  induction elems generalizing i g k with
  | nil => rfl
  | cons child rest ih =>
    have hrest := ih (g := fun j => g (j + 1)) (k := fun j => k (j + 1)) (i := i + 1)
      fun j other hother => by
        rw [show i + 1 + j = i + (j + 1) by omega]
        exact h (j + 1) other hother
    rw [List.mapIdx_cons, List.mapIdx_cons, List.zipIdx_cons, List.mapM_cons, hrest]
    have hchild := h 0 child rfl
    rw [Nat.add_zero] at hchild
    rw [hchild]
    rfl

/-- A value whose parts are masked one by one. -/
theorem masksParts_of_marked {value : Json} (marked : Marked) (hmarked : marked []) (place : Place) :
    Enough fun fuel => redactShape root reading
      (fun schema part => redactLoop root reading fuel false [schema] [] part) place
      (mask redactedValue marked value) =
      some (mask redactedValue (marked.or (GovernedBelow root reading place)) value) := by
  by_cases hnull : value = .null
  · subst hnull
    exact .of_forall fun _ => rfl
  · rw [mask_of_marked hmarked hnull, mask_of_marked (.inl hmarked) hnull]
    exact .of_forall fun _ => rfl

theorem masksParts_array {elems : List Json} (h : ∀ elem ∈ elems, Masks root reading false elem) :
    MasksParts root reading (.array elems) := by
  intro marked place
  by_cases hmarked : marked []
  · exact masksParts_of_marked marked hmarked place
  · have hor : ¬ marked.or (GovernedBelow root reading place) [] :=
      fun h => h.elim hmarked (not_governedBelow_nil place)
    have helems : Enough fun fuel => ∀ entry ∈ elems.zipIdx, _ :=
      Enough.forall_mem fun entry hentry =>
        (h entry.1 (List.mem_of_getElem? (List.mem_zipIdx_iff_getElem?.mp hentry))).part
          marked place (.index entry.2)
    refine helems.mono fun fuel hfuel => ?_
    rw [mask_array_of_not_marked hmarked, mask_array_of_not_marked hor, maskElems_zero,
      maskElems_zero]
    unfold redactShape
    dsimp only
    rw [mapM_elems (k := fun i child =>
      mask redactedValue ((marked.or (GovernedBelow root reading place)).under (.index i)) child)]
    · rfl
    · intro i child hchild
      rw [Nat.zero_add]
      have hpart := hfuel (child, i) (List.mem_zipIdx_iff_getElem?.mpr hchild)
      dsimp only at hpart ⊢
      cases hschema : partSchema root reading place (.index i) with
      | none =>
        rw [hschema] at hpart
        exact hpart
      | some schema =>
        rw [hschema] at hpart
        exact hpart

theorem masksParts_object {fields : List (String × Json)}
    (h : ∀ entry ∈ fields, Masks root reading false entry.2) :
    MasksParts root reading (.object fields) := by
  intro marked place
  by_cases hmarked : marked []
  · exact masksParts_of_marked marked hmarked place
  · have hor : ¬ marked.or (GovernedBelow root reading place) [] :=
      fun h => h.elim hmarked (not_governedBelow_nil place)
    have hfields : Enough fun fuel => ∀ entry ∈ fields, _ :=
      Enough.forall_mem fun entry hentry => (h entry hentry).part marked place (.key entry.1)
    refine hfields.mono fun fuel hfuel => ?_
    rw [mask_object_of_not_marked hmarked, mask_object_of_not_marked hor, maskFields_eq_map,
      maskFields_eq_map]
    unfold redactShape
    dsimp only
    rw [mapM_entries]
    · rfl
    · intro entry hentry
      have hpart := hfuel entry hentry
      dsimp only at hpart ⊢
      cases hschema : partSchema root reading place (.key entry.1) with
      | none =>
        rw [hschema] at hpart
        exact congrArg (Option.map (entry.1, ·)) hpart
      | some schema =>
        rw [hschema] at hpart
        exact congrArg (Option.map (entry.1, ·)) hpart

theorem masksParts_leaf {value : Json} (harray : ∀ elems, value ≠ .array elems)
    (hobject : ∀ fields, value ≠ .object fields) : MasksParts root reading value := by
  intro marked place
  by_cases hmarked : marked []
  · exact masksParts_of_marked marked hmarked place
  · have hor : ¬ marked.or (GovernedBelow root reading place) [] :=
      fun h => h.elim hmarked (not_governedBelow_nil place)
    refine .of_forall fun fuel => ?_
    cases value with
    | null => rfl
    | array elems => exact absurd rfl (harray elems)
    | object fields => exact absurd rfl (hobject fields)
    | _ =>
      unfold mask
      rw [if_neg hmarked, if_neg hor]
      rfl

/-! ## The worklist -/

variable (root reading)

/-- The parts that a sensitive schema governs by way of the parts of one of several schemas. -/
def GovernedBelowSome (schemas : List Place) : Marked := fun path =>
  ∃ schema ∈ schemas, GovernedBelow root reading schema path

variable {root reading}

/-- The value itself is governed by a sensitive schema its own reaches. -/
theorem governed_nil_iff {start : Place} : Governed root reading start [] ↔
    ∃ schema, Reaches (branches root reading) start schema ∧ isSensitive root schema = true := by
  unfold Governed
  simp only [governs_nil_iff]

/-- A part is governed by way of a schema the value's own reaches. -/
theorem governed_cons_iff {start path : Place} {s : Selector} :
    Governed root reading start (s :: path) ↔
      ∃ schema, Reaches (branches root reading) start schema ∧
        GovernedBelow root reading schema (s :: path) := by
  constructor
  · rintro ⟨schema, hgoverns, hsensitive⟩
    obtain ⟨whole, other, hreach, hpart, hrest⟩ := governs_cons_iff.mp hgoverns
    exact ⟨whole, hreach, s, path, other, rfl, hpart, schema, hrest, hsensitive⟩
  · rintro ⟨whole, hreach, s', path', other, hpath, hpart, schema, hrest, hsensitive⟩
    rw [List.cons.injEq] at hpath
    obtain ⟨rfl, rfl⟩ := hpath
    exact ⟨schema, governs_cons_iff.mpr ⟨whole, other, hreach, hpart, hrest⟩, hsensitive⟩

/-- When every schema reached is visited and none of them replaced the value, the parts of the value
have been masked by way of all of them. -/
theorem governedBelowSome_eq {preserveObjectRoot : Bool} {start : Place} {visited : List Place}
    (hinv : Worklist.Inv (branches root reading) start visited [])
    (hkept : ∀ schema ∈ visited, preserveObjectRoot = false → isSensitive root schema = false) :
    GovernedBelowSome root reading visited = fun path =>
      (preserveObjectRoot = true → path ≠ []) ∧ Governed root reading start path := by
  funext path
  refine propext ?_
  cases path with
  | nil =>
    constructor
    · rintro ⟨schema, -, hbelow⟩
      exact absurd hbelow (not_governedBelow_nil schema)
    · rintro ⟨hroot, hgoverned⟩
      obtain ⟨schema, hreach, hsensitive⟩ := governed_nil_iff.mp hgoverned
      cases hpreserve : preserveObjectRoot with
      | true => exact absurd rfl (hroot hpreserve)
      | false =>
        have hkept := hkept schema (hinv.mem_visited_iff.mpr hreach) hpreserve
        rw [hsensitive] at hkept
        cases hkept
  | cons s path =>
    rw [governed_cons_iff]
    constructor
    · rintro ⟨schema, hvisited, hbelow⟩
      exact ⟨fun _ => List.cons_ne_nil s path, schema, hinv.mem_visited_iff.mp hvisited, hbelow⟩
    · rintro ⟨-, schema, hreach, hbelow⟩
      exact ⟨schema, hinv.mem_visited_iff.mpr hreach, hbelow⟩

/-- The loop, from any of its rounds on. The work left shrinks, because the schemas of a document are
finitely many. -/
theorem redactLoop_mask (hvalid : reading.Valid root) {value : Json}
    (hparts : MasksParts root reading value) {preserveObjectRoot : Bool} {start : Place}
    (hstart : (root.descend start).isSome) (marked : Marked) (visited pending : List Place)
    (hinv : Worklist.Inv (branches root reading) start visited pending)
    (hkept : ∀ schema ∈ visited, preserveObjectRoot = false → isSensitive root schema = false) :
    Enough fun fuel => redactLoop root reading fuel preserveObjectRoot pending visited
      (mask redactedValue (marked.or (GovernedBelowSome root reading visited)) value) =
      some (mask redactedValue (marked.or fun path =>
        (preserveObjectRoot = true → path ≠ []) ∧ Governed root reading start path) value) := by
  induction hwork : work (Json.finite_places root).toFinset (branches root reading) visited pending
    using Nat.strong_induction_on generalizing visited pending with
  | _ n ih =>
    subst hwork
    cases pending with
    | nil =>
      rw [governedBelowSome_eq hinv hkept]
      exact Enough.succ (.of_forall fun _ => trivial) fun _ _ => rfl
    | cons place pending =>
      by_cases hvisited : place ∈ visited
      · -- passed over
        refine (ih _ (work_pass _) visited pending (hinv.pass hvisited) hkept rfl).succ
          fun fuel hfuel => ?_
        unfold redactLoop
        rw [if_pos hvisited]
        exact hfuel
      · have hreach := hinv.pending_reached place List.mem_cons_self
        by_cases hsensitive : (!preserveObjectRoot && isSensitive root place) = true
        · -- the whole value is replaced
          obtain ⟨hpreserve, hsensitive'⟩ : preserveObjectRoot = false ∧
              isSensitive root place = true := by simpa using hsensitive
          have hgoverned : Governed root reading start [] :=
            governed_nil_iff.mpr ⟨place, hreach, hsensitive'⟩
          refine Enough.succ (.of_forall fun _ => trivial) fun fuel _ => ?_
          unfold redactLoop
          rw [if_neg hvisited, if_pos hsensitive]
          refine congrArg some ?_
          by_cases hnull : value = .null
          · subst hnull
            rfl
          · have hne : (mask redactedValue
                (marked.or (GovernedBelowSome root reading visited)) value).isNull = false := by
              refine Json.isNull_eq_false ?_
              exact fun h => hnull (mask_eq_null_iff.mp h)
            have hmarked : (marked.or fun path => (preserveObjectRoot = true → path ≠ []) ∧
                Governed root reading start path) [] :=
              .inr ⟨fun h => absurd (hpreserve ▸ h) Bool.false_ne_true, hgoverned⟩
            rw [hne, mask_of_marked hmarked hnull]
            rfl
        · -- its parts are masked, and the schemas it names are next
          have hmem : place ∈ (Json.finite_places root).toFinset := by
            rw [Set.Finite.mem_toFinset]
            exact isSome_of_reaches hvalid hstart hreach
          have hkept' : ∀ schema ∈ place :: visited, preserveObjectRoot = false →
              isSensitive root schema = false := by
            intro schema hschema hpreserve
            rcases List.mem_cons.mp hschema with rfl | hschema
            · simpa [hpreserve] using hsensitive
            · exact hkept schema hschema hpreserve
          have hnext := ih _ (work_visit hmem hvisited) (place :: visited) _ hinv.visit hkept' rfl
          have hmarks : (marked.or (GovernedBelowSome root reading visited)).or
              (GovernedBelow root reading place) =
              marked.or (GovernedBelowSome root reading (place :: visited)) := by
            funext path
            simp [Marked.or, GovernedBelowSome, or_assoc, or_comm (a := GovernedBelow root reading _ _)]
          refine ((hparts (marked.or (GovernedBelowSome root reading visited)) place).and hnext).succ
            fun fuel hfuel => ?_
          obtain ⟨hshape, hnext⟩ := hfuel
          unfold redactLoop
          rw [if_neg hvisited, if_neg hsensitive, hshape, hmarks]
          exact hnext

/-- The worklist of a value whose parts are masked masks it. -/
theorem masks_of_masksParts (hvalid : reading.Valid root) {value : Json}
    (hparts : MasksParts root reading value) (preserveObjectRoot : Bool) :
    Masks root reading preserveObjectRoot value := by
  intro marked start hstart
  have hnone : marked.or (GovernedBelowSome root reading []) = marked := by
    funext path
    simp [Marked.or, GovernedBelowSome]
  have hloop : Enough fun fuel => redactLoop root reading fuel preserveObjectRoot [start] [] _ = _ :=
    redactLoop_mask hvalid hparts hstart marked [] [start] Worklist.Inv.init (by simp)
  rw [hnone] at hloop
  exact hloop

/-- Redaction of a value masks its parts, down from its own parts. -/
theorem masksParts (hvalid : reading.Valid root) (value : Json) : MasksParts root reading value := by
  induction value using Json.children_induction with
  | array elems ih =>
    exact masksParts_array fun elem helem => masks_of_masksParts hvalid (ih elem helem) false
  | object fields ih =>
    exact masksParts_object fun entry hentry => masks_of_masksParts hvalid (ih entry hentry) false
  | _ => exact masksParts_leaf (by simp) (by simp)

/-- Redaction is a mask. -/
theorem redactLoop_eq_mask (hvalid : reading.Valid root) (value : Json) (preserveObjectRoot : Bool) :
    Masks root reading preserveObjectRoot value :=
  masks_of_masksParts hvalid (masksParts hvalid value) preserveObjectRoot

end SchemaRedaction

end Apcore
