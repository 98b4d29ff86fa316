import Mathlib.Data.Set.Finite.Lattice
import Apcore.Schema.Pointer

/-! # `Schema.Places` — the places in a value

A place is the way to a part of a value from its root. Two parts are the same node of a document,
with one address, where they have one place. -/

namespace Apcore

/-- A step into a value. -/
inductive Selector where
  | key (name : String)
  | index (i : Nat)
  deriving DecidableEq, Repr

/-- The way to a part of a value. -/
abbrev Place := List Selector

namespace Json

/-- The part a step selects. -/
def select (v : Json) : Selector → Option Json
  | .key name => Fields.ofJson? v name
  | .index i => v.asArray?.bind (·[i]?)

/-- The part at a place. -/
def descend (v : Json) (place : Place) : Option Json := place.foldlM select v

theorem descend_cons (v : Json) (s : Selector) (place : Place) :
    v.descend (s :: place) = (v.select s).bind (·.descend place) := rfl

theorem descend_append (v : Json) (first second : Place) :
    v.descend (first ++ second) = (v.descend first).bind (·.descend second) := by
  unfold descend
  rw [List.foldlM_append]
  rfl

/-- A part is smaller than the value it is selected from. -/
theorem sizeOf_select_lt {v part : Json} {s : Selector} (h : v.select s = some part) :
    sizeOf part < sizeOf v := by
  cases s with
  | key name =>
    cases v with
    | object fields =>
      change (fields.find? (·.1 == name)).map (·.2) = some part at h
      obtain ⟨entry, hfind, rfl⟩ := Option.map_eq_some_iff.mp h
      have hmem := List.sizeOf_lt_of_mem (List.mem_of_find?_eq_some hfind)
      have hentry : sizeOf entry.2 < sizeOf entry := by
        rw [Prod.mk.sizeOf_spec]
        omega
      rw [Json.object.sizeOf_spec]
      omega
    | _ => cases h
  | index i =>
    cases v with
    | array elems =>
      have hmem := List.sizeOf_lt_of_mem (List.mem_of_getElem? h)
      rw [Json.array.sizeOf_spec]
      omega
    | _ => cases h

theorem sizeOf_descend_lt {v part : Json} {place : Place} (hne : place ≠ [])
    (h : v.descend place = some part) : sizeOf part < sizeOf v := by
  induction place generalizing v with
  | nil => exact absurd rfl hne
  | cons s place ih =>
    rw [descend_cons] at h
    obtain ⟨child, hchild, hpart⟩ := Option.bind_eq_some_iff.mp h
    have hlt := sizeOf_select_lt hchild
    by_cases hempty : place = []
    · subst hempty
      obtain rfl := Option.some.inj hpart
      exact hlt
    · exact lt_trans (ih hempty hpart) hlt

/-- A value has finitely many places. -/
theorem finite_places (v : Json) : {place | (v.descend place).isSome}.Finite := by
  -- a place is empty, or a step to a child and a place in it
  have hcover : ∀ (v : Json) (steps : List (Selector × Json)),
      (∀ s child, v.select s = some child → (s, child) ∈ steps) →
      (∀ step ∈ steps, {place | (step.2.descend place).isSome}.Finite) →
      {place | (v.descend place).isSome}.Finite := by
    intro v steps hsteps hfinite
    have hunion : (⋃ step ∈ {step | step ∈ steps},
        (fun place => step.1 :: place) '' {place | (step.2.descend place).isSome}).Finite :=
      (List.finite_toSet steps).biUnion fun step hstep => (hfinite step hstep).image _
    refine (hunion.union (Set.finite_singleton [])).subset fun place hplace => ?_
    cases place with
    | nil => exact .inr rfl
    | cons s place =>
      rw [Set.mem_ofPred_eq, descend_cons] at hplace
      cases hchild : v.select s with
      | none =>
        rw [hchild] at hplace
        cases hplace
      | some child =>
        rw [hchild] at hplace
        refine .inl (Set.mem_biUnion (hsteps s child hchild) ⟨place, hplace, rfl⟩)
  induction v using Json.children_induction with
  | array elems ih =>
    refine hcover _ (elems.zipIdx.map fun entry => (.index entry.2, entry.1)) ?_ ?_
    · intro s child h
      cases s with
      | key name => cases h
      | index i =>
        have helem : elems[i]? = some child := h
        exact List.mem_map.mpr ⟨(child, i), List.mem_zipIdx_iff_getElem?.mpr helem, rfl⟩
    · intro step hstep
      obtain ⟨entry, hentry, rfl⟩ := List.mem_map.mp hstep
      exact ih entry.1 (List.mem_of_getElem? (List.mem_zipIdx_iff_getElem?.mp hentry))
  | object fields ih =>
    refine hcover _ (fields.map fun entry => (.key entry.1, entry.2)) ?_ ?_
    · intro s child h
      cases s with
      | key name =>
        change (fields.find? (·.1 == name)).map (·.2) = some child at h
        obtain ⟨entry, hfind, rfl⟩ := Option.map_eq_some_iff.mp h
        have hname : entry.1 = name := by simpa using List.find?_some hfind
        exact List.mem_map.mpr ⟨entry, List.mem_of_find?_eq_some hfind, by rw [hname]⟩
      | index i => cases h
    · intro step hstep
      obtain ⟨entry, hentry, rfl⟩ := List.mem_map.mp hstep
      exact ih entry hentry
  | _ =>
    refine hcover _ [] (fun s child h => ?_) fun step hstep => by cases hstep
    cases s <;> cases h

/-- The place a list of pointer tokens leads to. -/
def locate : Json → List String → Option Place
  | _, [] => some []
  | v, token :: tokens =>
    match v with
    | .object fields =>
      match Fields.get? fields token with
      | some child => (child.locate tokens).map (.key token :: ·)
      | none => none
    | .array elems =>
      match parseIndex token with
      | some i =>
        match elems[i]? with
        | some child => (child.locate tokens).map (.index i :: ·)
        | none => none
      | none => none
    | _ => none

/-- The place of a pointer is where the pointer leads. -/
theorem descend_locate {v : Json} {tokens : List String} {place : Place}
    (h : v.locate tokens = some place) : v.descend place = v.at? tokens ∧ (v.at? tokens).isSome := by
  induction tokens generalizing v place with
  | nil =>
    obtain rfl := Option.some.inj h
    exact ⟨rfl, rfl⟩
  | cons token tokens ih =>
    rw [at?_cons]
    unfold locate at h
    cases v with
    | object fields =>
      dsimp only at h
      cases hchild : Fields.get? fields token with
      | none =>
        rw [hchild] at h
        cases h
      | some child =>
        rw [hchild] at h
        obtain ⟨rest, hrest, rfl⟩ := Option.map_eq_some_iff.mp h
        have hselect : (Json.object fields).select (.key token) = some child := hchild
        have htoken : (Json.object fields).child? token = some child := hchild
        rw [descend_cons, hselect, htoken]
        exact ih hrest
    | array elems =>
      dsimp only at h
      cases hindex : parseIndex token with
      | none =>
        rw [hindex] at h
        cases h
      | some i =>
        rw [hindex] at h
        dsimp only at h
        cases hchild : elems[i]? with
        | none =>
          rw [hchild] at h
          cases h
        | some child =>
          rw [hchild] at h
          obtain ⟨rest, hrest, rfl⟩ := Option.map_eq_some_iff.mp h
          have hselect : (Json.array elems).select (.index i) = some child := hchild
          have htoken : (Json.array elems).child? token = some child := by
            show (parseIndex token).bind (elems[·]?) = some child
            rw [hindex]
            exact hchild
          rw [descend_cons, hselect, htoken]
          exact ih hrest
    | _ => cases h

end Json

end Apcore
