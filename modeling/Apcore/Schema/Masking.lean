import Apcore.Schema.Places

/-! # `Schema.Masking` — a value with some of its parts replaced

`mask` puts one string in the place of every part that is singled out, `null` excepted, and leaves
the rest. Masking twice is masking once, by either reason. -/

namespace Apcore

/-- Places of a value, singled out. -/
abbrev Marked := Place → Prop

/-- What is singled out in the part a step leads to. -/
def Marked.under (marked : Marked) (s : Selector) : Marked := fun place => marked (s :: place)

/-- What either singles out. -/
def Marked.or (first second : Marked) : Marked := fun place => first place ∨ second place

/-- A part of a value at a place, a key standing for every entry that has it. -/
def Json.HasPart : Json → Place → Json → Prop
  | v, [], part => part = v
  | v, .key name :: place, part => ∃ fields, v = .object fields ∧
      ∃ entry ∈ fields, entry.1 = name ∧ Json.HasPart entry.2 place part
  | v, .index i :: place, part => ∃ elems, v = .array elems ∧
      ∃ child, elems[i]? = some child ∧ Json.HasPart child place part

/-- Nothing above a place is singled out. -/
def Marked.clearAbove (marked : Marked) (place : Place) : Prop :=
  ∀ above rest, place = above ++ rest → rest ≠ [] → ¬ marked above

section

open Classical

variable (text : String)

mutual

/-- The value with `text` in every place that is marked. -/
noncomputable def mask (marked : Marked) : Json → Json
  | .null => .null
  | .bool b => if marked [] then .string text else .bool b
  | .number n => if marked [] then .string text else .number n
  | .string s => if marked [] then .string text else .string s
  | .array elems => if marked [] then .string text else .array (maskElems marked 0 elems)
  | .object fields => if marked [] then .string text else .object (maskFields marked fields)

/-- The elements from the given index on. -/
noncomputable def maskElems (marked : Marked) : Nat → List Json → List Json
  | _, [] => []
  | i, child :: rest => mask (marked.under (.index i)) child :: maskElems marked (i + 1) rest

noncomputable def maskFields (marked : Marked) : List (String × Json) → List (String × Json)
  | [] => []
  | (name, child) :: rest => (name, mask (marked.under (.key name)) child) :: maskFields marked rest

end

end

variable {text : String} {marked other : Marked}

/-! ## The marked value itself -/

theorem mask_of_marked {v : Json} (h : marked []) (hnull : v ≠ .null) :
    mask text marked v = .string text := by
  cases v with
  | null => exact absurd rfl hnull
  | _ =>
    unfold mask
    rw [if_pos h]

theorem mask_scalar_of_not_marked {v : Json} (h : ¬ marked []) (harray : ∀ elems, v ≠ .array elems)
    (hobject : ∀ fields, v ≠ .object fields) : mask text marked v = v := by
  cases v with
  | null => rfl
  | array elems => exact absurd rfl (harray elems)
  | object fields => exact absurd rfl (hobject fields)
  | _ =>
    unfold mask
    exact if_neg h

theorem mask_array_of_not_marked (h : ¬ marked []) (elems : List Json) :
    mask text marked (.array elems) = .array (maskElems text marked 0 elems) := by
  unfold mask
  rw [if_neg h]

theorem mask_object_of_not_marked (h : ¬ marked []) (fields : List (String × Json)) :
    mask text marked (.object fields) = .object (maskFields text marked fields) := by
  unfold mask
  rw [if_neg h]

theorem maskFields_eq_map (fields : List (String × Json)) :
    maskFields text marked fields =
      fields.map fun entry => (entry.1, mask text (marked.under (.key entry.1)) entry.2) := by
  induction fields with
  | nil => rfl
  | cons entry rest ih =>
    unfold maskFields
    rw [ih, List.map_cons]

theorem maskElems_eq_mapIdx (i : Nat) (elems : List Json) :
    maskElems text marked i elems =
      elems.mapIdx fun j child => mask text (marked.under (.index (i + j))) child := by
  induction elems generalizing i with
  | nil => rfl
  | cons child rest ih =>
    unfold maskElems
    rw [ih, List.mapIdx_cons]
    refine congrArg _ (List.mapIdx_eq_mapIdx_iff.mpr fun j hj => ?_)
    rw [show i + 1 + j = i + (j + 1) by omega]

theorem maskElems_zero (elems : List Json) :
    maskElems text marked 0 elems =
      elems.mapIdx fun i child => mask text (marked.under (.index i)) child := by
  rw [maskElems_eq_mapIdx]
  simp only [Nat.zero_add]

/-- `null` stays, and nothing else becomes `null`. -/
theorem mask_eq_null_iff {v : Json} : mask text marked v = .null ↔ v = .null := by
  cases v with
  | null => simp [mask]
  | _ =>
    unfold mask
    split_ifs <;> simp

theorem isObject_mask_of_not_marked (h : ¬ marked []) (v : Json) :
    (mask text marked v).isObject = v.isObject := by
  cases v <;> simp [mask, h, Json.isObject, Json.asObject?]

/-! ## Two masks -/

theorem mask_ne_text {v : Json} (h : ¬ marked []) (hv : v ≠ .string text) :
    mask text marked v ≠ .string text := by
  cases v with
  | null => simp [mask]
  | _ =>
    unfold mask
    rw [if_neg h]
    first | exact hv | simp

theorem clearAbove_nil {marked : Marked} : marked.clearAbove [] :=
  fun _ _ hplace hrest => absurd (List.append_eq_nil_iff.mp hplace.symm).2 hrest

theorem clearAbove_cons_iff {s : Selector} {place : Place} :
    marked.clearAbove (s :: place) ↔ ¬ marked [] ∧ (marked.under s).clearAbove place := by
  constructor
  · intro h
    refine ⟨h [] (s :: place) rfl (List.cons_ne_nil _ _), fun above rest hplace hrest => ?_⟩
    exact h (s :: above) rest (by rw [hplace]; rfl) hrest
  · rintro ⟨hroot, h⟩ above rest hplace hrest
    cases above with
    | nil => exact hroot
    | cons s' above =>
      rw [List.cons_append, List.cons.injEq] at hplace
      obtain ⟨rfl, hplace⟩ := hplace
      exact h above rest hplace hrest

/-- The masks agree on the value itself. -/
theorem marked_iff_of_mask_eq {v : Json} (h : mask text marked v = mask text other v)
    (hnull : v ≠ .null) (htext : v ≠ .string text) : marked [] ↔ other [] := by
  constructor
  · intro hmarked
    by_contra hother
    exact mask_ne_text hother htext (h.symm.trans (mask_of_marked hmarked hnull))
  · intro hother
    by_contra hmarked
    exact mask_ne_text hmarked htext (h.trans (mask_of_marked hother hnull))

/-- The topmost marks are the same, those of `null` and of the text itself left aside. -/
def Marked.AgreeOn (text : String) (marked other : Marked) (v : Json) : Prop :=
  ∀ place part, v.HasPart place part → part ≠ .null → part ≠ .string text → marked.clearAbove place →
    (marked place ↔ other place)

theorem Marked.AgreeOn.nil {v : Json} (h : marked.AgreeOn text other v) (hnull : v ≠ .null)
    (htext : v ≠ .string text) : marked [] ↔ other [] :=
  h [] v rfl hnull htext clearAbove_nil

theorem agreeOn_array_iff {elems : List Json} (hmarked : ¬ marked []) (hother : ¬ other []) :
    marked.AgreeOn text other (.array elems) ↔
      ∀ i child, elems[i]? = some child →
        (marked.under (.index i)).AgreeOn text (other.under (.index i)) child := by
  constructor
  · intro h i child hchild place part hpart hnull htext htop
    exact h (.index i :: place) part ⟨elems, rfl, child, hchild, hpart⟩ hnull htext
      (clearAbove_cons_iff.mpr ⟨hmarked, htop⟩)
  · intro h place part hpart hnull htext htop
    cases place with
    | nil => exact iff_of_false hmarked hother
    | cons s place =>
      cases s with
      | key name =>
        obtain ⟨fields, hfields, -⟩ := hpart
        cases hfields
      | index i =>
        obtain ⟨elems', helems, child, hchild, hpart⟩ := hpart
        obtain rfl := Json.array.inj helems
        exact h i child hchild place part hpart hnull htext (clearAbove_cons_iff.mp htop).2

theorem agreeOn_object_iff {fields : List (String × Json)} (hmarked : ¬ marked [])
    (hother : ¬ other []) :
    marked.AgreeOn text other (.object fields) ↔
      ∀ entry ∈ fields,
        (marked.under (.key entry.1)).AgreeOn text (other.under (.key entry.1)) entry.2 := by
  constructor
  · intro h entry hentry place part hpart hnull htext htop
    exact h (.key entry.1 :: place) part ⟨fields, rfl, entry, hentry, rfl, hpart⟩ hnull htext
      (clearAbove_cons_iff.mpr ⟨hmarked, htop⟩)
  · intro h place part hpart hnull htext htop
    cases place with
    | nil => exact iff_of_false hmarked hother
    | cons s place =>
      cases s with
      | key name =>
        obtain ⟨fields', hfields, entry, hentry, rfl, hpart⟩ := hpart
        obtain rfl := Json.object.inj hfields
        exact h entry hentry place part hpart hnull htext (clearAbove_cons_iff.mp htop).2
      | index i =>
        obtain ⟨elems, helems, -⟩ := hpart
        cases helems

/-- Below a part that both single out, nothing is to agree on. -/
theorem agreeOn_of_marked {v : Json} (hmarked : marked []) (hother : other []) :
    marked.AgreeOn text other v := by
  intro place part _ _ _ htop
  cases place with
  | nil => exact iff_of_true hmarked hother
  | cons s place => exact absurd hmarked (clearAbove_cons_iff.mp htop).1

/-- A value without parts has itself to agree on. -/
theorem agreeOn_leaf_iff {v : Json} (hleaf : ∀ place part, v.HasPart place part → place = []) :
    marked.AgreeOn text other v ↔ (v ≠ .null → v ≠ .string text → (marked [] ↔ other [])) := by
  constructor
  · exact fun h hnull htext => h.nil hnull htext
  · intro h place part hpart hnull htext _
    obtain rfl := hleaf place part hpart
    obtain rfl : part = v := hpart
    exact h hnull htext

/-- Two masks of a value are equal where they agree on it. -/
theorem mask_eq_mask_iff {v : Json} :
    mask text marked v = mask text other v ↔ marked.AgreeOn text other v := by
  induction v using Json.children_induction generalizing marked other with
  | array elems ih =>
    by_cases hroot : marked [] ↔ other []
    · by_cases hmarked : marked []
      · have hother := hroot.mp hmarked
        rw [mask_of_marked hmarked (by simp), mask_of_marked hother (by simp)]
        exact iff_of_true rfl (agreeOn_of_marked hmarked hother)
      · have hother := fun h => hmarked (hroot.mpr h)
        rw [mask_array_of_not_marked hmarked, mask_array_of_not_marked hother, maskElems_zero,
          maskElems_zero, Json.array.injEq, List.mapIdx_eq_mapIdx_iff,
          agreeOn_array_iff hmarked hother]
        constructor
        · intro h i child hchild
          obtain ⟨hi, rfl⟩ := List.getElem?_eq_some_iff.mp hchild
          exact (ih elems[i] (List.getElem_mem hi)).mp (h i hi)
        · intro h i hi
          exact (ih elems[i] (List.getElem_mem hi)).mpr (h i _ (List.getElem?_eq_getElem hi))
    · refine iff_of_false (fun h => hroot ?_) fun h => hroot (h.nil (by simp) (by simp))
      exact marked_iff_of_mask_eq h (by simp) (by simp)
  | object fields ih =>
    by_cases hroot : marked [] ↔ other []
    · by_cases hmarked : marked []
      · have hother := hroot.mp hmarked
        rw [mask_of_marked hmarked (by simp), mask_of_marked hother (by simp)]
        exact iff_of_true rfl (agreeOn_of_marked hmarked hother)
      · have hother := fun h => hmarked (hroot.mpr h)
        rw [mask_object_of_not_marked hmarked, mask_object_of_not_marked hother, maskFields_eq_map,
          maskFields_eq_map, Json.object.injEq, List.map_inj_left, agreeOn_object_iff hmarked hother]
        refine forall₂_congr fun entry hentry => ?_
        rw [Prod.mk.injEq, ih entry hentry]
        exact and_iff_right rfl
    · refine iff_of_false (fun h => hroot ?_) fun h => hroot (h.nil (by simp) (by simp))
      exact marked_iff_of_mask_eq h (by simp) (by simp)
  | null | bool | number | string =>
    rw [agreeOn_leaf_iff]
    · unfold mask
      by_cases hmarked : marked [] <;> by_cases hother : other [] <;> simp [hmarked, hother, eq_comm]
    · intro place part hpart
      cases place with
      | nil => rfl
      | cons s place => cases s <;> obtain ⟨_, h, -⟩ := hpart <;> cases h

/-- Nothing is marked. -/
theorem mask_of_forall_not {v : Json} (h : ∀ place part, v.HasPart place part → ¬ marked place) :
    mask text marked v = v := by
  induction v using Json.children_induction generalizing marked with
  | null => rfl
  | array elems ih =>
    rw [mask_array_of_not_marked (h [] _ rfl), maskElems_zero]
    refine congrArg _ (List.ext_getElem (by simp) fun i hi hi' => ?_)
    rw [List.getElem_mapIdx]
    refine ih elems[i] (List.getElem_mem hi') fun place part hpart => ?_
    exact h (.index i :: place) part ⟨elems, rfl, elems[i], List.getElem?_eq_getElem hi', hpart⟩
  | object fields ih =>
    rw [mask_object_of_not_marked (h [] _ rfl), maskFields_eq_map]
    refine congrArg _ ((List.map_congr_left fun entry hentry => ?_).trans (List.map_id _))
    refine Prod.ext rfl (ih entry hentry fun place part hpart => ?_)
    exact h (.key entry.1 :: place) part ⟨fields, rfl, entry, hentry, rfl, hpart⟩
  | _ =>
    unfold mask
    rw [if_neg (h [] _ rfl)]

/-! ## Parts of a masked value -/

theorem get?_map_entries (fields : List (String × Json)) (f : String → Json → Json)
    (name : String) :
    Fields.get? (fields.map fun entry => (entry.1, f entry.1 entry.2)) name =
      (Fields.get? fields name).map (f name) := by
  induction fields with
  | nil => rfl
  | cons entry rest ih =>
    rw [List.map_cons, Fields.get?_cons, Fields.get?_cons, ih]
    by_cases hname : entry.1 = name
    · subst hname
      rw [if_pos rfl, if_pos rfl]
      rfl
    · rw [if_neg hname, if_neg hname]

end Apcore
