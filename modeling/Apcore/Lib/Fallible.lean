import Mathlib.Data.List.Forall2
import Mathlib.Logic.Relation

/-! # `Lib.Fallible` — computations that return a value or an error

A bind that succeeds is two computations that succeed, and a loop that succeeds is a chain of its
bodies: what relates the states around every body, relates the states around the loop. -/

namespace Fallible

universe u v

variable {ε : Type u} {α β : Type v}

/-- A bind succeeds where both parts do. -/
theorem bind_eq_ok {x : Except ε α} {f : α → Except ε β} {b : β} :
    (x >>= f) = .ok b ↔ ∃ a, x = .ok a ∧ f a = .ok b := by
  cases x with
  | ok a =>
    constructor
    · intro h
      exact ⟨a, rfl, h⟩
    · rintro ⟨a', ha, h⟩
      cases ha
      exact h
  | error e =>
    constructor
    · intro h
      cases h
    · rintro ⟨a, ha, -⟩
      cases ha

/-- What goes on from a value returns where it does from that value. -/
theorem exists_bind_eq_ok {x : Except ε α} {f : α → Except ε β} {a : α} (ha : x = .ok a)
    (h : ∃ b, f a = .ok b) : ∃ b, (x >>= f) = .ok b := by
  rw [ha]
  exact h

/-- What a computation returns, where its error is not looked at. -/
theorem ok_of_toOption {x : Except ε α} {a : α} (h : x.toOption = some a) : x = .ok a := by
  cases x with
  | ok b =>
    cases h
    rfl
  | error e => cases h

theorem exists_ok_of_isSome {x : Except ε α} (h : x.toOption.isSome = true) : ∃ a, x = .ok a := by
  obtain ⟨a, ha⟩ := Option.isSome_iff_exists.mp h
  exact ⟨a, ok_of_toOption ha⟩

/-- The error of a computation, where its value is not looked at. -/
def error? : Except ε α → Option ε
  | .ok _ => none
  | .error e => some e

theorem error_of_error? {x : Except ε α} {e : ε} (h : error? x = some e) : x = .error e := by
  cases x with
  | ok a => cases h
  | error e' =>
    cases h
    rfl

/-- A loop that succeeds is a chain of what its bodies do. -/
theorem foldlM_reflTransGen {R : β → β → Prop} {f : β → α → Except ε β}
    (hf : ∀ b a b', f b a = .ok b' → Relation.ReflTransGen R b b') {entries : List α} {b b' : β}
    (h : entries.foldlM f b = .ok b') : Relation.ReflTransGen R b b' := by
  induction entries generalizing b with
  | nil =>
    obtain rfl := Except.ok.inj h
    exact .refl
  | cons a rest ih =>
    rw [List.foldlM_cons] at h
    obtain ⟨next, hnext, hrest⟩ := bind_eq_ok.mp h
    exact (hf b a next hnext).trans (ih hrest)

/-- A traversal gives the results of its entries, one for each. -/
theorem mapM_eq_ok_iff {f : α → Except ε β} {entries : List α} {results : List β} :
    entries.mapM f = .ok results ↔ List.Forall₂ (fun a b => f a = .ok b) entries results := by
  induction entries generalizing results with
  | nil =>
    rw [List.forall₂_nil_left_iff]
    show Except.ok [] = Except.ok results ↔ _
    rw [Except.ok.injEq, eq_comm]
  | cons head rest ih =>
    rw [List.mapM_cons, bind_eq_ok, List.forall₂_cons_left_iff]
    constructor
    · rintro ⟨b, hb, h⟩
      obtain ⟨tail, htail, hresults⟩ := bind_eq_ok.mp h
      exact ⟨b, tail, hb, ih.mp htail, (Except.ok.inj hresults).symm⟩
    · rintro ⟨b, tail, hb, htail, rfl⟩
      exact ⟨b, hb, bind_eq_ok.mpr ⟨tail, ih.mpr htail, rfl⟩⟩

theorem mapM_eq_self_iff {f : α → Except ε α} {entries : List α} :
    entries.mapM f = .ok entries ↔ ∀ a ∈ entries, f a = .ok a := by
  rw [mapM_eq_ok_iff, List.forall₂_same]

/-- A traversal that leaves its entries as they are. -/
theorem eq_of_mapM_eq_ok {f : α → Except ε α} {entries results : List α}
    (h : entries.mapM f = .ok results) (hsame : ∀ a ∈ entries, ∀ b, f a = .ok b → b = a) :
    results = entries := by
  have hall := mapM_eq_ok_iff.mp h
  clear h
  induction hall with
  | nil => rfl
  | cons hb _ ih =>
    obtain ⟨hhead, hrest⟩ := List.forall_mem_cons.mp hsame
    rw [hhead _ hb, ih hrest]

/-- A traversal that succeeds at every entry succeeds. -/
theorem exists_mapM_eq_ok {f : α → Except ε β} {entries : List α}
    (h : ∀ a ∈ entries, ∃ b, f a = .ok b) : ∃ results, entries.mapM f = .ok results := by
  induction entries with
  | nil => exact ⟨[], rfl⟩
  | cons head rest ih =>
    obtain ⟨b, hb⟩ := h head List.mem_cons_self
    obtain ⟨tail, htail⟩ := ih fun a ha => h a (List.mem_cons_of_mem _ ha)
    refine ⟨b :: tail, ?_⟩
    rw [List.mapM_cons]
    exact bind_eq_ok.mpr ⟨b, hb, bind_eq_ok.mpr ⟨tail, htail, rfl⟩⟩

/-- What is made of a value that is returned. -/
theorem map_eq_ok {x : Except ε α} {f : α → β} {b : β} :
    x.map f = .ok b ↔ ∃ a, x = .ok a ∧ f a = b := by
  cases x with
  | ok a =>
    constructor
    · exact fun h => ⟨a, rfl, Except.ok.inj h⟩
    · rintro ⟨a', ha, rfl⟩
      cases ha
      rfl
  | error e =>
    constructor
    · intro h
      cases h
    · rintro ⟨a, ha, -⟩
      cases ha

theorem exists_map_eq_ok {x : Except ε α} {f : α → β} :
    (∃ b, x.map f = .ok b) ↔ ∃ a, x = .ok a := by
  constructor
  · rintro ⟨b, hb⟩
    obtain ⟨a, ha, -⟩ := map_eq_ok.mp hb
    exact ⟨a, ha⟩
  · rintro ⟨a, ha⟩
    exact ⟨f a, map_eq_ok.mpr ⟨a, ha, rfl⟩⟩

theorem map_eq_error {x : Except ε α} {f : α → β} {e : ε} : x.map f = .error e ↔ x = .error e := by
  cases x with
  | ok a => exact iff_of_false nofun nofun
  | error e' => exact ⟨fun h => congrArg _ (Except.error.inj h), fun h => congrArg _ (Except.error.inj h)⟩

/-- A traversal that succeeds succeeds at every entry. -/
theorem ok_of_mapM_eq_ok {f : α → Except ε β} {entries : List α} {results : List β}
    (h : entries.mapM f = .ok results) : ∀ a ∈ entries, ∃ b, f a = .ok b := by
  induction entries generalizing results with
  | nil => simp
  | cons head rest ih =>
    rw [List.mapM_cons] at h
    obtain ⟨b, hb, h⟩ := bind_eq_ok.mp h
    obtain ⟨tail, htail, -⟩ := bind_eq_ok.mp h
    intro a ha
    rcases List.mem_cons.mp ha with rfl | ha
    · exact ⟨b, hb⟩
    · exact ih htail a ha

/-- The error of a traversal is the error of an entry. -/
theorem error_of_mapM_eq_error {f : α → Except ε β} {entries : List α} {e : ε}
    (h : entries.mapM f = .error e) : ∃ a ∈ entries, f a = .error e := by
  induction entries with
  | nil => cases h
  | cons head rest ih =>
    rw [List.mapM_cons] at h
    cases hhead : f head with
    | error e' =>
      rw [hhead] at h
      cases h
      exact ⟨head, List.mem_cons_self, hhead⟩
    | ok b =>
      rw [hhead] at h
      cases htail : rest.mapM f with
      | error e' =>
        change (rest.mapM f >>= fun tail => pure (b :: tail)) = .error e at h
        rw [htail] at h
        cases h
        obtain ⟨a, ha, hfa⟩ := ih htail
        exact ⟨a, List.mem_cons_of_mem _ ha, hfa⟩
      | ok tail =>
        change (rest.mapM f >>= fun tail => pure (b :: tail)) = .error e at h
        rw [htail] at h
        cases h

end Fallible
