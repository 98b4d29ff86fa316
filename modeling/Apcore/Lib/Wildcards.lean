import Mathlib.Data.List.Infix
import Mathlib.Data.List.Forall2

/-! # `Lib.Wildcards` — patterns with a star

A pattern is a list of symbols, of which one stands for any text; which text symbols any other one
fits is a relation. Between two stars a matcher need look at the first occurrence only, since all
that could follow a later one also follows that (`follows_cons_iff`). -/

universe u v

namespace Wildcards

variable {α : Type u} {β : Type v} {star a : α} {fits : α → β → Prop} {pattern segment : List α}
  {rest : List (List α)} {text left : List β}

/-- The language of a pattern. -/
inductive Matches (star : α) (fits : α → β → Prop) : List α → List β → Prop
  | nil : Matches star fits [] []
  | symbol {a : α} {b : β} {pattern : List α} {text : List β} (hne : a ≠ star) (hfits : fits a b)
      (h : Matches star fits pattern text) : Matches star fits (a :: pattern) (b :: text)
  | star {pattern : List α} {text : List β} (gap : List β) (h : Matches star fits pattern text) :
      Matches star fits (star :: pattern) (gap ++ text)

theorem matches_nil_iff : Matches star fits [] text ↔ text = [] := by
  constructor
  · rintro ⟨⟩
    rfl
  · rintro rfl
    exact .nil

theorem matches_star_iff :
    Matches star fits (star :: pattern) text ↔ ∃ left, left <:+ text ∧ Matches star fits pattern left := by
  constructor
  · intro h
    cases h with
    | symbol hne _ _ => exact absurd rfl hne
    | star gap h => exact ⟨_, ⟨gap, rfl⟩, h⟩
  · rintro ⟨left, ⟨gap, rfl⟩, h⟩
    exact .star gap h

theorem matches_symbol_iff (hne : a ≠ star) :
    Matches star fits (a :: pattern) text ↔
      ∃ b left, text = b :: left ∧ fits a b ∧ Matches star fits pattern left := by
  constructor
  · intro h
    cases h with
    | symbol _ hfits h => exact ⟨_, _, rfl, hfits, h⟩
    | star _ _ => exact absurd rfl hne
  · rintro ⟨b, left, rfl, hfits, h⟩
    exact .symbol hne hfits h

/-- Two ways to fit symbols that agree on those of a pattern give it one language. -/
theorem Matches.mono {fits' : α → β → Prop} (h : Matches star fits pattern text)
    (hfits : ∀ a ∈ pattern, ∀ b, fits a b → fits' a b) : Matches star fits' pattern text := by
  induction h with
  | nil => exact .nil
  | symbol hne hfit _ ih =>
    exact .symbol hne (hfits _ List.mem_cons_self _ hfit)
      (ih fun a ha => hfits a (List.mem_cons_of_mem _ ha))
  | star gap _ ih => exact .star gap (ih fun a ha => hfits a (List.mem_cons_of_mem _ ha))

/-! ## Segments -/

/-- The segments of a pattern one after another, with anything between two of them. -/
inductive Joined (fits : α → β → Prop) : List (List α) → List β → Prop
  | last {segment : List α} {text : List β} (h : List.Forall₂ fits segment text) :
      Joined fits [segment] text
  | more {segment : List α} {rest : List (List α)} {covered left : List β} (gap : List β)
      (hcovered : List.Forall₂ fits segment covered) (h : Joined fits rest left) :
      Joined fits (segment :: rest) (covered ++ (gap ++ left))

/-- The segments behind a star. -/
def Follows (fits : α → β → Prop) (rest : List (List α)) (text : List β) : Prop :=
  ∃ left, left <:+ text ∧ Joined fits rest left

theorem joined_singleton_iff : Joined fits [segment] text ↔ List.Forall₂ fits segment text := by
  constructor
  · intro h
    cases h with
    | last h => exact h
    | more _ _ h => cases h
  · exact .last

theorem joined_cons_iff (hrest : rest ≠ []) :
    Joined fits (segment :: rest) text ↔
      ∃ covered left, text = covered ++ left ∧ List.Forall₂ fits segment covered ∧
        Follows fits rest left := by
  constructor
  · intro h
    cases h with
    | last _ => exact absurd rfl hrest
    | more gap hcovered h => exact ⟨_, _, rfl, hcovered, _, ⟨gap, rfl⟩, h⟩
  · rintro ⟨covered, _, rfl, hcovered, left, ⟨gap, rfl⟩, h⟩
    exact .more gap hcovered h

/-- A symbol in front of the first segment. -/
theorem joined_modifyHead_iff {segments : List (List α)} :
    Joined fits (segments.modifyHead (a :: ·)) text ↔
      ∃ b left, text = b :: left ∧ fits a b ∧ Joined fits segments left := by
  cases segments with
  | nil =>
    constructor
    · rintro ⟨⟩
    · rintro ⟨_, _, _, _, ⟨⟩⟩
  | cons segment rest =>
    rw [List.modifyHead_cons]
    constructor
    · intro h
      cases h with
      | last h =>
        cases h with
        | cons hfits h => exact ⟨_, _, rfl, hfits, .last h⟩
      | more gap hcovered h =>
        cases hcovered with
        | cons hfits hcovered => exact ⟨_, _, rfl, hfits, .more gap hcovered h⟩
    · rintro ⟨b, left, rfl, hfits, h⟩
      cases h with
      | last h => exact .last (.cons hfits h)
      | more gap hcovered h => exact .more gap (.cons hfits hcovered) h

/-- **A pattern is its segments.** By induction on the pattern, as it is split. -/
theorem matches_iff_joined [BEq α] [LawfulBEq α] :
    Matches star fits pattern text ↔ Joined fits (pattern.splitOn star) text := by
  induction pattern generalizing text with
  | nil =>
    rw [matches_nil_iff, List.splitOn_nil, joined_singleton_iff, List.forall₂_nil_left_iff]
  | cons a pattern ih =>
    rw [List.splitOn_cons_eq_if_modifyHead]
    by_cases ha : a = star
    · subst ha
      rw [if_pos (beq_self_eq_true a), matches_star_iff,
        joined_cons_iff (List.splitOn_ne_nil a pattern)]
      constructor
      · rintro ⟨left, hleft, h⟩
        exact ⟨[], text, rfl, .nil, left, hleft, ih.mp h⟩
      · rintro ⟨covered, left, rfl, hcovered, left', hleft, h⟩
        exact ⟨left', hleft.trans (List.suffix_append _ _), ih.mpr h⟩
    · rw [if_neg (by simpa using ha), matches_symbol_iff ha, joined_modifyHead_iff]
      simp only [ih]

/-! ## Occurrences -/

/-- An occurrence of a segment, and what is left behind it. -/
def Occurs (fits : α → β → Prop) (segment : List α) (text left : List β) : Prop :=
  ∃ gap covered, text = gap ++ (covered ++ left) ∧ List.Forall₂ fits segment covered

/-- The first occurrence leaves the most. -/
def First (fits : α → β → Prop) (segment : List α) (text left : List β) : Prop :=
  Occurs fits segment text left ∧ ∀ left', Occurs fits segment text left' → left'.length ≤ left.length

theorem Occurs.suffix (h : Occurs fits segment text left) : left <:+ text := by
  obtain ⟨gap, covered, rfl, -⟩ := h
  exact ⟨gap ++ covered, List.append_assoc ..⟩

theorem Occurs.length_le (h : Occurs fits segment text left) :
    segment.length + left.length ≤ text.length := by
  obtain ⟨gap, covered, rfl, hcovered⟩ := h
  rw [List.length_append, List.length_append, hcovered.length_eq]
  omega

/-- The empty segment is found at once. -/
theorem first_nil : First fits [] text text :=
  ⟨⟨[], [], rfl, .nil⟩, fun _ h => h.suffix.length_le⟩

theorem Follows.mono {text' : List β} (h : Follows fits rest text) (hsuffix : text <:+ text') :
    Follows fits rest text' := by
  obtain ⟨left, hleft, hjoined⟩ := h
  exact ⟨left, hleft.trans hsuffix, hjoined⟩

/-- Behind a star, a segment and more is an occurrence of the segment with more behind it. -/
theorem follows_cons_iff_occurs (hrest : rest ≠ []) :
    Follows fits (segment :: rest) text ↔
      ∃ left, Occurs fits segment text left ∧ Follows fits rest left := by
  constructor
  · rintro ⟨_, ⟨gap, rfl⟩, h⟩
    obtain ⟨covered, left, rfl, hcovered, hfollows⟩ := (joined_cons_iff hrest).mp h
    exact ⟨left, ⟨gap, covered, rfl, hcovered⟩, hfollows⟩
  · rintro ⟨left, ⟨gap, covered, rfl, hcovered⟩, hfollows⟩
    exact ⟨covered ++ left, ⟨gap, rfl⟩,
      (joined_cons_iff hrest).mpr ⟨covered, left, rfl, hcovered, hfollows⟩⟩

/-- **Looking at the first occurrence is enough**: what follows any other also follows that one. -/
theorem follows_cons_iff (hrest : rest ≠ []) (hfirst : First fits segment text left) :
    Follows fits (segment :: rest) text ↔ Follows fits rest left := by
  rw [follows_cons_iff_occurs hrest]
  constructor
  · rintro ⟨left', hoccurs, hfollows⟩
    exact hfollows.mono
      (List.suffix_of_suffix_length_le hoccurs.suffix hfirst.1.suffix (hfirst.2 left' hoccurs))
  · exact fun h => ⟨left, hfirst.1, h⟩

/-- The last segment ends the text. -/
theorem follows_singleton_iff :
    Follows fits [segment] text ↔
      segment.length ≤ text.length ∧
        List.Forall₂ fits segment (text.drop (text.length - segment.length)) := by
  constructor
  · rintro ⟨left, hsuffix, h⟩
    have hcovers := joined_singleton_iff.mp h
    have hlength := hcovers.length_eq
    rw [hlength, ← List.suffix_iff_eq_drop.mp hsuffix]
    exact ⟨hsuffix.length_le, hcovers⟩
  · rintro ⟨-, h⟩
    exact ⟨_, List.drop_suffix _ _, .last h⟩

/-- Where the last segment ends the text, it occurs there. -/
theorem Follows.occurs (h : Follows fits [segment] text) : Occurs fits segment text [] := by
  obtain ⟨left, ⟨gap, rfl⟩, h⟩ := h
  exact ⟨gap, left, by rw [List.append_nil], joined_singleton_iff.mp h⟩

end Wildcards
