import Apcore.Patterns

/-! # `Globs` — what `match_glob` matches

`match_glob` accepts the language of its pattern, in which `*` stands for any text and `?` for any
character; without `?` that is the language of `match_pattern`. It goes through the value by
positions in characters; here its slices and its subtractions are checked (`none` is a panic), and no
check fails. -/

namespace Apcore

open Wildcards

/-- A character of a glob other than `*`. -/
def GlobFits (symbol c : Char) : Prop := symbol = '?' ∨ symbol = c

/-- The value is in the language of the glob. -/
def InGlobLanguage (pattern value : String) : Prop :=
  Matches '*' GlobFits pattern.toList value.toList

/-! ## Position by position -/

/-- `usize` subtraction. -/
def checkedSub (a b : Nat) : Option Nat := if b ≤ a then some (a - b) else none

/-- `&text[low..high]`. -/
def sliceBetween (text : List Char) (low high : Nat) : Option (List Char) :=
  if low ≤ high ∧ high ≤ text.length then some ((text.take high).drop low) else none

/-- The search for a segment: the first of the given places where it is. -/
def findPlaceAt (segment value : List Char) : List Nat → Option (Option Nat)
  | [] => some none
  | j :: places =>
    (sliceBetween value j (j + segment.length)).bind fun slice =>
      if matchExact segment slice then some (some j) else findPlaceAt segment value places

/-- The interior loop of `match_glob`. -/
def matchInteriorAt (value : List Char) : List (List Char) → Nat → Option (Option Nat)
  | [], pos => some (some pos)
  | segment :: segments, pos =>
    if segment.isEmpty then matchInteriorAt value segments pos
    else if segment.length > value.length then some none
    else
      (checkedSub value.length segment.length).bind fun lastPlace =>
        (findPlaceAt segment value (List.range' pos (lastPlace + 1 - pos))).bind fun place =>
          match place with
          | some j => matchInteriorAt value segments (j + segment.length)
          | none => some none

/-- What `match_glob` does behind the interior segments. -/
def matchLastAt (value last : List Char) (pos : Nat) : Option Bool :=
  if last.isEmpty then some true
  else
    (checkedSub value.length pos).bind fun room =>
      if room < last.length then some false
      else
        (checkedSub value.length last.length).bind fun start =>
          (sliceBetween value start value.length).map (matchExact last)

/-- `match_glob`, with its slices and subtractions. -/
def matchGlobAt (pattern value : String) : Option Bool :=
  match pattern.toList.splitOn '*' with
  -- there would be no `segments[0]`
  | [] => none
  | first :: rest =>
    if rest.isEmpty then some (matchExact first value.toList)
    else if !matchPrefix first value.toList then some false
    else
      (matchInteriorAt value.toList rest.dropLast first.length).bind fun pos =>
        match pos with
        | some pos => matchLastAt value.toList (rest.getLastD []) pos
        | none => some false

section Positions

variable {segment last value : List Char} {segments : List (List Char)} {pos : Nat}

theorem checkedSub_of_le {a b : Nat} (h : b ≤ a) : checkedSub a b = some (a - b) := if_pos h

theorem sliceBetween_of_le {low high : Nat} (h : low ≤ high) (hhigh : high ≤ value.length) :
    sliceBetween value low high = some ((value.drop low).take (high - low)) := by
  rw [sliceBetween, if_pos ⟨h, hhigh⟩, List.drop_take]

theorem findPlaceAt_eq {places : List Nat} (h : ∀ j ∈ places, j + segment.length ≤ value.length) :
    findPlaceAt segment value places =
      some (places.find? fun j => matchExact segment ((value.drop j).take segment.length)) := by
  induction places with
  | nil => rfl
  | cons j places ih =>
    have hj := h j List.mem_cons_self
    rw [findPlaceAt, sliceBetween_of_le (Nat.le_add_right _ _) hj, Nat.add_sub_cancel_left,
      Option.bind_some, List.find?_cons]
    cases hexact : matchExact segment ((value.drop j).take segment.length) with
    | true => rfl
    | false => exact ih fun j hj => h j (List.mem_cons_of_mem _ hj)

/-- All places the search tries leave room for the segment. -/
theorem place_le (hroom : segment.length ≤ value.length) :
    ∀ j ∈ List.range' pos (value.length - segment.length + 1 - pos),
      j + segment.length ≤ value.length := by
  intro j hj
  rw [List.mem_range'_1] at hj
  omega

theorem matchInteriorAt_eq (segments : List (List Char)) (pos : Nat) :
    matchInteriorAt value segments pos = some (matchInterior value segments pos) := by
  induction segments generalizing pos with
  | nil => rfl
  | cons segment segments ih =>
    rw [matchInteriorAt, matchInterior]
    by_cases hempty : segment.isEmpty = true
    · rw [if_pos hempty, if_pos hempty, ih]
    rw [if_neg hempty, if_neg hempty]
    by_cases hroom : value.length < segment.length
    · rw [if_pos hroom, if_pos hroom]
    have hle : segment.length ≤ value.length := Nat.not_lt.mp hroom
    rw [if_neg hroom, if_neg hroom, checkedSub_of_le hle, Option.bind_some,
      findPlaceAt_eq (place_le hle), Option.bind_some]
    dsimp only
    cases (List.range' pos (value.length - segment.length + 1 - pos)).find? fun j =>
        matchExact segment ((value.drop j).take segment.length) with
    | none => rfl
    | some j => exact ih _

/-- The interior segments are found inside the value. -/
theorem le_of_matchInterior {pos' : Nat} (h : matchInterior value segments pos = some pos')
    (hpos : pos ≤ value.length) : pos' ≤ value.length := by
  induction segments generalizing pos with
  | nil =>
    cases h
    exact hpos
  | cons segment segments ih =>
    rw [matchInterior] at h
    by_cases hempty : segment.isEmpty = true
    · rw [if_pos hempty] at h
      exact ih h hpos
    rw [if_neg hempty] at h
    by_cases hroom : value.length < segment.length
    · rw [if_pos hroom] at h
      cases h
    rw [if_neg hroom] at h
    dsimp only at h
    cases hfind : (List.range' pos (value.length - segment.length + 1 - pos)).find? fun j =>
        matchExact segment ((value.drop j).take segment.length) with
    | none =>
      rw [hfind] at h
      cases h
    | some j =>
      rw [hfind] at h
      exact ih h (place_le (Nat.not_lt.mp hroom) j (List.mem_of_find?_eq_some hfind))

/-- What `match_glob` makes of the last segment. -/
def matchLast (value last : List Char) (pos : Nat) : Bool :=
  last.isEmpty ||
    (last.length ≤ value.length - pos && matchExact last (value.drop (value.length - last.length)))

theorem matchLastAt_eq (last : List Char) (hpos : pos ≤ value.length) :
    matchLastAt value last pos = some (matchLast value last pos) := by
  unfold matchLastAt matchLast
  by_cases hempty : last.isEmpty = true
  · rw [if_pos hempty, hempty, Bool.true_or]
  rw [if_neg hempty, checkedSub_of_le hpos, Option.bind_some]
  rw [Bool.not_eq_true] at hempty
  rw [hempty, Bool.false_or]
  by_cases hroom : value.length - pos < last.length
  · rw [if_pos hroom, decide_eq_false (Nat.not_le.mpr hroom), Bool.false_and]
  have hle : last.length ≤ value.length := by omega
  rw [if_neg hroom, checkedSub_of_le hle, Option.bind_some,
    sliceBetween_of_le (Nat.sub_le _ _) (Nat.le_refl _), Option.map_some,
    decide_eq_true (Nat.not_lt.mp hroom), Bool.true_and, List.take_of_length_le]
  rw [List.length_drop]

end Positions

/-- **No slice of `match_glob` is out of range**, no subtraction goes below zero, and what it answers
is as modelled. -/
theorem matchGlobAt_eq (pattern value : String) :
    matchGlobAt pattern value = some (matchGlob pattern value) := by
  unfold matchGlobAt matchGlob
  obtain ⟨first, rest, hsegments⟩ := List.exists_cons_of_ne_nil (List.splitOn_ne_nil '*' pattern.toList)
  rw [hsegments]
  dsimp only
  rw [List.headD_cons, List.tail_cons]
  by_cases hrest : rest.isEmpty = true
  · rw [if_pos hrest, if_pos hrest]
  rw [if_neg hrest, if_neg hrest, matchInteriorAt_eq, Option.bind_some]
  cases hfirst : matchPrefix first value.toList with
  | false => rfl
  | true =>
    rw [Bool.not_true, if_neg Bool.false_ne_true, Bool.true_and]
    have hpos : first.length ≤ value.toList.length := by
      rw [matchPrefix, Bool.and_eq_true, decide_eq_true_eq] at hfirst
      exact hfirst.1
    cases hinterior : matchInterior value.toList rest.dropLast first.length with
    | none => rfl
    | some pos =>
      exact matchLastAt_eq (rest.getLastD []) (le_of_matchInterior hinterior hpos)

/-! ## The language -/

section Segments

variable {segment last text value left : List Char} {segments : List (List Char)} {pos : Nat}

theorem matchPrefix_cons (symbol c : Char) (segment text : List Char) :
    matchPrefix (symbol :: segment) (c :: text) =
      ((symbol == '?' || symbol == c) && matchPrefix segment text) := by
  simp only [matchPrefix, List.length_cons, Nat.add_le_add_iff_right, List.zip_cons_cons,
    List.all_cons]
  exact Bool.and_left_comm ..

/-- `match_prefix` finds the segment at the front of the text. -/
theorem matchPrefix_iff :
    matchPrefix segment text = true ↔
      ∃ covered left, text = covered ++ left ∧ List.Forall₂ GlobFits segment covered := by
  induction segment generalizing text with
  | nil => exact ⟨fun _ => ⟨[], text, rfl, .nil⟩, fun _ => by simp [matchPrefix]⟩
  | cons symbol segment ih =>
    cases text with
    | nil =>
      constructor
      · intro h
        simp [matchPrefix] at h
      · rintro ⟨covered, left, htext, hcovered⟩
        cases hcovered with
        | cons _ _ => cases htext
    | cons c text =>
      rw [matchPrefix_cons, Bool.and_eq_true, Bool.or_eq_true, beq_iff_eq, beq_iff_eq, ih]
      constructor
      · rintro ⟨hfits, covered, left, rfl, hcovered⟩
        exact ⟨c :: covered, left, rfl, .cons hfits hcovered⟩
      · rintro ⟨covered, left, htext, hcovered⟩
        cases hcovered with
        | cons hfits hcovered =>
          obtain ⟨rfl, rfl⟩ := List.cons.inj htext
          exact ⟨hfits, _, left, rfl, hcovered⟩

/-- `match_exact` compares the segment with the whole text. -/
theorem matchExact_iff : matchExact segment text = true ↔ List.Forall₂ GlobFits segment text := by
  rw [matchExact, Bool.and_eq_true, beq_iff_eq, matchPrefix_iff]
  constructor
  · rintro ⟨hlength, covered, left, rfl, hcovered⟩
    have hleft : left = [] := by
      rw [List.length_append, hcovered.length_eq] at hlength
      exact List.length_eq_zero_iff.mp (by omega)
    rwa [hleft, List.append_nil]
  · intro h
    exact ⟨h.length_eq, text, [], (List.append_nil _).symm, h⟩

/-- The segment is at a place of the value. -/
theorem occurs_of_place {j : Nat} (hj : pos ≤ j)
    (hexact : matchExact segment ((value.drop j).take segment.length) = true) :
    Occurs GlobFits segment (value.drop pos) (value.drop (j + segment.length)) := by
  refine ⟨(value.drop pos).take (j - pos), (value.drop j).take segment.length, ?_,
    matchExact_iff.mp hexact⟩
  have hdrop : value.drop j = (value.drop pos).drop (j - pos) := by
    rw [List.drop_drop, Nat.add_sub_cancel' hj]
  rw [← List.drop_drop, List.take_append_drop, hdrop, List.take_append_drop]

/-- Where the segment occurs, the search has a place for it. -/
theorem place_of_occurs (h : Occurs GlobFits segment (value.drop pos) left) (hpos : pos ≤ value.length) :
    ∃ j, pos ≤ j ∧ j + segment.length + left.length = value.length ∧
      matchExact segment ((value.drop j).take segment.length) = true := by
  obtain ⟨gap, covered, hdrop, hcovered⟩ := h
  have hlength := congrArg List.length hdrop
  rw [List.length_drop, List.length_append, List.length_append, ← hcovered.length_eq] at hlength
  refine ⟨pos + gap.length, Nat.le_add_right _ _, by omega, ?_⟩
  rw [← List.drop_drop, hdrop, List.drop_left, hcovered.length_eq, List.take_left]
  exact matchExact_iff.mpr hcovered

/-- The first place the search finds is the first occurrence. -/
theorem first_of_find {j : Nat} (hpos : pos ≤ value.length)
    (hfind : (List.range' pos (value.length - segment.length + 1 - pos)).find? (fun j =>
      matchExact segment ((value.drop j).take segment.length)) = some j) :
    First GlobFits segment (value.drop pos) (value.drop (j + segment.length)) := by
  rw [List.find?_range'_eq_some] at hfind
  obtain ⟨hexact, hmem, hbefore⟩ := hfind
  rw [List.mem_range'_1] at hmem
  refine ⟨occurs_of_place hmem.1 hexact, fun left hoccurs => ?_⟩
  obtain ⟨j', hj', hlength, hexact'⟩ := place_of_occurs hoccurs hpos
  have hle : j ≤ j' := by
    by_contra hlt
    have hnot := hbefore j' hj' (Nat.not_le.mp hlt)
    rw [hexact'] at hnot
    exact Bool.false_ne_true hnot
  rw [List.length_drop]
  omega

theorem not_occurs_of_find (hpos : pos ≤ value.length)
    (hfind : (List.range' pos (value.length - segment.length + 1 - pos)).find? (fun j =>
      matchExact segment ((value.drop j).take segment.length)) = none) :
    ¬Occurs GlobFits segment (value.drop pos) left := by
  intro hoccurs
  obtain ⟨j, hj, hlength, hexact⟩ := place_of_occurs hoccurs hpos
  have hnot := List.find?_range'_eq_none.mp hfind j hj (by omega)
  rw [hexact] at hnot
  exact Bool.false_ne_true hnot

/-- The last segment ends what is left behind the interior ones. -/
theorem matchLast_iff (hpos : pos ≤ value.length) :
    matchLast value last pos = true ↔ Follows GlobFits [last] (value.drop pos) := by
  rw [matchLast, Bool.or_eq_true, Bool.and_eq_true, decide_eq_true_eq, matchExact_iff,
    follows_singleton_iff, List.length_drop, List.drop_drop]
  by_cases hempty : last = []
  · subst hempty
    simp only [List.isEmpty_nil, true_or, List.length_nil, Nat.zero_le, true_and, Nat.sub_zero,
      List.forall₂_nil_left_iff, List.drop_eq_nil_iff, true_iff]
    omega
  · have hne : last.isEmpty ≠ true := by simpa using hempty
    constructor
    · rintro (h | ⟨hroom, hfits⟩)
      · exact absurd h hne
      · refine ⟨hroom, ?_⟩
        rwa [show pos + (value.length - pos - last.length) = value.length - last.length by omega]
    · rintro ⟨hroom, hfits⟩
      refine .inr ⟨hroom, ?_⟩
      rwa [show pos + (value.length - pos - last.length) = value.length - last.length by omega] at hfits

/-- The interior segments, and the last one behind them. -/
theorem matchInterior_iff (segments : List (List Char)) (hpos : pos ≤ value.length) :
    (∃ pos', matchInterior value segments pos = some pos' ∧ matchLast value last pos' = true) ↔
      Follows GlobFits (segments ++ [last]) (value.drop pos) := by
  induction segments generalizing pos with
  | nil =>
    rw [List.nil_append, ← matchLast_iff hpos]
    constructor
    · rintro ⟨pos', hpos', hlast⟩
      cases hpos'
      exact hlast
    · exact fun h => ⟨pos, rfl, h⟩
  | cons segment segments ih =>
    have hrest : segments ++ [last] ≠ [] := by simp
    rw [List.cons_append, matchInterior]
    by_cases hempty : segment = []
    · subst hempty
      rw [if_pos List.isEmpty_nil, ih hpos, follows_cons_iff hrest first_nil]
    rw [if_neg (by simpa using hempty)]
    by_cases hroom : value.length < segment.length
    · rw [if_pos hroom, follows_cons_iff_occurs hrest]
      constructor
      · rintro ⟨pos', hpos', -⟩
        cases hpos'
      · rintro ⟨left, hoccurs, -⟩
        have hlength := hoccurs.length_le
        rw [List.length_drop] at hlength
        omega
    rw [if_neg hroom]
    dsimp only
    cases hfind : (List.range' pos (value.length - segment.length + 1 - pos)).find? fun j =>
        matchExact segment ((value.drop j).take segment.length) with
    | none =>
      rw [follows_cons_iff_occurs hrest]
      constructor
      · rintro ⟨pos', hpos', -⟩
        cases hpos'
      · rintro ⟨left, hoccurs, -⟩
        exact absurd hoccurs (not_occurs_of_find hpos hfind)
    | some j =>
      have hplace := place_le (Nat.not_lt.mp hroom) j (List.mem_of_find?_eq_some hfind)
      rw [follows_cons_iff hrest (first_of_find hpos hfind), ← ih hplace]

end Segments

/-- **`match_glob` accepts the language of its pattern.** -/
theorem matchGlob_iff (pattern value : String) :
    matchGlob pattern value = true ↔ InGlobLanguage pattern value := by
  rw [InGlobLanguage, matches_iff_joined, matchGlob]
  dsimp only
  cases hsegments : pattern.toList.splitOn '*' with
  | nil => exact absurd hsegments (List.splitOn_ne_nil _ _)
  | cons first rest =>
    rw [List.headD_cons, List.tail_cons]
    by_cases hrest : rest = []
    · subst hrest
      rw [if_pos List.isEmpty_nil, matchExact_iff, joined_singleton_iff]
    rw [if_neg (by simpa using hrest), joined_cons_iff hrest, Bool.and_eq_true, matchPrefix_iff]
    have hlast : rest.dropLast ++ [rest.getLastD []] = rest := by
      rw [List.getLastD_eq_getLast?, List.getLast?_eq_some_getLast hrest, Option.getD_some,
        List.dropLast_append_getLast]
    have hleft {covered left : List Char} (htext : value.toList = covered ++ left)
        (hcovered : List.Forall₂ GlobFits first covered) :
        (∃ pos, matchInterior value.toList rest.dropLast first.length = some pos ∧
          matchLast value.toList (rest.getLastD []) pos = true) ↔ Follows GlobFits rest left := by
      have hpos : first.length ≤ value.toList.length := by
        rw [htext, List.length_append, hcovered.length_eq]
        exact Nat.le_add_right _ _
      rw [matchInterior_iff rest.dropLast hpos, hlast, htext, hcovered.length_eq, List.drop_left]
    constructor
    · rintro ⟨⟨covered, left, htext, hcovered⟩, h⟩
      refine ⟨covered, left, htext, hcovered, (hleft htext hcovered).mp ?_⟩
      cases hinterior : matchInterior value.toList rest.dropLast first.length with
      | none =>
        rw [hinterior] at h
        cases h
      | some pos =>
        rw [hinterior] at h
        exact ⟨pos, rfl, h⟩
    · rintro ⟨covered, left, htext, hcovered, h⟩
      refine ⟨⟨covered, left, htext, hcovered⟩, ?_⟩
      obtain ⟨pos, hinterior, hmatches⟩ := (hleft htext hcovered).mpr h
      rw [hinterior]
      exact hmatches

/-- Without `?` a glob has the language of the pattern. -/
theorem inGlobLanguage_iff {pattern value : String} (h : '?' ∉ pattern.toList) :
    InGlobLanguage pattern value ↔ InPatternLanguage pattern value := by
  constructor
  · refine fun hglob => hglob.mono ?_
    rintro symbol hsymbol c (rfl | rfl)
    · exact absurd hsymbol h
    · rfl
  · exact fun hpattern => hpattern.mono fun _ _ _ hfits => .inr hfits

/-- The two matchers agree on a pattern without `?`. -/
theorem matchGlob_eq_matchPattern {pattern : String} (h : '?' ∉ pattern.toList) (value : String) :
    matchGlob pattern value = matchPattern pattern value :=
  Bool.eq_iff_iff.mpr
    (by rw [matchGlob_iff, matchPattern_iff, inGlobLanguage_iff h])

/-- **`match_glob` is exact**: it never panics, accepts the language of its pattern, and agrees with
`match_pattern` where there is no `?`. -/
theorem matchGlob_exact (pattern value : String) :
    matchGlobAt pattern value = some (matchGlob pattern value) ∧
      (matchGlob pattern value = true ↔ InGlobLanguage pattern value) ∧
      ('?' ∉ pattern.toList → matchGlob pattern value = matchPattern pattern value) :=
  ⟨matchGlobAt_eq pattern value, matchGlob_iff pattern value,
    fun h => matchGlob_eq_matchPattern h value⟩

example : matchGlob "a?c*" "abcd" = true := by decide

end Apcore
