import Apcore.Lib.Wildcards
import Apcore.Text
import Apcore.Utils
import Mathlib.Algebra.Order.Ring.Nat

/-! # `Patterns` — what `match_pattern` matches

`match_pattern` accepts the language of its pattern, in which `*` stands for any text and every other
character for itself. It goes through the value by positions in bytes; here its slices are checked
(`none` is a panic), and no check fails. -/

namespace Apcore

open Wildcards

/-- The value is in the language of the pattern: `*` stands for any text. -/
def InPatternLanguage (pattern value : String) : Prop :=
  Matches '*' Eq pattern.toList value.toList

/-! ## Position by position -/

/-- `str::len`, in bytes of UTF-8. -/
def utf8Len (s : List Char) : Nat := (s.map Char.utf8Size).sum

/-- `&s[pos..]`: there is no such slice unless a character of `s` begins at `pos`, or `s` ends there. -/
def sliceFrom : Nat → List Char → Option (List Char)
  | 0, s => some s
  | _ + 1, [] => none
  | pos + 1, c :: rest =>
    if c.utf8Size ≤ pos + 1 then sliceFrom (pos + 1 - c.utf8Size) rest else none

/-- `str::find`. -/
def findByte (segment : List Char) : List Char → Option Nat
  | [] => if segment.isEmpty then some 0 else none
  | c :: rest =>
    if segment.isPrefixOf (c :: rest) then some 0
    else (findByte segment rest).map (c.utf8Size + ·)

/-- The interior loop of `match_pattern`. -/
def matchSegmentsAt (value : List Char) : List (List Char) → Nat → Option Bool
  | [], _ => some true
  | segment :: segments, pos =>
    if segment.isEmpty then matchSegmentsAt value segments pos
    else (sliceFrom pos value).bind fun slice =>
      match findByte segment slice with
      | some idx => matchSegmentsAt value segments (pos + (idx + utf8Len segment))
      | none => some false

/-- `match_pattern`, with the slices it takes. -/
def matchPatternAt (pattern value : String) : Option Bool :=
  if pattern = "*" then some true
  else if !pattern.toList.contains '*' then some (pattern == value)
  else match pattern.toList.splitOn '*' with
    -- there would be no `segments[0]`
    | [] => none
    | first :: rest =>
      let last := (first :: rest).getLastD []
      let anchored := pattern.toList.head? != some '*'
      if anchored && !first.isPrefixOf value.toList then some false
      else
        let pos := if anchored then utf8Len first else 0
        (matchSegmentsAt value.toList rest pos).map fun found =>
          found && (pattern.toList.getLast? == some '*' || last.isSuffixOf value.toList)

section Slices

variable {segment text left value : List Char}

theorem utf8Len_cons (c : Char) (s : List Char) : utf8Len (c :: s) = c.utf8Size + utf8Len s := by
  simp [utf8Len]

theorem utf8Len_append (s t : List Char) : utf8Len (s ++ t) = utf8Len s + utf8Len t := by
  simp [utf8Len]

/-- What is in front of a slice has its length. -/
theorem sliceFrom_utf8Len (front text : List Char) :
    sliceFrom (utf8Len front) (front ++ text) = some text := by
  induction front with
  | nil => cases text <;> rfl
  | cons c front ih =>
    have hpos := c.utf8Size_pos
    obtain ⟨n, hn⟩ : ∃ n, utf8Len (c :: front) = n + 1 :=
      ⟨utf8Len (c :: front) - 1, by rw [utf8Len_cons]; omega⟩
    rw [hn, List.cons_append, sliceFrom, ← hn, utf8Len_cons, if_pos (Nat.le_add_right _ _),
      Nat.add_sub_cancel_left, ih]

/-- `find` gives the length of what is in front of the first occurrence. -/
theorem findByte_of_findAfter (h : findAfter segment text = some left) :
    ∃ gap, text = gap ++ (segment ++ left) ∧ findByte segment text = some (utf8Len gap) := by
  induction text with
  | nil =>
    rw [findAfter] at h
    split_ifs at h with hempty
    obtain rfl : segment = [] := by simpa using hempty
    cases h
    exact ⟨[], rfl, rfl⟩
  | cons c rest ih =>
    rw [findAfter] at h
    rw [findByte]
    split_ifs at h ⊢ with hfirst
    · cases h
      obtain ⟨tail, htail⟩ := List.isPrefixOf_iff_prefix.mp hfirst
      refine ⟨[], ?_, rfl⟩
      rw [← htail, List.drop_left, List.nil_append]
    · obtain ⟨gap, hgap, hfind⟩ := ih h
      refine ⟨c :: gap, by rw [hgap, List.cons_append], ?_⟩
      rw [hfind, Option.map_some, utf8Len_cons]

theorem findByte_of_findAfter_none (h : findAfter segment text = none) :
    findByte segment text = none := by
  induction text with
  | nil =>
    rw [findAfter] at h
    rw [findByte]
    split_ifs at h ⊢
    rfl
  | cons c rest ih =>
    rw [findAfter] at h
    rw [findByte]
    split_ifs at h ⊢
    rw [ih h, Option.map_none]

/-- The loop is always at the boundary of a character, in front of what is left of the value. -/
theorem matchSegmentsAt_eq (segments : List (List Char)) (front text : List Char) :
    matchSegmentsAt (front ++ text) segments (utf8Len front) = some (matchSegments segments text) := by
  induction segments generalizing front text with
  | nil => rfl
  | cons segment segments ih =>
    rw [matchSegmentsAt, matchSegments]
    by_cases hempty : segment.isEmpty = true
    · rw [if_pos hempty, if_pos hempty, ih]
    · rw [if_neg hempty, if_neg hempty, sliceFrom_utf8Len, Option.bind_some]
      cases hfind : findAfter segment text with
      | none => rw [findByte_of_findAfter_none hfind]
      | some left =>
        obtain ⟨gap, rfl, hbyte⟩ := findByte_of_findAfter hfind
        have hpos : utf8Len front + (utf8Len gap + utf8Len segment) =
            utf8Len (front ++ (gap ++ segment)) := by
          rw [utf8Len_append, utf8Len_append]
        have hvalue : front ++ (gap ++ (segment ++ left)) = (front ++ (gap ++ segment)) ++ left := by
          simp only [List.append_assoc]
        rw [hbyte]
        dsimp only
        rw [hpos, hvalue, ih]

/-- The first segment of a pattern is empty exactly when the pattern begins with a star. -/
theorem head?_splitOn {pattern : List Char} (h : pattern.head? = some '*') :
    (pattern.splitOn '*').headD [] = [] := by
  cases pattern with
  | nil => cases h
  | cons c pattern =>
    obtain rfl : c = '*' := Option.some.inj h
    rw [List.splitOn_cons_eq_if_modifyHead, if_pos (beq_self_eq_true _)]
    rfl

/-- The last segment is empty when the pattern ends with a star. -/
theorem getLast?_splitOn {pattern : List Char} (h : pattern.getLast? = some '*') :
    (pattern.splitOn '*').getLastD [] = [] := by
  obtain ⟨front, rfl⟩ := List.getLast?_eq_some_iff.mp h
  rw [List.splitOn_append_cons_self]
  simp

end Slices

/-- **No slice of `match_pattern` is out of range**, and what it answers is as modelled. -/
theorem matchPatternAt_eq (pattern value : String) :
    matchPatternAt pattern value = some (matchPattern pattern value) := by
  unfold matchPatternAt matchPattern
  by_cases hstar : pattern = "*"
  · rw [if_pos hstar, if_pos hstar]
  rw [if_neg hstar, if_neg hstar]
  by_cases hliteral : (!pattern.toList.contains '*') = true
  · rw [if_pos hliteral, if_pos hliteral]
  rw [if_neg hliteral, if_neg hliteral]
  have hlast : (pattern.toList.getLast? == some '*' ||
      ((pattern.toList.splitOn '*').getLastD []).isSuffixOf value.toList) =
      ((pattern.toList.splitOn '*').getLastD []).isSuffixOf value.toList := by
    by_cases hend : pattern.toList.getLast? = some '*'
    · rw [getLast?_splitOn hend]
      simp [hend]
    · rw [beq_eq_false_iff_ne.mpr hend, Bool.false_or]
  have hfirst := @head?_splitOn pattern.toList
  obtain ⟨first, rest, hsegments⟩ := List.exists_cons_of_ne_nil (List.splitOn_ne_nil '*' pattern.toList)
  rw [hsegments] at hlast hfirst ⊢
  rw [List.headD_cons] at hfirst
  dsimp only [List.headD_cons, List.tail_cons]
  rw [hlast]
  generalize (first :: rest).getLastD [] = last
  by_cases hstart : pattern.toList.head? = some '*'
  · obtain rfl := hfirst hstart
    have hslices : matchSegmentsAt value.toList rest 0 = some (matchSegments rest value.toList) :=
      matchSegmentsAt_eq rest [] value.toList
    rw [hstart, bne_self_eq_false, Bool.false_and, if_neg Bool.false_ne_true,
      if_neg Bool.false_ne_true, hslices]
    rfl
  · rw [bne_iff_ne.mpr hstart, Bool.true_and, if_pos rfl]
    by_cases hleads : first.isPrefixOf value.toList = true
    · obtain ⟨left, hleft⟩ := List.isPrefixOf_iff_prefix.mp hleads
      have hslices := matchSegmentsAt_eq rest first left
      rw [hleads, if_neg (by simp), ← hleft, hslices, List.drop_left]
      rfl
    · rw [Bool.not_eq_true] at hleads
      rw [hleads, if_pos Bool.not_false]
      rfl

/-! ## The language -/

section Segments

variable {segment text left value : List Char} {segments : List (List Char)}

theorem first_of_findAfter (h : findAfter segment text = some left) : First Eq segment text left := by
  induction text with
  | nil =>
    rw [findAfter] at h
    split_ifs at h with hempty
    obtain rfl : segment = [] := by simpa using hempty
    cases h
    exact first_nil
  | cons c rest ih =>
    rw [findAfter] at h
    split_ifs at h with hfirst
    · obtain ⟨tail, htail⟩ := List.isPrefixOf_iff_prefix.mp hfirst
      have hleft : left = tail := by
        cases h
        rw [← htail, List.drop_left]
      subst hleft
      refine ⟨⟨[], segment, htail.symm, List.forall₂_refl _⟩, fun left' hoccurs => ?_⟩
      have hlength := hoccurs.length_le
      rw [← htail, List.length_append] at hlength
      omega
    · obtain ⟨⟨gap, covered, hrest, hcovered⟩, hmost⟩ := ih h
      refine ⟨⟨c :: gap, covered, by rw [hrest, List.cons_append], hcovered⟩, ?_⟩
      rintro left' ⟨gap', covered', htext, hcovered'⟩
      obtain rfl : segment = covered' := List.forall₂_eq_eq_eq ▸ hcovered'
      cases gap' with
      | nil => exact absurd (List.isPrefixOf_iff_prefix.mpr ⟨left', htext.symm⟩) hfirst
      | cons c' gap' => exact hmost left' ⟨gap', segment, (List.cons.inj htext).2, hcovered'⟩

theorem not_occurs_of_findAfter (h : findAfter segment text = none) : ¬Occurs Eq segment text left := by
  rintro ⟨gap, covered, rfl, hcovered⟩
  obtain rfl : segment = covered := List.forall₂_eq_eq_eq ▸ hcovered
  induction gap with
  | nil =>
    cases htext : segment ++ left with
    | nil =>
      rw [List.nil_append, htext, findAfter, (List.append_eq_nil_iff.mp htext).1] at h
      cases h
    | cons c rest =>
      rw [List.nil_append, htext, findAfter, if_pos] at h
      · cases h
      · exact List.isPrefixOf_iff_prefix.mpr ⟨left, htext⟩
  | cons c gap ih =>
    rw [List.cons_append, findAfter] at h
    split_ifs at h
    exact ih h

/-- The loop over the segments behind a star, with the test of the last one: since that is found in
what is left, it ends what is left if it ends the value. -/
theorem matchSegments_iff (hne : segments ≠ []) (hsuffix : text <:+ value) :
    (matchSegments segments text && (segments.getLastD []).isSuffixOf value) = true ↔
      Follows Eq segments text := by
  induction segments generalizing text with
  | nil => exact absurd rfl hne
  | cons segment rest ih =>
    rw [Bool.and_eq_true, List.isSuffixOf_iff_suffix]
    cases rest with
    | nil =>
      have hfound : matchSegments [segment] text = true ↔ ∃ left, Occurs Eq segment text left := by
        rw [matchSegments]
        by_cases hempty : segment = []
        · subst hempty
          exact ⟨fun _ => ⟨text, first_nil.1⟩, fun _ => rfl⟩
        · rw [if_neg (by simpa using hempty)]
          cases hfind : findAfter segment text with
          | none =>
            simp only [Bool.false_eq_true, false_iff]
            rintro ⟨left, hoccurs⟩
            exact not_occurs_of_findAfter hfind hoccurs
          | some left => exact ⟨fun _ => ⟨left, (first_of_findAfter hfind).1⟩, fun _ => rfl⟩
      rw [hfound]
      show _ ∧ segment <:+ value ↔ _
      constructor
      · rintro ⟨⟨left, hoccurs⟩, hends⟩
        have hlength := hoccurs.length_le
        exact ⟨segment, List.suffix_of_suffix_length_le hends hsuffix (by omega),
          .last (List.forall₂_refl _)⟩
      · intro h
        obtain ⟨left, hleft, hjoined⟩ := id h
        obtain rfl : segment = left := List.forall₂_eq_eq_eq ▸ joined_singleton_iff.mp hjoined
        exact ⟨⟨[], h.occurs⟩, hleft.trans hsuffix⟩
    | cons next rest =>
      have hrest : next :: rest ≠ [] := List.cons_ne_nil _ _
      have hlast : (segment :: next :: rest).getLastD [] = (next :: rest).getLastD [] := rfl
      rw [hlast, matchSegments]
      by_cases hempty : segment = []
      · subst hempty
        rw [if_pos List.isEmpty_nil, follows_cons_iff hrest first_nil, ← ih hrest hsuffix, Bool.and_eq_true,
          List.isSuffixOf_iff_suffix]
      · rw [if_neg (by simpa using hempty)]
        cases hfind : findAfter segment text with
        | none =>
          rw [follows_cons_iff_occurs hrest]
          simp only [Bool.false_eq_true, false_and, false_iff]
          rintro ⟨left, hoccurs, -⟩
          exact not_occurs_of_findAfter hfind hoccurs
        | some left =>
          have hfirst := first_of_findAfter hfind
          rw [follows_cons_iff hrest hfirst, ← ih hrest (hfirst.1.suffix.trans hsuffix),
            Bool.and_eq_true, List.isSuffixOf_iff_suffix]

/-- A pattern with a star has more than one segment. -/
theorem ne_nil_of_splitOn {pattern : List Char} (h : pattern.splitOn '*' = segment :: segments)
    (hmem : '*' ∈ pattern) : segments ≠ [] := by
  rintro rfl
  have hwhole : ['*'].intercalate (pattern.splitOn '*') = pattern := List.intercalate_splitOn '*'
  rw [h, List.intercalate_singleton] at hwhole
  subst hwhole
  exact not_mem_of_mem_splitOn (h ▸ List.mem_singleton_self segment) hmem

/-- The first segment of more than one. -/
theorem joined_iff (hne : segments ≠ []) :
    Joined Eq (segment :: segments) value ↔
      segment <+: value ∧ Follows Eq segments (value.drop segment.length) := by
  rw [joined_cons_iff hne]
  constructor
  · rintro ⟨covered, left, rfl, hcovered, hfollows⟩
    obtain rfl : segment = covered := List.forall₂_eq_eq_eq ▸ hcovered
    rw [List.drop_left]
    exact ⟨List.prefix_append _ _, hfollows⟩
  · rintro ⟨⟨left, rfl⟩, hfollows⟩
    rw [List.drop_left] at hfollows
    exact ⟨segment, left, rfl, List.forall₂_refl _, hfollows⟩

end Segments

/-- A pattern without `*` is its own language. -/
theorem inPatternLanguage_literal {pattern value : String} (h : '*' ∉ pattern.toList) :
    InPatternLanguage pattern value ↔ pattern = value := by
  have hsegments : pattern.toList.splitOn '*' = [pattern.toList] := List.splitOn_eq_singleton h
  rw [InPatternLanguage, matches_iff_joined, hsegments, joined_singleton_iff,
    List.forall₂_eq_eq_eq, String.toList_inj]

/-- **`match_pattern` accepts the language of its pattern.** -/
theorem matchPattern_iff (pattern value : String) :
    matchPattern pattern value = true ↔ InPatternLanguage pattern value := by
  by_cases hstar : pattern = "*"
  · subst hstar
    rw [matchPattern_star, InPatternLanguage]
    have hempty : Matches '*' (@Eq Char) [] [] := .nil
    have hall := hempty.star value.toList
    rw [List.append_nil] at hall
    exact ⟨fun _ => hall, fun _ => rfl⟩
  by_cases hmem : '*' ∈ pattern.toList
  · have hcontains : ¬(!pattern.toList.contains '*') = true := by simpa using hmem
    rw [matchPattern, if_neg hstar, if_neg hcontains, InPatternLanguage, matches_iff_joined]
    cases hsegments : pattern.toList.splitOn '*' with
    | nil => exact absurd hsegments (List.splitOn_ne_nil _ _)
    | cons first rest =>
      have hrest : rest ≠ [] := ne_nil_of_splitOn hsegments hmem
      have hlast : (first :: rest).getLastD [] = rest.getLastD [] := by
        cases rest with
        | nil => exact absurd rfl hrest
        | cons _ _ => rfl
      rw [joined_iff hrest, ← matchSegments_iff hrest (List.drop_suffix _ _), ← hlast,
        ← List.isPrefixOf_iff_prefix, ← Bool.and_eq_true, ← Bool.and_assoc]
      rfl
  · rw [matchPattern_literal hmem, beq_iff_eq, inPatternLanguage_literal hmem]

/-- **`match_pattern` is exact**: it never panics, and accepts the language of its pattern. -/
theorem matchPattern_exact (pattern value : String) :
    matchPatternAt pattern value = some (matchPattern pattern value) ∧
      (matchPattern pattern value = true ↔ InPatternLanguage pattern value) :=
  ⟨matchPatternAt_eq pattern value, matchPattern_iff pattern value⟩

end Apcore
