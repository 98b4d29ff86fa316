import Mathlib.Data.List.DropRight
import Mathlib.Data.List.TakeDrop

/-! # `Text` — what is used of `str`

A string is read as the list of its characters. -/

namespace Apcore

/-- `char::is_whitespace`: the Unicode property `White_Space`. -/
def isRustWhitespace (c : Char) : Bool :=
  let n := c.toNat
  (0x9 ≤ n && n ≤ 0xd) || n = 0x20 || n = 0x85 || n = 0xa0 || n = 0x1680 ||
    (0x2000 ≤ n && n ≤ 0x200a) || n = 0x2028 || n = 0x2029 || n = 0x202f || n = 0x205f || n = 0x3000

/-- `str::trim`. -/
def rustTrim (s : List Char) : List Char :=
  ((s.dropWhile isRustWhitespace).reverse.dropWhile isRustWhitespace).reverse

/-- `eq_ignore_ascii_case`. -/
def eqIgnoreAsciiCase (first second : String) : Bool :=
  first.toList.map Char.toLower == second.toList.map Char.toLower

/-- `text.split_once(c)`. -/
def splitOnce (c : Char) (text : String) : Option (String × String) :=
  match text.toList.span (· ≠ c) with
  | (before, _ :: after) => some (String.ofList before, String.ofList after)
  | (_, []) => none

/-- `text.strip_prefix(lead)`. -/
def stripLead (lead text : String) : Option String :=
  if lead.toList.isPrefixOf text.toList then some (String.ofList (text.toList.drop lead.length))
  else none

/-! ## Stripping and splitting -/

theorem stripLead_eq_some {lead text rest : String} :
    stripLead lead text = some rest ↔ text = lead ++ rest := by
  unfold stripLead
  constructor
  · intro h
    split_ifs at h with hlead
    obtain ⟨after, hafter⟩ := List.isPrefixOf_iff_prefix.mp hlead
    obtain rfl := Option.some.inj h
    apply String.toList_injective
    rw [String.toList_append, String.toList_ofList, ← hafter, ← String.length_toList,
      List.drop_left]
  · rintro rfl
    rw [String.toList_append, if_pos (List.isPrefixOf_iff_prefix.mpr (List.prefix_append _ _)),
      ← String.length_toList, List.drop_left, String.ofList_toList]

theorem stripLead_eq_none {lead text : String} (h : ∀ rest, text ≠ lead ++ rest) :
    stripLead lead text = none := by
  rw [Option.eq_none_iff_forall_not_mem]
  exact fun rest hrest => h rest (stripLead_eq_some.mp hrest)

/-- The parts of a string that is split are the string. -/
theorem splitOnce_eq_some {c : Char} {text before after : String}
    (h : splitOnce c text = some (before, after)) :
    text.toList = before.toList ++ c :: after.toList ∧ c ∉ before.toList := by
  unfold splitOnce at h
  rw [List.span_eq_takeWhile_dropWhile] at h
  cases hrest : text.toList.dropWhile (· ≠ c) with
  | nil =>
    rw [hrest] at h
    cases h
  | cons head rest =>
    rw [hrest] at h
    obtain ⟨rfl, rfl⟩ := Prod.mk.inj (Option.some.inj h)
    have hhead : head = c := by
      have hnot := List.head?_dropWhile_not (· ≠ c) text.toList
      rw [hrest] at hnot
      simpa using hnot
    subst hhead
    rw [String.toList_ofList, String.toList_ofList]
    refine ⟨?_, fun hmem => ?_⟩
    · rw [← hrest, List.takeWhile_append_dropWhile]
    · simpa using List.mem_takeWhile_imp hmem

theorem splitOnce_append {c : Char} {before after : List Char} (h : c ∉ before) :
    splitOnce c (String.ofList (before ++ c :: after)) =
      some (String.ofList before, String.ofList after) := by
  have hbefore : ∀ a ∈ before, decide (a ≠ c) = true := by
    intro a ha
    rw [decide_eq_true_eq]
    rintro rfl
    exact h ha
  unfold splitOnce
  rw [String.toList_ofList, List.span_eq_takeWhile_dropWhile, List.takeWhile_append_of_pos hbefore,
    List.dropWhile_append_of_pos hbefore]
  simp

/-- The parts do not have the separator. -/
theorem not_mem_of_mem_splitOn {c : Char} {s part : List Char} (h : part ∈ s.splitOn c) :
    c ∉ part := by
  induction s generalizing part with
  | nil =>
    obtain rfl : part = [] := by simpa using h
    simp
  | cons a s ih =>
    rw [List.splitOn_cons_eq_if_modifyHead] at h
    by_cases ha : a = c
    · rw [if_pos (by simpa using ha)] at h
      rcases List.mem_cons.mp h with rfl | h
      · simp
      · exact ih h
    · rw [if_neg (by simpa using ha)] at h
      cases hparts : s.splitOn c with
      | nil =>
        rw [hparts] at h
        cases h
      | cons head rest =>
        rw [hparts] at h ih
        rcases List.mem_cons.mp h with rfl | h
        · intro hc
          rcases List.mem_cons.mp hc with rfl | hc
          · exact ha rfl
          · exact ih List.mem_cons_self hc
        · exact ih (List.mem_cons_of_mem _ h)

/-! ## Trimming -/

/-- `str::trim_matches`. -/
def trimMatches (p : Char → Bool) (s : List Char) : List Char :=
  ((s.dropWhile p).reverse.dropWhile p).reverse

section

variable {p : Char → Bool} {s : List Char}

theorem trimMatches_eq (p : Char → Bool) (s : List Char) :
    trimMatches p s = (s.dropWhile p).rdropWhile p := rfl

theorem trimMatches_slice (p : Char → Bool) (s : List Char) : trimMatches p s <:+: s :=
  (List.rdropWhile_prefix p (s.dropWhile p)).isInfix.trans (List.dropWhile_suffix p).isInfix

/-- What neither begins nor ends with what is trimmed stays as it is. -/
theorem trimMatches_of_ends (hhead : ∀ c ∈ s.head?, p c = false)
    (hlast : ∀ c ∈ s.getLast?, p c = false) : trimMatches p s = s := by
  have hfront : s.dropWhile p = s := by
    cases s with
    | nil => rfl
    | cons c rest => rw [List.dropWhile_cons, if_neg (by simp [hhead c rfl])]
  rw [trimMatches_eq, hfront, List.rdropWhile_eq_self_iff]
  intro hne
  rw [hlast _ (List.getLast?_eq_some_getLast hne)]
  exact Bool.false_ne_true

theorem head?_trimMatches (p : Char → Bool) (s : List Char) :
    ∀ c ∈ (trimMatches p s).head?, p c = false := by
  intro c hc
  -- the first character is that of the string without what is trimmed in front
  have hhead : (s.dropWhile p).head? = some c := by
    obtain ⟨rest, hrest⟩ := List.rdropWhile_prefix p (s.dropWhile p)
    rw [← hrest, List.head?_append]
    rw [trimMatches_eq, Option.mem_def] at hc
    rw [hc]
    rfl
  have hnot := List.head?_dropWhile_not p s
  rw [hhead] at hnot
  exact hnot

theorem getLast?_trimMatches (p : Char → Bool) (s : List Char) :
    ∀ c ∈ (trimMatches p s).getLast?, p c = false := by
  intro c hc
  rw [trimMatches_eq] at hc
  have hne : (s.dropWhile p).rdropWhile p ≠ [] := by
    rintro hnil
    rw [hnil] at hc
    cases hc
  have hlast := List.rdropWhile_last_not p _ hne
  rw [List.getLast?_eq_some_getLast hne, Option.mem_def, Option.some.injEq] at hc
  rw [← hc]
  simpa using hlast

end

/-- Neither end is whitespace. -/
def Trimmed (s : List Char) : Prop :=
  (∀ c ∈ s.head?, isRustWhitespace c = false) ∧ ∀ c ∈ s.getLast?, isRustWhitespace c = false

theorem rustTrim_eq (s : List Char) : rustTrim s = trimMatches isRustWhitespace s := rfl

theorem rustTrim_of_trimmed {s : List Char} (h : Trimmed s) : rustTrim s = s :=
  trimMatches_of_ends h.1 h.2

theorem trimmed_rustTrim (s : List Char) : Trimmed (rustTrim s) :=
  ⟨head?_trimMatches isRustWhitespace s, getLast?_trimMatches isRustWhitespace s⟩

/-- Two strings put together, of which the first begins and the second ends with no whitespace. -/
theorem Trimmed.append {first second : List Char} {c : Char} (hfirst : Trimmed first) (hne : first ≠ [])
    (hsecond : Trimmed second) (hne' : second ≠ []) : Trimmed (first ++ c :: second) := by
  refine ⟨fun a ha => ?_, fun a ha => ?_⟩
  · cases first with
    | nil => exact absurd rfl hne
    | cons b rest => exact hfirst.1 a ha
  · refine hsecond.2 a ?_
    rw [List.getLast?_append, List.getLast?_cons] at ha
    cases hlast : second.getLast? with
    | none => exact absurd (List.getLast?_eq_none_iff.mp hlast) hne'
    | some b =>
      rw [hlast] at ha
      exact ha

/-! ## ASCII -/

/-- A character up to one of the first 128 is one of them. -/
theorem lt_128_of_le {c : Char} (high : UInt32) (hhigh : high.toNat < 128) (h : c.val ≤ high) :
    c.toNat < 128 :=
  lt_of_le_of_lt (UInt32.le_iff_toNat_le.mp h) hhigh

theorem lt_128_of_isUpper {c : Char} (h : c.isUpper = true) : c.toNat < 128 :=
  lt_128_of_le 'Z'.val (by decide) (of_decide_eq_true h).2

theorem lt_128_of_isLower {c : Char} (h : c.isLower = true) : c.toNat < 128 :=
  lt_128_of_le 'z'.val (by decide) (of_decide_eq_true (Bool.and_eq_true_iff.mp h).2)

theorem lt_128_of_isDigit {c : Char} (h : c.isDigit = true) : c.toNat < 128 :=
  lt_128_of_le '9'.val (by decide) (of_decide_eq_true (Bool.and_eq_true_iff.mp h).2)

theorem lt_128_of_isAlphanum {c : Char} (h : c.isAlphanum = true) : c.toNat < 128 := by
  have h : ((c.isUpper || c.isLower) || c.isDigit) = true := h
  rw [Bool.or_eq_true, Bool.or_eq_true] at h
  rcases h with (h | h) | h
  · exact lt_128_of_isUpper h
  · exact lt_128_of_isLower h
  · exact lt_128_of_isDigit h

/-- Cases of the first 128 characters, one by one. -/
theorem ascii_cases : ∀ n < 128,
    (Char.ofNat n).toLower.isUpper = false ∧
      ((Char.ofNat n).isLower = true → (Char.ofNat n).isUpper = false) ∧
        ((Char.ofNat n).isDigit = true → (Char.ofNat n).isUpper = false) := by
  decide +kernel

theorem not_isUpper_toLower (c : Char) : c.toLower.isUpper = false := by
  by_cases h : c.isUpper = true
  · have hcase := (ascii_cases c.toNat (lt_128_of_isUpper h)).1
    rwa [Char.ofNat_toNat] at hcase
  · have hself : c.toLower = c := dif_neg fun hrange => h (decide_eq_true hrange)
    rwa [hself, ← Bool.not_eq_true]

theorem not_isUpper_of_isLower {c : Char} (h : c.isLower = true) : c.isUpper = false := by
  have hcase := (ascii_cases c.toNat (lt_128_of_isLower h)).2.1
  rw [Char.ofNat_toNat] at hcase
  exact hcase h

theorem not_isUpper_of_isDigit {c : Char} (h : c.isDigit = true) : c.isUpper = false := by
  have hcase := (ascii_cases c.toNat (lt_128_of_isDigit h)).2.2
  rw [Char.ofNat_toNat] at hcase
  exact hcase h

end Apcore
