import Apcore.Text

/-! # `Config.Keys` — keys of the configuration

A key is a dot path. A framework key may be written with `apcore.` before it, and a key of a
namespace starts with the name of the namespace. -/

namespace Apcore.Config

/-- `key.split('.')`. -/
def segments (key : String) : List String := (key.toList.splitOn '.').map String.ofList

/-- `format!("apcore.{key}")`. -/
def qualified (key : String) : String := "apcore." ++ key

/-- `trim_start_matches('.')`. -/
def trimDots (text : String) : String := String.ofList (text.toList.dropWhile (· == '.'))

/-- `strip_namespace`. -/
def stripNamespace (key ns : String) : Option String :=
  ((stripLead ns key).filter fun rest => rest.toList.isEmpty || rest.toList.head? == some '.').map
    trimDots

/-- The parts of a path that `walk_view` follows. -/
def viewParts (rest : String) : List String := (segments rest).filter (· ≠ "")

/-! ## Splitting -/

theorem segments_ne_nil (key : String) : segments key ≠ [] := by
  unfold segments
  rw [ne_eq, List.map_eq_nil_iff]
  exact List.splitOn_ne_nil _ _

/-- A key is its segments. -/
theorem segments_injective : Function.Injective segments := by
  intro key other h
  have hparts : key.toList.splitOn '.' = other.toList.splitOn '.' :=
    List.map_injective_iff.mpr (fun _ _ hparts => String.ofList_injective hparts) h
  apply String.toList_injective
  rw [← @List.intercalate_splitOn Char key.toList _ _ '.', hparts, List.intercalate_splitOn]

/-- A name without dots before a key is its first segment. -/
theorem segments_append {ns : String} (h : '.' ∉ ns.toList) (key : String) :
    segments (ns ++ "." ++ key) = ns :: segments key := by
  unfold segments
  have hdot : ".".toList = ['.'] := rfl
  rw [String.toList_append, String.toList_append, hdot, List.append_assoc, List.singleton_append,
    List.splitOn_append_cons_self_of_not_mem h, List.map_cons, String.ofList_toList]

theorem segments_of_not_mem {ns : String} (h : '.' ∉ ns.toList) : segments ns = [ns] := by
  unfold segments
  rw [List.splitOn_eq_singleton h, List.map_singleton, String.ofList_toList]

theorem segments_qualified (key : String) : segments (qualified key) = "apcore" :: segments key := by
  have hlead : qualified key = "apcore" ++ "." ++ key := rfl
  rw [hlead]
  exact segments_append (by decide) key

/-- The keys whose first segment is `ns`: the name itself, and what follows it after a dot. -/
theorem head_segments_iff {ns : String} (h : '.' ∉ ns.toList) {key : String} :
    (segments key).head? = some ns ↔ key = ns ∨ ∃ rest, key = ns ++ "." ++ rest := by
  constructor
  · intro hhead
    have hkey := @List.intercalate_splitOn Char key.toList _ _ '.'
    unfold segments at hhead
    cases hparts : key.toList.splitOn '.' with
    | nil => exact absurd hparts (List.splitOn_ne_nil _ _)
    | cons part parts =>
      rw [hparts, List.map_cons, List.head?_cons] at hhead
      obtain rfl := Option.some.inj hhead
      rw [hparts] at hkey
      cases parts with
      | nil =>
        refine .inl (String.toList_injective ?_)
        rw [String.toList_ofList, ← hkey]
        simp
      | cons next parts =>
        refine .inr ⟨String.ofList (['.'].intercalate (next :: parts)), String.toList_injective ?_⟩
        rw [← hkey]
        simp [List.intercalate]
  · rintro (rfl | ⟨rest, rfl⟩)
    · rw [segments_of_not_mem h]
      rfl
    · rw [segments_append h]
      rfl

theorem viewParts_trimDots (text : String) : viewParts (trimDots text) = viewParts text := by
  unfold viewParts trimDots
  induction htext : text.toList generalizing text with
  | nil =>
    obtain rfl : text = "" := String.toList_injective htext
    rfl
  | cons c rest ih =>
    by_cases hc : c = '.'
    · subst hc
      have htail : text = "" ++ "." ++ String.ofList rest := by
        apply String.toList_injective
        rw [htext]
        simp
      have hsegments : segments text = "" :: segments (String.ofList rest) := by
        rw [htail]
        exact segments_append (by decide) _
      rw [List.dropWhile_cons_of_pos (by simp), hsegments,
        List.filter_cons_of_neg (by simp)]
      exact ih (String.ofList rest) (String.toList_ofList)
    · rw [List.dropWhile_cons_of_neg (by simpa using hc), ← htext, String.ofList_toList]

/-- What may be left of a key: nothing, or something after a dot. -/
theorem dotted_iff {text : String} :
    (text.toList.isEmpty || text.toList.head? == some '.') = true ↔
      text = "" ∨ ∃ rest, text = "." ++ rest := by
  constructor
  · intro h
    cases hchars : text.toList with
    | nil => exact .inl (String.toList_injective hchars)
    | cons c chars =>
      rw [hchars] at h
      obtain rfl : c = '.' := by simpa using h
      refine .inr ⟨String.ofList chars, String.toList_injective ?_⟩
      rw [hchars]
      simp
  · rintro (rfl | ⟨rest, rfl⟩)
    · rfl
    · simp

section StripNamespace

variable {ns key rest : String} (hns : '.' ∉ ns.toList)
include hns

theorem stripNamespace_isSome_iff :
    (stripNamespace key ns).isSome ↔ (segments key).head? = some ns := by
  rw [head_segments_iff hns]
  constructor
  · intro h
    obtain ⟨rest, hrest⟩ := Option.isSome_iff_exists.mp h
    obtain ⟨after, hafter, rfl⟩ := Option.map_eq_some_iff.mp hrest
    obtain ⟨hstrip, hshape⟩ := Option.filter_eq_some_iff.mp hafter
    obtain rfl := stripLead_eq_some.mp hstrip
    rcases dotted_iff.mp hshape with rfl | ⟨rest, rfl⟩
    · exact .inl (String.append_empty)
    · exact .inr ⟨rest, (String.append_assoc).symm⟩
  · intro h
    obtain ⟨after, rfl, hshape⟩ : ∃ after, key = ns ++ after ∧
        (after.toList.isEmpty || after.toList.head? == some '.') = true := by
      rcases h with rfl | ⟨rest, rfl⟩
      · exact ⟨"", String.append_empty.symm, rfl⟩
      · exact ⟨"." ++ rest, String.append_assoc, dotted_iff.mpr (.inr ⟨rest, rfl⟩)⟩
    have hstrip : stripLead ns (ns ++ after) = some after := stripLead_eq_some.mpr rfl
    simp [stripNamespace, hstrip, Option.filter, hshape]

/-- What is left of a key under a namespace is the rest of its segments. -/
theorem viewParts_of_stripNamespace (h : stripNamespace key ns = some rest) :
    viewParts rest = (segments key).tail.filter (· ≠ "") := by
  obtain ⟨after, hafter, rfl⟩ := Option.map_eq_some_iff.mp h
  obtain ⟨hstrip, hshape⟩ := Option.filter_eq_some_iff.mp hafter
  obtain rfl := stripLead_eq_some.mp hstrip
  rw [viewParts_trimDots]
  rcases dotted_iff.mp hshape with rfl | ⟨rest, rfl⟩
  · rw [String.append_empty, segments_of_not_mem hns]
    rfl
  · have hempty : segments ("." ++ rest) = "" :: segments rest := by
      have hdot : "." ++ rest = "" ++ "." ++ rest := rfl
      rw [hdot]
      exact segments_append (by decide) rest
    rw [← String.append_assoc, segments_append hns, viewParts, hempty]
    exact List.filter_cons_of_neg (by simp)

end StripNamespace

end Apcore.Config
