import Apcore.Config.Validate

/-! # `Config.Documents` — what one entry of a document adds

A document is scanned entry by entry: by the walk over the framework keys, by the one over the
namespaces, and by the wire form. An entry that is put adds to a scan what it gives itself, and
takes away what the entry it replaces gave. -/

namespace Apcore

namespace Fields

variable {α β : Type} {key : String} {value : α} {fields : List (String × α)}

theorem get?_eq_none_of_lt (h : ∀ entry ∈ fields, key < entry.1) : get? fields key = none := by
  refine get?_eq_none fun hkey => ?_
  obtain ⟨entry, hentry, heq⟩ := List.mem_map.mp hkey
  exact absurd heq (ne_of_gt (h entry hentry))

theorem nodup_keys (hsorted : fields.Pairwise (·.1 < ·.1)) : (fields.map (·.1)).Nodup :=
  List.pairwise_map.mpr (hsorted.imp ne_of_lt)

/-- A scan is unchanged by an entry that gives what the entry before it gave. -/
theorem flatMap_insert_eq_iff (f : String × α → List β) (hsorted : fields.Pairwise (·.1 < ·.1)) :
    (insert key value fields).flatMap f = fields.flatMap f ↔
      f (key, value) = (get? fields key).elim [] fun old => f (key, old) := by
  induction fields with
  | nil => simp [insert]
  | cons entry rest ih =>
    obtain ⟨k, old⟩ := entry
    obtain ⟨hentry, hrest⟩ := List.pairwise_cons.mp hsorted
    rw [insert, get?_cons]
    rcases lt_trichotomy key k with hlt | rfl | hlt
    · have hnone : get? rest key = none :=
        get?_eq_none_of_lt fun entry hmem => hlt.trans (hentry entry hmem)
      rw [if_pos hlt, if_neg (ne_of_gt hlt), hnone, Option.elim_none, List.flatMap_cons,
        List.append_left_eq_self]
    · rw [if_neg (lt_irrefl _), if_pos rfl, if_pos rfl, List.flatMap_cons, List.flatMap_cons,
        List.append_left_inj]
      rfl
    · rw [if_neg (lt_asymm hlt), if_neg (ne_of_gt hlt), if_neg (ne_of_lt hlt), List.flatMap_cons,
        List.flatMap_cons, List.append_right_inj]
      exact ih hrest

/-- An entry that a filter drops does not show. -/
theorem filter_insert {p : String × α → Bool} (hp : ∀ v, p (key, v) = false) :
    (insert key value fields).filter p = fields.filter p := by
  induction fields with
  | nil => simp [insert, hp]
  | cons entry rest ih =>
    obtain ⟨k, old⟩ := entry
    rw [insert]
    split_ifs with hlt heq
    · rw [List.filter_cons_of_neg (by simp [hp])]
    · subst heq
      rw [List.filter_cons_of_neg (by simp [hp]), List.filter_cons_of_neg (by simp [hp])]
    · by_cases hk : p (k, old) = true
      · rw [List.filter_cons_of_pos hk, List.filter_cons_of_pos hk, ih]
      · rw [List.filter_cons_of_neg hk, List.filter_cons_of_neg hk, ih]

end Fields

namespace Config

namespace Value

variable {path rest : List String} {v w leaf : Value}

theorem child_of_entries (h : v.entries = w.entries) (key : String) : v.child key = w.child key :=
  child_congr (by rw [h])

/-- What a write makes depends on the entries only. -/
theorem write_of_entries (hpath : path ≠ []) (h : v.entries = w.entries) :
    nested.write path leaf v = nested.write path leaf w := by
  cases path with
  | nil => exact absurd rfl hpath
  | cons key path =>
    have hchild : nested.child v key = nested.child w key := child_of_entries h key
    rw [Nested.write_cons, Nested.write_cons, hchild]
    apply Subtype.ext
    show Json.object _ = Json.object _
    rw [h]

theorem entries_of_not_object (h : v.1.isObject = false) : v.entries = [] := by
  obtain ⟨v, hv⟩ := v
  cases v with
  | object fields => cases h
  | _ => rfl

/-- Nothing is below a leaf. -/
theorem read_leaf (hleaf : leaf.1.isObject = false) (hrest : rest ≠ []) :
    nested.read rest leaf = none := by
  cases rest with
  | nil => exact absurd rfl hrest
  | cons key rest =>
    have hchild : nested.child leaf key = none := by
      refine child_eq_none_iff.mpr ?_
      rw [entries_of_not_object hleaf]
      rfl
    rw [Nested.read_cons, hchild, Option.bind_none]

end Value

/-! ## Where a key is read -/

section WrittenPath

variable {registry : NamespaceRegistry} {key name rest : String}

/-- The namespace that is matched is the key, or stands before a dot in it. -/
theorem matched_cases (h : matchRegisteredNamespace registry key = some (name, rest)) :
    key = name ∧ rest = "" ∨ key = name ++ "." ++ rest := by
  obtain ⟨other, -, hother⟩ := List.exists_of_findSome?_eq_some h
  split_ifs at hother with hkey
  · obtain ⟨rfl, rfl⟩ := Prod.mk.inj (Option.some.inj hother)
    exact .inl ⟨hkey, rfl⟩
  · obtain ⟨after, hafter, hpair⟩ := Option.map_eq_some_iff.mp hother
    obtain ⟨rfl, rfl⟩ := Prod.mk.inj hpair
    exact .inr (stripLead_eq_some.mp hafter)

theorem writtenPath_ne_nil : writtenPath registry key ≠ [] := by
  unfold writtenPath
  split
  · exact List.cons_ne_nil _ _
  · exact segments_ne_nil key

/-- A key that is read in the entry `ns` has it for its first segment. -/
theorem head_segments_of_writtenPath {ns : String} (hns : '.' ∉ ns.toList)
    (h : (writtenPath registry key).head? = some ns) : (segments key).head? = some ns := by
  unfold writtenPath at h
  split at h
  · next hmatched =>
    obtain rfl := Option.some.inj h
    rw [head_segments_iff hns]
    rcases matched_cases hmatched with ⟨hkey, -⟩ | hkey
    · exact .inl hkey
    · exact .inr ⟨_, hkey⟩
  · exact h

theorem dotless_of_mem_segments {part : String} (h : part ∈ segments key) : '.' ∉ part.toList := by
  obtain ⟨chars, hchars, rfl⟩ := List.mem_map.mp h
  rw [String.toList_ofList]
  exact not_mem_of_mem_splitOn hchars

/-- A key that is read in an entry without dots is read at its segments, but for a dot that ends
it. -/
theorem writtenPath_of_dotless {ns : String} (hns : '.' ∉ ns.toList)
    (h : (writtenPath registry key).head? = some ns) :
    writtenPath registry key = segments key ∨ segments key = [ns, ""] := by
  unfold writtenPath at h ⊢
  split at h
  · next name rest hmatched =>
    obtain rfl := Option.some.inj h
    rcases matched_cases hmatched with ⟨rfl, rfl⟩ | hkey
    · exact .inl (segments_of_not_mem hns).symm
    · rw [hkey, segments_append hns]
      by_cases hrest : rest = ""
      · subst hrest
        exact .inr rfl
      · rw [if_neg hrest]
        exact .inl rfl
  · exact .inl rfl

/-- A write reaches a key only where it is read at its segments. -/
theorem writtenPath_of_not_apart {other : String}
    (h : ¬ Nested.Apart (segments other) (writtenPath registry key)) :
    writtenPath registry key = segments key ∨ ∃ ns, segments key = [ns, ""] := by
  cases hother : segments other with
  | nil => exact absurd hother (segments_ne_nil other)
  | cons ns rest =>
    cases hpath : writtenPath registry key with
    | nil => exact absurd hpath writtenPath_ne_nil
    | cons name below =>
      rw [hother, hpath] at h
      obtain rfl : ns = name := not_not.mp fun hne => h (Nested.apart_of_ne hne)
      have hdotless : '.' ∉ ns.toList :=
        dotless_of_mem_segments (hother ▸ List.mem_cons_self)
      have hhead : (writtenPath registry key).head? = some ns := by
        rw [hpath]
        rfl
      rw [← hpath]
      exact (writtenPath_of_dotless hdotless hhead).imp_right fun hkey => ⟨ns, hkey⟩

end WrittenPath

/-- The wire form has the sections that are not typed as they are written. -/
theorem get?_data {c : Config} {name : String} (hpath : name ≠ "modules_path")
    (hexecutor : name ≠ "executor") (hobservability : name ≠ "observability") :
    Fields.get? (c.data.asObject?.getD []) name = Fields.get? c.userNamespaces.entries name := by
  have hsorted := c.userNamespaces.ordered_entries.1
  unfold data Fields.ofList
  rw [Json.asObject?, Option.getD_some, List.foldl_append,
    Fields.get?_foldl_insert (Fields.nodup_of_pairwise (hsorted.filter _)), Fields.get?_filter (by simp [*])]
  cases Fields.get? c.userNamespaces.entries name with
  | some v => rfl
  | none =>
    cases c.modulesPath with
    | none =>
      simp (disch := assumption) [Fields.get?_insert_ne]
    | some path =>
      simp (disch := assumption) [Fields.get?_insert_ne]

end Config

end Apcore

/-! ## One value laid over another

`deep_merge_value` goes through the objects of both values key by key; anything else of the overlay
replaces what it is laid over. A path that is in the overlay reads what the base has there, with the
overlay's over it; a path that leaves the objects of the overlay reads the base; and a path below a
leaf of the overlay reads nothing. -/

open Nested

namespace Apcore.Config

theorem get?_mergeFields {fields overlay : List (String × Json)} {key : String}
    (h : (overlay.map (·.1)).Nodup) :
    Fields.get? (deepMergeFields fields overlay) key =
      (Fields.get? overlay key).elim (Fields.get? fields key) fun value =>
        some (mergedChild (Fields.get? fields key) value) := by
  induction overlay generalizing fields with
  | nil => rfl
  | cons entry rest ih =>
    obtain ⟨key', value⟩ := entry
    rw [List.map_cons, List.nodup_cons] at h
    rw [deepMergeFields, deepMergeEntry_eq, ih h.2, Fields.get?_cons]
    by_cases hkey : key' = key
    · subst hkey
      rw [if_pos rfl, Fields.get?_eq_none h.1]
      exact Fields.get?_insert_self ..
    · rw [if_neg hkey, Fields.get?_insert_ne (Ne.symm hkey)]

namespace Value

variable {base overlay leaf v w : Value} {key : String} {path rest other : List String}

/-- What is laid over nothing is as it was. -/
theorem merge_empty (overlay : Value) : merge .empty overlay = overlay :=
  Subtype.ext (mergedChild_none overlay.2).symm

theorem merge_of_not_object (h : overlay.1.isObject = false) : merge base overlay = overlay := by
  obtain ⟨overlay, hoverlay⟩ := overlay
  apply Subtype.ext
  cases overlay with
  | object fields => cases h
  | _ => rfl

theorem nodup_entries (v : Value) : (v.entries.map (·.1)).Nodup :=
  Fields.nodup_of_pairwise v.ordered_entries.1

/-- The entries of an overlay that is an object are merged into those of the base. -/
theorem entries_merge (h : overlay.1.isObject = true) :
    (merge base overlay).entries = deepMergeFields base.entries overlay.entries := by
  obtain ⟨overlay, hoverlay⟩ := overlay
  cases overlay with
  | object fields =>
    have hmerge := deepMergeValue_object base (ordered_object.mp hoverlay).1
    show (deepMergeValue base.1 (.object fields)).asObject?.getD [] = _
    rw [hmerge]
    rfl
  | _ => cases h

theorem child_merge_of_none (h : overlay.1.isObject = true) (hkey : overlay.child key = none) :
    (merge base overlay).child key = base.child key := by
  refine child_congr ?_
  rw [entries_merge h, get?_mergeFields overlay.nodup_entries, child_eq_none_iff.mp hkey]
  rfl

theorem child_merge_of_some (h : overlay.1.isObject = true) (hkey : overlay.child key = some w) :
    (merge base overlay).child key = some (merge ((base.child key).getD .empty) w) := by
  rw [child_eq_some_iff, entries_merge h, get?_mergeFields overlay.nodup_entries,
    child_eq_some_iff.mp hkey]
  refine congrArg some ?_
  cases hchild : base.child key with
  | none =>
    rw [child_eq_none_iff.mp hchild, Option.getD_none, merge_empty]
    rfl
  | some c =>
    rw [child_eq_some_iff.mp hchild]
    rfl

/-- A value with children is an object. -/
theorem isObject_of_child (h : v.child key = some w) : v.1.isObject = true := by
  cases hv : v.1.isObject with
  | true => rfl
  | false =>
    have hnone : v.child key = none := by
      rw [child_eq_none_iff, entries_of_not_object hv]
      rfl
    rw [hnone] at h
    cases h

/-! ## Reading -/

/-- At a place of the overlay, what the base has there has the overlay's over it. -/
theorem read_merge_of_read (h : nested.read path overlay = some w) :
    nested.read path (merge base overlay) =
      some (merge ((nested.read path base).getD .empty) w) := by
  induction path generalizing base overlay with
  | nil =>
    obtain rfl := Option.some.inj h
    rfl
  | cons key path ih =>
    obtain ⟨below, hbelow, hread⟩ := Option.bind_eq_some_iff.mp h
    rw [read_cons, read_cons]
    show ((merge base overlay).child key).bind _ = some (merge (((base.child key).bind _).getD _) w)
    rw [child_merge_of_some (isObject_of_child hbelow) hbelow, Option.bind_some, ih hread]
    cases base.child key with
    | some c => rfl
    | none =>
      cases path with
      | nil => rfl
      | cons key path => rfl

/-- At a place of the overlay, what is written into the base has the overlay's over it. -/
theorem read_merge_write (h : nested.read path overlay = some w) :
    nested.read path (merge (nested.write path v base) overlay) = some (merge v w) := by
  induction path generalizing base overlay with
  | nil =>
    obtain rfl := Option.some.inj h
    rfl
  | cons key path ih =>
    obtain ⟨below, hbelow, hread⟩ := Option.bind_eq_some_iff.mp h
    have hchild : (nested.write (key :: path) v base).child key =
        some (nested.write path v ((base.child key).getD .empty)) := child_put_self _ _ _
    have hmerged : (merge (nested.write (key :: path) v base) overlay).child key =
        some (merge (((nested.write (key :: path) v base).child key).getD .empty) below) :=
      child_merge_of_some (isObject_of_child hbelow) hbelow
    rw [hchild, Option.getD_some] at hmerged
    rw [read_cons]
    show ((merge (nested.write (key :: path) v base) overlay).child key).bind _ = _
    rw [hmerged, Option.bind_some]
    exact ih hread

/-- The path goes through objects of the overlay, and leaves them. -/
def Leaves : List String → Value → Prop
  | [], _ => False
  | key :: path, overlay => overlay.1.isObject = true ∧
    ((overlay.child key).elim True fun below => Leaves path below)

/-- Off the overlay the base is read. -/
theorem read_merge_of_leaves (h : Leaves path overlay) :
    nested.read path (merge base overlay) = nested.read path base := by
  induction path generalizing base overlay with
  | nil => exact absurd h id
  | cons key path ih =>
    obtain ⟨hobject, hbelow⟩ := h
    rw [read_cons, read_cons]
    show ((merge base overlay).child key).bind _ = (base.child key).bind _
    cases hchild : overlay.child key with
    | none => rw [child_merge_of_none hobject hchild]
    | some below =>
      rw [hchild] at hbelow
      have hpath : path ≠ [] := by
        rintro rfl
        exact hbelow
      rw [child_merge_of_some hobject hchild, Option.bind_some]
      refine (ih hbelow).trans ?_
      exact read_getD_blank (n := nested) (base.child key) hpath

theorem read_of_leaves (h : Leaves path v) : nested.read path v = none := by
  have hpath : path ≠ [] := by
    rintro rfl
    exact h
  have hread : nested.read path (merge .empty v) = nested.read path .empty := read_merge_of_leaves h
  rw [merge_empty] at hread
  exact hread.trans (read_blank hpath)

/-- A path that leaves what is laid over a base leaves the overlay. -/
theorem Leaves.of_merge (h : Leaves path (merge base overlay)) (hobject : overlay.1.isObject = true) :
    Leaves path overlay := by
  induction path generalizing base overlay with
  | nil => exact h
  | cons key path ih =>
    refine ⟨hobject, ?_⟩
    cases hchild : overlay.child key with
    | none => trivial
    | some below =>
      have hbelow := h.2
      rw [child_merge_of_some hobject hchild] at hbelow
      cases hkind : below.1.isObject with
      | true => exact ih hbelow hkind
      | false =>
        rw [Option.elim_some, merge_of_not_object hkind] at hbelow
        exact hbelow

theorem read_getD_congr {o o' : Option Value} (h : o.bind (nested.read path) = o'.bind (nested.read path)) :
    nested.read path (o.getD .empty) = nested.read path (o'.getD .empty) := by
  cases path with
  | nil =>
    have hread : ∀ o : Option Value, o.bind (nested.read []) = o := by
      rintro (_ | v)
      · rfl
      · rfl
    rw [hread, hread] at h
    rw [h]
  | cons key path =>
    have hne : key :: path ≠ [] := List.cons_ne_nil _ _
    exact (read_getD_blank (n := nested) o hne).trans
      (h.trans (read_getD_blank (n := nested) o' hne).symm)

/-- What is read of a base with an overlay depends on what is read of the base. -/
theorem read_merge_congr {base' : Value} (h : nested.read path base = nested.read path base') :
    nested.read path (merge base overlay) = nested.read path (merge base' overlay) := by
  cases hoverlay : overlay.1.isObject with
  | false => rw [merge_of_not_object hoverlay, merge_of_not_object hoverlay]
  | true =>
    induction path generalizing base base' overlay with
    | nil =>
      obtain rfl := Option.some.inj h
      rfl
    | cons key path ih =>
      rw [read_cons, read_cons] at h ⊢
      show ((merge base overlay).child key).bind _ = ((merge base' overlay).child key).bind _
      cases hchild : overlay.child key with
      | none =>
        rw [child_merge_of_none hoverlay hchild, child_merge_of_none hoverlay hchild]
        exact h
      | some below =>
        rw [child_merge_of_some hoverlay hchild, child_merge_of_some hoverlay hchild,
          Option.bind_some, Option.bind_some]
        have hbase := read_getD_congr h
        cases hbelow : below.1.isObject with
        | false => rw [merge_of_not_object hbelow, merge_of_not_object hbelow]
        | true => exact ih hbase hbelow

/-- Below a leaf of the overlay there is nothing. -/
theorem read_merge_below (h : nested.read path overlay = some leaf) (hleaf : leaf.1.isObject = false)
    (hrest : rest ≠ []) : nested.read (path ++ rest) (merge base overlay) = none := by
  have hat : ∀ base, nested.read path (merge base overlay) = some leaf := by
    intro base
    induction path generalizing base overlay with
    | nil =>
      obtain rfl := Option.some.inj h
      exact congrArg some (merge_of_not_object hleaf)
    | cons key path ih =>
      obtain ⟨below, hbelow, hread⟩ := Option.bind_eq_some_iff.mp h
      rw [read_cons]
      show ((merge base overlay).child key).bind _ = _
      rw [child_merge_of_some (isObject_of_child hbelow) hbelow, Option.bind_some]
      exact ih hread _
  rw [read_append, hat, Option.bind_some, read_leaf hleaf hrest]

/-- Apart from the place of a write into the base nothing changes. -/
theorem read_merge_write_apart (h : Apart path other) :
    nested.read other (merge (nested.write path v base) overlay) =
      nested.read other (merge base overlay) := by
  cases hoverlay : overlay.1.isObject with
  | false => rw [merge_of_not_object hoverlay, merge_of_not_object hoverlay]
  | true =>
    induction path generalizing other base overlay with
    | nil => exact absurd h not_apart_nil_left
    | cons key path ih =>
      cases other with
      | nil => exact absurd h not_apart_nil_right
      | cons key' other =>
        have hput : ∀ k, (nested.write (key :: path) v base).child k =
            if k = key then some (nested.write path v ((base.child key).getD .empty))
            else base.child k := by
          intro k
          split
          · next hk =>
            subst hk
            exact child_put_self _ _ _
          · next hk => exact child_put_ne hk _ _
        rw [read_cons, read_cons]
        show ((merge (nested.write (key :: path) v base) overlay).child key').bind _ =
          ((merge base overlay).child key').bind _
        by_cases hk : key' = key
        · subst hk
          have hrest := apart_cons.mp h
          have hother : other ≠ [] := fun hnil => not_apart_nil_right (hnil ▸ hrest)
          cases hchild : overlay.child key' with
          | none =>
            rw [child_merge_of_none hoverlay hchild, child_merge_of_none hoverlay hchild, hput,
              if_pos rfl, Option.bind_some, read_write_apart hrest]
            exact read_getD_blank (n := nested) (base.child key') hother
          | some below =>
            rw [child_merge_of_some hoverlay hchild, child_merge_of_some hoverlay hchild, hput,
              if_pos rfl, Option.getD_some, Option.bind_some, Option.bind_some]
            cases hbelow : below.1.isObject with
            | false => rw [merge_of_not_object hbelow, merge_of_not_object hbelow]
            | true => exact ih hrest hbelow
        · cases hchild : overlay.child key' with
          | none =>
            rw [child_merge_of_none hoverlay hchild, child_merge_of_none hoverlay hchild, hput,
              if_neg hk]
          | some below =>
            rw [child_merge_of_some hoverlay hchild, child_merge_of_some hoverlay hchild, hput,
              if_neg hk]

/-- The two overlays have a value at the place and are the same apart from it. -/
def DifferAt : List String → Value → Value → Prop
  | [], _, _ => True
  | key :: path, v, w => (∀ other, other ≠ key → v.child other = w.child other) ∧
    ∃ a b, v.child key = some a ∧ w.child key = some b ∧ DifferAt path a b

theorem read_merge_of_differAt (hdiffer : DifferAt path v w) (h : Apart path other) :
    nested.read other (merge base v) = nested.read other (merge base w) := by
  induction path generalizing other base v w with
  | nil => exact absurd h not_apart_nil_left
  | cons key path ih =>
    cases other with
    | nil => exact absurd h not_apart_nil_right
    | cons key' other =>
      obtain ⟨hsame, a, b, ha, hb, hbelow⟩ := hdiffer
      have hv := isObject_of_child ha
      have hw := isObject_of_child hb
      rw [read_cons, read_cons]
      show ((merge base v).child key').bind _ = ((merge base w).child key').bind _
      by_cases hk : key' = key
      · subst hk
        rw [child_merge_of_some hv ha, child_merge_of_some hw hb, Option.bind_some, Option.bind_some]
        exact ih hbelow (apart_cons.mp h)
      · have hother := hsame key' hk
        cases hchild : w.child key' with
        | none =>
          rw [child_merge_of_none hw hchild, child_merge_of_none hv (hother.trans hchild)]
        | some below =>
          rw [child_merge_of_some hw hchild, child_merge_of_some hv (hother.trans hchild)]

end Value

end Apcore.Config
