import Apcore.Config.WriteBack

/-! # `Config.PlainKeys` — the keys that are read as they are written

A key without a typed field, in a section without a view, is answered by what is written at its
place, then by what is written under `apcore`, then by a default. One write changes the answer only
where it meets one of the two places, or opens the `apcore` block. -/

open Nested

namespace Apcore.Config

/-! ## The constrained keys -/

theorem mem_constrainedKeys {key : String} {constraint : Constraint}
    (h : constraintOf key = some constraint) : key ∈ constrainedKeys.map (·.1) := by
  obtain ⟨entry, hentry, -⟩ := Option.map_eq_some_iff.mp h
  have hkey : entry.1 = key := by simpa using List.find?_some hentry
  exact List.mem_map.mpr ⟨entry, List.mem_of_find?_eq_some hentry, hkey⟩

/-- A key with a constraint is not qualified, and is the key of a typed field or in a section without
any. -/
theorem constrained_cases {key : String} {constraint : Constraint}
    (h : constraintOf key = some constraint) :
    stripLead "apcore." key = none ∧ ((∃ f ∈ TypedField.all, key = f.key ∧ f ≠ .modulesPath) ∨
      TypedField.ofKey? key = none ∧ (segments key).head? ≠ some "executor" ∧
        (segments key).head? ≠ some "observability" ∧
        (segments key).head? ≠ some "modules_path") := by
  have hall : ∀ key ∈ constrainedKeys.map (·.1), stripLead "apcore." key = none ∧
      ((∃ f ∈ TypedField.all, key = f.key ∧ f ≠ .modulesPath) ∨
        TypedField.ofKey? key = none ∧ (segments key).head? ≠ some "executor" ∧
          (segments key).head? ≠ some "observability" ∧
          (segments key).head? ≠ some "modules_path") := by
    decide +kernel
  exact hall key (mem_constrainedKeys h)

theorem TypedField.isSome_read {f : TypedField} (h : f ≠ .modulesPath) (t : TypedFields) :
    (f.read t).isSome := by
  cases f with
  | modulesPath => exact absurd rfl h
  | _ => rfl

theorem get_typed {registry : NamespaceRegistry} {c : Config} {f : TypedField} {v : Value} (h : f.read c.toTypedFields = some v) :
    c.get registry f.key = some v := by
  have htyped : getTypedField c.toTypedFields f.key = some v := by
    unfold getTypedField
    rw [TypedField.ofKey?_key]
    exact h
  rw [get_eq_or, getDirect, htyped]
  rfl

theorem set_typed {c : Config} {key : String} (h : stripLead "apcore." key = none) (value : Value) :
    (c.set key value).toTypedFields =
      (setTypedField c.toTypedFields key value).getD c.toTypedFields := by
  unfold set
  rw [h]

/-! ## The keys that are read as written -/

/-- What is written decides the answer for the key. -/
@[mk_iff]
structure Plain (key : String) : Prop where
  untyped : TypedField.ofKey? key = none
  untypedQualified : TypedField.ofKey? (qualified key) = none
  notObservability : stripNamespace key "observability" = none
  notExecutor : stripNamespace key "executor" = none
  ne : key ≠ "apcore"
  unqualified : stripLead "apcore." key = none
  ends : (segments key).getLast? ≠ some ""

/-- What `get` answers for a key that is not written. -/
def later (registry : NamespaceRegistry) (c : Config) (key : String) : Option Value :=
  (if c.mode = .namespaced then registeredNamespaceDefault registry key else none).or (defaultFor key)

theorem later_eq {registry : NamespaceRegistry} {c c' : Config} (hmode : c'.mode = c.mode)
    (key : String) : c'.later registry key = c.later registry key := by
  unfold later
  rw [hmode]

/-- A write opens an `apcore` block only under a qualified key. -/
theorem child_apcore_of_write {c c' : Config} {key : String} {v : Value}
    (hdocument : c'.userNamespaces = Value.nested.write (segments key) v c.userNamespaces) :
    (c'.userNamespaces.child "apcore").isSome ↔ (segments key).head? = some "apcore" ∨
      (c.userNamespaces.child "apcore").isSome := by
  cases hsegments : segments key with
  | nil => exact absurd hsegments (segments_ne_nil key)
  | cons name rest =>
    rw [hsegments] at hdocument
    rw [hdocument, write_cons, List.head?_cons, Option.some.injEq]
    by_cases hname : name = "apcore"
    · subst hname
      simp [Value.nested]
    · have hother := Value.child_put_ne (Ne.symm hname)
      simp [Value.nested, hother, hname]

namespace Plain

variable {registry : NamespaceRegistry} {c c' : Config} {key other : String}

theorem impliesApcore_iff (h : Plain key) : c.impliesApcore key = true ↔
    c.mode = .namespaced ∧ (c.userNamespaces.child "apcore").isSome := by
  unfold impliesApcore
  simp [h.ne, h.unqualified]

theorem fallback_eq (h : Plain key) : c.fallback registry key =
    (if c.impliesApcore key then c.getAsWritten registry (qualified key) else none).or
      (c.later registry key) := by
  unfold fallback
  rw [getDirect_qualified]
  unfold getTypedField
  rw [h.untypedQualified]
  rfl

theorem get_eq (h : Plain key) : c.get registry key =
    (c.getAsWritten registry key).or (c.fallback registry key) := by
  rw [get_eq_or, getDirect_of_strip_none h.notObservability h.notExecutor]
  unfold getTypedField
  rw [h.untyped]
  rfl

theorem get_eq_written (h : Plain key) : c.get registry key =
    (c.getAsWritten registry key).or
      ((if c.impliesApcore key then c.getAsWritten registry (qualified key) else none).or
        (c.later registry key)) := by
  rw [h.get_eq, h.fallback_eq]

theorem segments_ne (h : Plain key) (ns : String) : segments key ≠ [ns, ""] := by
  intro heq
  apply h.ends
  rw [heq]
  rfl

theorem segments_qualified_ne (h : Plain key) (ns : String) :
    segments (qualified key) ≠ [ns, ""] := by
  intro heq
  rw [segments_qualified] at heq
  apply h.ends
  rw [(List.cons.inj heq).2]
  rfl

theorem head_ne (h : Plain key) : (segments key).head? ≠ some "apcore" := by
  rw [ne_eq, head_segments_iff (by decide)]
  rintro (heq | ⟨rest, heq⟩)
  · exact h.ne heq
  · have hstrip : stripLead "apcore." key = some rest := stripLead_eq_some.mpr heq
    rw [h.unqualified] at hstrip
    cases hstrip

/-- A write that meets the place of the key is not under `apcore`. -/
theorem head_ne_of_not_apart (h : Plain key)
    (hreach : ¬ Apart (segments other) (writtenPath registry key)) :
    (segments other).head? ≠ some "apcore" := by
  have hpath := (writtenPath_of_not_apart hreach).resolve_right fun ⟨ns, hns⟩ => h.segments_ne ns hns
  rw [hpath] at hreach
  intro hhead
  apply h.head_ne
  cases hother : segments other with
  | nil => exact absurd hother (segments_ne_nil other)
  | cons name rest =>
    cases hkey : segments key with
    | nil => exact absurd hkey (segments_ne_nil key)
    | cons name' rest' =>
      rw [hother, hkey] at hreach
      rw [hother] at hhead
      obtain rfl : name = name' := not_not.mp fun hne => hreach (apart_of_ne hne)
      exact hhead

/-- A write that meets the place of the qualified key is under `apcore`. -/
theorem head_of_not_apart (h : Plain key)
    (hreach : ¬ Apart (segments other) (writtenPath registry (qualified key))) :
    (segments other).head? = some "apcore" := by
  have hpath := (writtenPath_of_not_apart hreach).resolve_right fun ⟨ns, hns⟩ =>
    h.segments_qualified_ne ns hns
  rw [hpath, segments_qualified] at hreach
  cases hsegments : segments other with
  | nil => exact absurd hsegments (segments_ne_nil other)
  | cons name rest =>
    rw [hsegments] at hreach
    have hname : name = "apcore" := not_not.mp fun hne => hreach (apart_of_ne hne)
    rw [hname]
    rfl

end Plain

/-- A key with a constraint and without a typed field is one of them. -/
theorem plain_of_constrained {key : String} {constraint : Constraint}
    (h : constraintOf key = some constraint) (huntyped : TypedField.ofKey? key = none) :
    Plain key := by
  have hall : ∀ key ∈ constrainedKeys.map (·.1), TypedField.ofKey? key = none → Plain key := by
    simp only [plain_iff]
    decide +kernel
  exact hall key (mem_constrainedKeys h) huntyped

/-! ## One write -/

section OneWrite

variable {registry : NamespaceRegistry} {c c' : Config} {key other : String} {v : Value}
variable (hplain : Plain key) (hmode : c'.mode = c.mode)
variable (hdocument : c'.userNamespaces = Value.nested.write (segments other) v c.userNamespaces)
include hplain hmode hdocument

/-- Only a write under `apcore` changes what `get` falls back to. -/
theorem fallback_eq_of_head (hhead : (segments other).head? ≠ some "apcore") :
    c'.fallback registry key = c.fallback registry key := by
  have himplies : c'.impliesApcore key = c.impliesApcore key := by
    rw [Bool.eq_iff_iff, hplain.impliesApcore_iff, hplain.impliesApcore_iff, hmode,
      child_apcore_of_write hdocument]
    simp [hhead]
  have hqualified : c'.getAsWritten registry (qualified key) =
      c.getAsWritten registry (qualified key) := by
    have hapart : Apart (segments other) (writtenPath registry (qualified key)) :=
      not_not.mp fun hreach => hhead (hplain.head_of_not_apart hreach)
    unfold getAsWritten
    rw [hdocument]
    exact read_write_apart hapart
  rw [hplain.fallback_eq, hplain.fallback_eq, himplies, hqualified, later_eq hmode]

omit hmode in
/-- A key that the write does not meet, with an answer of its own, keeps it. -/
theorem get_eq_of_written {answer : Value} (hwritten : c.getAsWritten registry key = some answer)
    (hapart : Apart (segments other) (writtenPath registry key)) :
    c'.get registry key = c.get registry key := by
  have hown : c'.getAsWritten registry key = some answer := by
    rw [← hwritten]
    unfold getAsWritten
    rw [hdocument]
    exact read_write_apart hapart
  rw [hplain.get_eq, hplain.get_eq, hown, hwritten]
  rfl

end OneWrite

/-! ## What a write may put under a key -/

/-- Of what is read at `path` once `w` is written at `place`, or else is `otherwise`, the values have
`Q`. -/
structure Shown (path place : List String) (w : Value) (otherwise : Option Value)
    (Q : Value → Prop) : Prop where
  above : ∀ rest, path = place ++ rest →
    ∀ v, (Value.nested.read rest w).or otherwise = some v → Q v
  below : ∀ rest, place = path ++ rest → rest ≠ [] → ∀ v : Value, v.1.isObject = true → Q v

/-- A write that meets a path shows there what it may show. -/
theorem Shown.admits {path place : List String} {w document : Value} {otherwise : Option Value}
    {Q : Value → Prop} (h : Shown path place w otherwise Q) (hreach : ¬ Apart place path) {v : Value}
    (hread : (Value.nested.read path (Value.nested.write place w document)).or otherwise = some v) :
    Q v := by
  by_cases habove : place <+: path
  · obtain ⟨rest, rfl⟩ := habove
    rw [read_write_append] at hread
    exact h.above rest rfl v hread
  · obtain ⟨rest, rfl⟩ := not_not.mp fun hbelow => hreach ⟨habove, hbelow⟩
    have hrest : rest ≠ [] := by
      rintro rfl
      rw [List.append_nil] at habove
      exact habove List.prefix_rfl
    rw [read_write_above] at hread
    obtain rfl := Option.some.inj hread
    exact h.below rest rfl hrest _ (isObject_write hrest _ _)

/-- The value written at a place is one that a key admits: at its own place; at the place under
`apcore`, where that is looked at; and where the write opens the `apcore` block, what is written
there under the key. -/
structure Fits (registry : NamespaceRegistry) (c : Config) (place : List String) (w : Value)
    (Q : Value → Prop) (key : String) : Prop where
  own : Shown (writtenPath registry key) place w (c.fallback registry key) Q
  implied : c.mode = .namespaced → place.head? = some "apcore" → c.getAsWritten registry key = none →
    Shown (writtenPath registry (qualified key)) place w (c.later registry key) Q
  opened : c.mode = .namespaced → place.head? = some "apcore" → c.getAsWritten registry key = none →
    c.userNamespaces.child "apcore" = none →
    Apart place (writtenPath registry (qualified key)) →
    ∀ v, c.getAsWritten registry (qualified key) = some v → Q v

section FitsAdmits

variable {registry : NamespaceRegistry} {c c' : Config} {key other : String} {w : Value}
variable {Q : Value → Prop} (h : Fits registry c (segments other) w Q key) (hplain : Plain key)
variable (hmode : c'.mode = c.mode)
variable (hdocument : c'.userNamespaces = Value.nested.write (segments other) w c.userNamespaces)
variable (hbefore : ∀ v, c.get registry key = some v → Q v)
include h hplain hmode hdocument hbefore

/-- A write under `apcore` leaves an admitted answer to a key that is not written itself. -/
theorem Fits.admits_implied (hnamespaced : c.mode = .namespaced)
    (hhead : (segments other).head? = some "apcore")
    (hwritten : c.getAsWritten registry key = none) :
    ∀ v, c'.fallback registry key = some v → Q v := by
  intro v hv
  have hget : c.get registry key = c.fallback registry key := by
    rw [hplain.get_eq, hwritten, Option.none_or]
  have himplies : c'.impliesApcore key = true :=
    hplain.impliesApcore_iff.mpr
      ⟨hmode.trans hnamespaced, (child_apcore_of_write hdocument).mpr (.inl hhead)⟩
  rw [hplain.fallback_eq, himplies, if_pos rfl, later_eq hmode, getAsWritten, hdocument] at hv
  by_cases hapart : Apart (segments other) (writtenPath registry (qualified key))
  · rw [read_write_apart hapart] at hv
    cases hblock : c.userNamespaces.child "apcore" with
    | some block =>
      -- the block was looked at before
      have himplied : c.impliesApcore key = true :=
        hplain.impliesApcore_iff.mpr ⟨hnamespaced, by rw [hblock]; rfl⟩
      apply hbefore
      rw [hget, hplain.fallback_eq, himplied, if_pos rfl]
      exact hv
    | none =>
      cases hqualified : c.getAsWritten registry (qualified key) with
      | some answer =>
        have hanswer := hqualified
        rw [getAsWritten] at hanswer
        rw [hanswer, Option.some_or] at hv
        obtain rfl := Option.some.inj hv
        exact h.opened hnamespaced hhead hwritten hblock hapart _ hqualified
      | none =>
        have hanswer := hqualified
        rw [getAsWritten] at hanswer
        rw [hanswer, Option.none_or] at hv
        apply hbefore
        rw [hget, hplain.fallback_eq, hqualified, ite_self, Option.none_or]
        exact hv
  · exact (h.implied hnamespaced hhead hwritten).admits hapart hv

/-- **A key whose answer is admitted has an admitted answer after a write that fits.** -/
theorem Fits.admits : ∀ v, c'.get registry key = some v → Q v := by
  intro v hv
  rw [hplain.get_eq] at hv
  by_cases hown : Apart (segments other) (writtenPath registry key)
  · cases hwritten : c.getAsWritten registry key with
    | some answer =>
      apply hbefore
      rw [← get_eq_of_written hplain hdocument hwritten hown, hplain.get_eq]
      exact hv
    | none =>
      have hunwritten : c'.getAsWritten registry key = none := by
        unfold getAsWritten
        rw [hdocument, read_write_apart hown]
        exact hwritten
      rw [hunwritten, Option.none_or] at hv
      have hget : c.get registry key = c.fallback registry key := by
        rw [hplain.get_eq, hwritten, Option.none_or]
      by_cases hhead : (segments other).head? = some "apcore"
      · by_cases hnamespaced : c.mode = .namespaced
        · exact h.admits_implied hplain hmode hdocument hbefore hnamespaced hhead hwritten v hv
        · have hnot : ∀ d : Config, d.mode = c.mode → d.impliesApcore key = false := by
            intro d hd
            rw [← Bool.not_eq_true, hplain.impliesApcore_iff, hd]
            exact fun hboth => hnamespaced hboth.1
          apply hbefore
          rw [hplain.fallback_eq, hnot c' hmode, later_eq hmode] at hv
          rw [hget, hplain.fallback_eq, hnot c rfl]
          exact hv
      · apply hbefore
        rw [hget, ← fallback_eq_of_head hplain hmode hdocument hhead]
        exact hv
  · rw [fallback_eq_of_head hplain hmode hdocument (hplain.head_ne_of_not_apart hown),
      getAsWritten, hdocument] at hv
    exact h.own.admits hown hv

end FitsAdmits

end Apcore.Config
