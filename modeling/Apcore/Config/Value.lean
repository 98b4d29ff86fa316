import Apcore.Lib.Nested
import Apcore.Schema.Keys
import Apcore.SysModules.Yaml

/-! # `Config.Value` — the values a configuration holds

A `serde_json::Value` with its objects in order. The members of an object are its children; a value
that is no object has none, and is replaced by an object where a member is put. -/

namespace Apcore

/-- `as_i64`. -/
def Json.asI64? : Json → Option Int
  | .number (.posInt n) => if n.toNat < 2 ^ 63 then some n.toNat else none
  | .number (.negInt n) => some n
  | _ => none

/-- `n as f64`, to the nearest double and to the even one of two. -/
def natToDouble (n : Nat) : Nat :=
  let shift := n.log2 + 1 - 53
  if shift = 0 then n
  else
    let quotient := n / 2 ^ shift
    let rest := n % 2 ^ shift
    let half := 2 ^ (shift - 1)
    if rest > half ∨ (rest = half ∧ quotient % 2 = 1) then (quotient + 1) * 2 ^ shift
    else quotient * 2 ^ shift

def intToDouble (n : Int) : ℚ := if 0 ≤ n then natToDouble n.toNat else -natToDouble (-n).toNat

/-- `as_f64`. -/
def Json.asF64? : Json → Option ℚ
  | .number (.posInt n) => some (natToDouble n.toNat)
  | .number (.negInt n) => some (intToDouble n)
  | .number (.float q) => some q
  | _ => none

namespace Config

/-- A value as `serde_json` has it. -/
abbrev Value := { v : Json // v.Ordered }

namespace Value

def null : Value := ⟨.null, by simp [Json.Ordered]⟩

def bool (b : Bool) : Value := ⟨.bool b, by simp [Json.Ordered]⟩

def number (n : Number) : Value := ⟨.number n, by simp [Json.Ordered]⟩

def string (s : String) : Value := ⟨.string s, by simp [Json.Ordered]⟩

/-- The entries of an object, and none of another value. -/
def entries (v : Value) : List (String × Json) := v.1.asObject?.getD []

theorem ordered_entries (v : Value) :
    v.entries.Pairwise (·.1 < ·.1) ∧ ∀ entry ∈ v.entries, entry.2.Ordered := by
  obtain ⟨v, hv⟩ := v
  unfold entries
  cases v with
  | object fields =>
    rw [Json.Ordered] at hv
    exact ⟨hv.1, orderedEntries_iff.mp hv.2⟩
  | _ => exact ⟨List.Pairwise.nil, fun entry hentry => by cases hentry⟩

/-- The object with these entries, put in order one by one. -/
def ofEntries (entries : List (String × Value)) : Value :=
  ⟨.object (Fields.ofList (entries.map fun entry => (entry.1, entry.2.1))), by
    have hordered := @ordered_foldl_insert _ [] ⟨List.Pairwise.nil, by simp⟩
      (fun entry (hentry : entry ∈ entries.map fun entry => (entry.1, entry.2.1)) => by
        obtain ⟨other, _, rfl⟩ := List.mem_map.mp hentry
        exact other.2.2)
    rw [Json.Ordered, orderedEntries_iff]
    exact hordered⟩

theorem ordered_get? {fields : List (String × Json)} (h : ∀ entry ∈ fields, entry.2.Ordered)
    {key : String} : ∀ v, Fields.get? fields key = some v → v.Ordered := by
  intro v hv
  obtain ⟨entry, hentry, rfl⟩ := Option.map_eq_some_iff.mp hv
  exact h entry (List.mem_of_find?_eq_some hentry)

/-- `value.get(key)`. -/
def child (v : Value) (key : String) : Option Value :=
  (Fields.get? v.entries key).pmap Subtype.mk (ordered_get? v.ordered_entries.2)

/-- `value[key] = child`, where what is no object becomes one. -/
def put (key : String) (child v : Value) : Value :=
  ⟨.object (Fields.insert key child.1 v.entries), by
    rw [Json.Ordered, orderedEntries_iff]
    refine ⟨Fields.pairwise_insert v.ordered_entries.1, fun entry hentry => ?_⟩
    rcases Fields.mem_insert hentry with rfl | hentry
    · exact child.2
    · exact v.ordered_entries.2 entry hentry⟩

def emptyArray : Value := ⟨.array [], by simp [Json.Ordered, Json.OrderedAll]⟩

def empty : Value := ⟨.object [], by simp [Json.Ordered, Json.OrderedEntries]⟩

theorem child_eq_some_iff {v c : Value} {key : String} :
    v.child key = some c ↔ Fields.get? v.entries key = some c.1 := by
  rw [child, Option.pmap_eq_some_iff]
  constructor
  · rintro ⟨a, ha, hget, rfl⟩
    exact hget
  · exact fun h => ⟨c.1, c.2, h, rfl⟩

theorem child_eq_none_iff {v : Value} {key : String} :
    v.child key = none ↔ Fields.get? v.entries key = none := by
  rw [child, Option.pmap_eq_none_iff]

theorem child_congr {v w : Value} {key other : String}
    (h : Fields.get? v.entries key = Fields.get? w.entries other) : v.child key = w.child other := by
  ext1 c
  rw [child_eq_some_iff, child_eq_some_iff, h]

end Value

end Config

/-! ## Entries put again -/

namespace Fields

variable {α : Type} {key other : String} {fields : List (String × α)}

/-- What is there already is put where it is. -/
theorem insert_of_get? (hsorted : fields.Pairwise (·.1 < ·.1)) {v : α}
    (h : get? fields key = some v) : insert key v fields = fields := by
  induction fields with
  | nil => cases h
  | cons entry rest ih =>
    obtain ⟨hentry, hrest⟩ := List.pairwise_cons.mp hsorted
    rw [get?_cons] at h
    by_cases heq : entry.1 = key
    · rw [if_pos heq] at h
      obtain rfl := Option.some.inj h
      rw [← heq, insert, if_neg (lt_irrefl _), if_pos rfl]
    · rw [if_neg heq] at h
      obtain ⟨other, hother, -⟩ := Option.map_eq_some_iff.mp h
      have hlt : entry.1 < key := by
        have hfound := hentry other (List.mem_of_find?_eq_some hother)
        have hkey : other.1 = key := by simpa using List.find?_some hother
        rwa [hkey] at hfound
      rw [insert, if_neg (lt_asymm hlt), if_neg (fun hk => heq hk.symm), ih hrest h]

end Fields

namespace Config

namespace Value

/-- Objects in objects. -/
def nested : Nested String Value where
  child := child
  put := put
  blank := empty
  child_blank := fun _ => child_eq_none_iff.mpr rfl
  child_put_self := fun k c t => child_eq_some_iff.mpr (Fields.get?_insert_self k c.1 t.entries)
  child_put_ne := fun hne c t => child_congr (Fields.get?_insert_ne hne c.1 t.entries)
  put_put := fun k c c' t => Subtype.ext (congrArg Json.object (Fields.insert_insert c.1 c'.1))
  put_comm := fun hne c c' t => Subtype.ext (congrArg Json.object (Fields.insert_comm hne c.1 c'.1))
  put_child := by
    intro k c t hchild
    obtain ⟨t, ht⟩ := t
    have hget := child_eq_some_iff.mp hchild
    have hsorted := (ordered_entries ⟨t, ht⟩).1
    apply Subtype.ext
    cases t with
    | object fields => exact congrArg Json.object (Fields.insert_of_get? hsorted hget)
    | _ => cases hget

@[simp] theorem child_put_self (key : String) (c v : Value) : (put key c v).child key = some c :=
  nested.child_put_self key c v

theorem child_put_ne {key other : String} (hne : other ≠ key) (c v : Value) :
    (put key c v).child other = v.child other :=
  nested.child_put_ne hne c v

/-- An object is its entries put one by one. -/
theorem ofEntries_eq (entries : List (String × Value)) :
    ofEntries entries = entries.foldl (fun v entry => put entry.1 entry.2 v) empty := by
  have hfold : ∀ v : Value, v.1.isObject = true →
      (entries.foldl (fun v entry => put entry.1 entry.2 v) v).1 =
        .object ((entries.map fun entry => (entry.1, entry.2.1)).foldl
          (fun fields entry => Fields.insert entry.1 entry.2 fields) v.entries) := by
    induction entries with
    | nil =>
      rintro ⟨v, hv⟩ hobject
      cases v with
      | object fields => rfl
      | _ => cases hobject
    | cons entry rest ih =>
      intro v _
      exact ih (put entry.1 entry.2 v) rfl
  exact Subtype.ext (hfold empty rfl).symm

end Value

/-! ## Merging -/

mutual

/-- `deep_merge_value`. -/
def deepMergeValue (base : Json) : Json → Json
  | .object overlay => match base with
    | .object fields => .object (deepMergeFields fields overlay)
    | _ => .object overlay
  | value => value

/-- The loop over the entries of the overlay. -/
def deepMergeFields (fields : List (String × Json)) : List (String × Json) → List (String × Json)
  | [] => fields
  | entry :: rest => deepMergeFields (deepMergeEntry fields entry) rest

def deepMergeEntry (fields : List (String × Json)) : String × Json → List (String × Json)
  | (key, value) => Fields.insert key
    (match Fields.get? fields key with
      | some existing => deepMergeValue existing value
      | none => value) fields

end

/-- What an entry of the overlay becomes. -/
def mergedChild (existing : Option Json) (value : Json) : Json :=
  existing.elim value (deepMergeValue · value)

theorem deepMergeEntry_eq (fields : List (String × Json)) (entry : String × Json) :
    deepMergeEntry fields entry =
      Fields.insert entry.1 (mergedChild (Fields.get? fields entry.1) entry.2) fields := by
  rw [deepMergeEntry]
  cases Fields.get? fields entry.1 with
  | none => rfl
  | some existing => rfl

def OrderedFields (fields : List (String × Json)) : Prop :=
  fields.Pairwise (·.1 < ·.1) ∧ ∀ entry ∈ fields, entry.2.Ordered

theorem OrderedFields.insert {fields : List (String × Json)} (h : OrderedFields fields) {v : Json}
    (hv : v.Ordered) (key : String) : OrderedFields (Fields.insert key v fields) := by
  refine ⟨Fields.pairwise_insert h.1, fun entry hentry => ?_⟩
  rcases Fields.mem_insert hentry with rfl | hentry
  · exact hv
  · exact h.2 entry hentry

theorem ordered_object {fields : List (String × Json)} :
    (Json.object fields).Ordered ↔ OrderedFields fields := by
  rw [Json.Ordered, orderedEntries_iff]
  exact Iff.rfl

mutual

/-- Ordered values merge to an ordered one. -/
theorem ordered_deepMergeValue : ∀ {overlay : Json} (base : Json), base.Ordered → overlay.Ordered →
    (deepMergeValue base overlay).Ordered
  | .object overlay, base, hbase, h => by
    have hoverlay := ordered_object.mp h
    cases base with
    | object fields =>
      rw [deepMergeValue]
      exact ordered_object.mpr
        (ordered_deepMergeFields fields (ordered_object.mp hbase) hoverlay.2)
    | _ =>
      rw [deepMergeValue]
      · exact h
      · simp
  | .null, _, _, h | .bool _, _, _, h | .number _, _, _, h | .string _, _, _, h
  | .array _, _, _, h => by
    rw [deepMergeValue]
    · exact h
    all_goals simp

theorem ordered_deepMergeFields : ∀ {overlay : List (String × Json)} (fields : List (String × Json)),
    OrderedFields fields → (∀ entry ∈ overlay, entry.2.Ordered) →
    OrderedFields (deepMergeFields fields overlay)
  | [], fields, hfields, _ => by
    rw [deepMergeFields]
    exact hfields
  | entry :: rest, fields, hfields, h => by
    obtain ⟨hentry, hrest⟩ := List.forall_mem_cons.mp h
    rw [deepMergeFields]
    exact ordered_deepMergeFields _ (ordered_deepMergeEntry fields hfields hentry) hrest

theorem ordered_deepMergeEntry : ∀ {entry : String × Json} (fields : List (String × Json)),
    OrderedFields fields → entry.2.Ordered → OrderedFields (deepMergeEntry fields entry)
  | (key, value), fields, hfields, h => by
    rw [deepMergeEntry_eq]
    apply hfields.insert
    unfold mergedChild
    cases hget : Fields.get? fields key with
    | none => exact h
    | some existing =>
      exact ordered_deepMergeValue existing (Value.ordered_get? hfields.2 existing hget) h

end

namespace Value

/-- `deep_merge_value`, on values in order. -/
def merge (base overlay : Value) : Value :=
  ⟨deepMergeValue base.1 overlay.1, ordered_deepMergeValue base.1 base.2 overlay.2⟩

end Value

/-- Entries that are new are put as they are. -/
theorem deepMergeFields_append {acc overlay : List (String × Json)}
    (h : (acc ++ overlay).Pairwise (·.1 < ·.1)) : deepMergeFields acc overlay = acc ++ overlay := by
  induction overlay generalizing acc with
  | nil => rw [deepMergeFields, List.append_nil]
  | cons entry rest ih =>
    have hlast : ∀ e ∈ acc, e.1 < entry.1 := fun e he =>
      (List.pairwise_append.mp h).2.2 e he entry List.mem_cons_self
    have hget : Fields.get? acc entry.1 = none := by
      rw [Fields.get?, Option.map_eq_none_iff, List.find?_eq_none]
      intro e he
      simpa using ne_of_lt (hlast e he)
    have happend : acc ++ entry :: rest = acc ++ [entry] ++ rest := by simp
    rw [deepMergeFields, deepMergeEntry_eq, hget, mergedChild, Option.elim_none,
      Fields.insert_of_lt hlast, happend]
    exact ih (happend ▸ h)

theorem deepMergeValue_object (base : Value) {overlay : List (String × Json)}
    (h : overlay.Pairwise (·.1 < ·.1)) :
    deepMergeValue base.1 (.object overlay) = .object (deepMergeFields base.entries overlay) := by
  obtain ⟨base, hbase⟩ := base
  have hfresh : deepMergeFields [] overlay = overlay := deepMergeFields_append h
  cases base with
  | object fields =>
    rw [deepMergeValue]
    rfl
  | _ =>
    rw [deepMergeValue]
    · exact congrArg Json.object hfresh.symm
    · simp

/-- What is put under a key of the overlay does not show, if it merges like what was there. -/
theorem deepMergeFields_insert {overlay fields : List (String × Json)} {key : String}
    {existing value : Json} (hkey : Fields.get? overlay key = some value)
    (hmerge : deepMergeValue existing value = mergedChild (Fields.get? fields key) value) :
    deepMergeFields (Fields.insert key existing fields) overlay = deepMergeFields fields overlay := by
  induction overlay generalizing fields with
  | nil => cases hkey
  | cons entry rest ih =>
    obtain ⟨k, v⟩ := entry
    rw [Fields.get?_cons] at hkey
    rw [deepMergeFields, deepMergeFields, deepMergeEntry_eq, deepMergeEntry_eq]
    by_cases hk : k = key
    · subst hk
      obtain rfl := Option.some.inj ((if_pos rfl).symm.trans hkey)
      rw [Fields.get?_insert_self, ← hmerge, Fields.insert_insert]
      rfl
    · rw [if_neg hk] at hkey
      rw [Fields.get?_insert_ne hk, Fields.insert_comm hk]
      refine ih hkey ?_
      rw [Fields.get?_insert_ne (Ne.symm hk)]
      exact hmerge

theorem mergedChild_none {value : Json} (h : value.Ordered) :
    mergedChild none value = deepMergeValue Value.empty.1 value := by
  cases value with
  | object fields =>
    have hfresh : deepMergeFields [] fields = fields :=
      deepMergeFields_append (ordered_object.mp h).1
    rw [deepMergeValue_object _ (ordered_object.mp h).1]
    exact congrArg Json.object hfresh.symm
  | _ => rfl

/-- A leaf of the overlay that is written into the base as well does not show. -/
theorem Value.merge_write {path : List String} {leaf base overlay : Value}
    (hleaf : leaf.1.isObject = false) (h : nested.read path overlay = some leaf) :
    merge (nested.write path leaf base) overlay = merge base overlay := by
  apply Subtype.ext
  induction path generalizing base overlay with
  | nil =>
    obtain rfl := Option.some.inj h
    obtain ⟨overlay, hoverlay⟩ := overlay
    cases overlay with
    | object fields => cases hleaf
    | _ => rfl
  | cons key path ih =>
    obtain ⟨value, hvalue, hread⟩ := Option.bind_eq_some_iff.mp h
    have hget := child_eq_some_iff.mp hvalue
    obtain ⟨overlay, hoverlay⟩ := overlay
    cases overlay with
    | object fields =>
      have hsorted := (ordered_object.mp hoverlay).1
      have hmerged : ∀ child : Value, deepMergeValue (nested.write path leaf child).1 value.1 =
          deepMergeValue child.1 value.1 := fun child => ih hread
      have hbelow : deepMergeValue (nested.write path leaf ((base.child key).getD empty)).1 value.1 =
          mergedChild (Fields.get? base.entries key) value.1 := by
        rw [hmerged]
        cases hchild : base.child key with
        | none => rw [child_eq_none_iff.mp hchild, mergedChild_none value.2, Option.getD_none]
        | some child =>
          rw [child_eq_some_iff.mp hchild]
          rfl
      calc deepMergeValue (nested.write (key :: path) leaf base).1 (.object fields)
        _ = .object (deepMergeFields (nested.write (key :: path) leaf base).entries fields) :=
          deepMergeValue_object _ hsorted
        _ = .object (deepMergeFields base.entries fields) :=
          congrArg _ (deepMergeFields_insert hget hbelow)
        _ = deepMergeValue base.1 (.object fields) := (deepMergeValue_object base hsorted).symm
    | _ => cases hget

end Config

end Apcore
