import Apcore.ContextCodec
import Apcore.Lib.Fallible
import Apcore.Module
import Apcore.Schema.Keys
import Mathlib.Data.List.Induction

/-! # `ModuleRecords` — annotations and predicted changes on the wire

The encoders of `ModuleAnnotations` and of `Change` are derived; one nests the extension map under
`extra`, the other flattens it. The decoders take the members of an object as they come, in any order
and a key more than once. A value of a member is what `serde_json` makes of its text. -/

namespace Apcore

namespace Fields

variable {α : Type}

/-- The value of the last member of a key. -/
def last (members : List (String × α)) (key : String) : Option α := get? members.reverse key

theorem last_concat (members : List (String × α)) (key other : String) (v : α) :
    last (members ++ [(key, v)]) other = if key = other then some v else last members other := by
  rw [last, List.reverse_append]
  exact get?_cons other (key, v) members.reverse

/-- Where no key comes twice, the order of the members does not matter. -/
theorem get?_of_perm {members fields : List (String × α)} (hkeys : (fields.map (·.1)).Nodup)
    (hperm : members.Perm fields) (key : String) : get? members key = get? fields key := by
  have hnodup : (members.map (·.1)).Nodup := (hperm.map _).nodup_iff.mpr hkeys
  by_cases hmem : key ∈ fields.map (·.1)
  · obtain ⟨entry, hentry, rfl⟩ := List.mem_map.mp hmem
    rw [get?_of_mem hnodup (hperm.mem_iff.mpr hentry), get?_of_mem hkeys hentry]
  · rw [get?_eq_none hmem, get?_eq_none]
    exact fun h => hmem ((hperm.map _).mem_iff.mp h)

theorem last_of_perm {members fields : List (String × α)} (hkeys : (fields.map (·.1)).Nodup)
    (hperm : members.Perm fields) (key : String) : last members key = get? fields key :=
  get?_of_perm hkeys (members.reverse_perm.trans hperm) key

theorem get?_append (fields rest : List (String × α)) (key : String) :
    get? (fields ++ rest) key = (get? fields key).or (get? rest key) := by
  rw [get?, List.find?_append, Option.map_or]
  rfl

/-- What is inserted member by member is read back as the last of its key. -/
theorem get?_collect (members acc : List (String × α)) (key : String) :
    get? (members.foldl (fun acc entry => insert entry.1 entry.2 acc) acc) key =
      (last members key).or (get? acc key) := by
  induction members using List.reverseRecOn with
  | nil => rfl
  | append_singleton members entry ih =>
    rw [List.foldl_append, last_concat]
    by_cases hkey : entry.1 = key
    · subst hkey
      rw [if_pos rfl]
      exact get?_insert_self _ _ _
    · rw [if_neg hkey, ← ih]
      exact get?_insert_ne (Ne.symm hkey) _ _

theorem pairwise_collect {acc : List (String × α)} (hacc : acc.Pairwise (·.1 < ·.1))
    (members : List (String × α)) :
    (members.foldl (fun acc entry => insert entry.1 entry.2 acc) acc).Pairwise (·.1 < ·.1) := by
  induction members generalizing acc with
  | nil => exact hacc
  | cons entry rest ih => exact ih (pairwise_insert hacc)

end Fields

/-! ## Members one after the other -/

section Visiting

variable {S E : Type} {member : S → String → Json → Except E S}

/-- `visit_map`, from where it stands. -/
def visitMap (member : S → String → Json → Except E S) (s : S) (members : List (String × Json)) :
    Except E S :=
  members.foldlM (fun s entry => member s entry.1 entry.2) s

/-- What holds at the start, and after every member of those before it, holds at the end. -/
theorem visitMap_induction {I : List (String × Json) → S → Prop} {s t : S}
    {members : List (String × Json)} (hinit : I [] s)
    (hstep : ∀ members s key v t, I members s → member s key v = .ok t → I (members ++ [(key, v)]) t)
    (h : visitMap member s members = .ok t) : I members t := by
  induction members using List.reverseRecOn generalizing t with
  | nil =>
    cases h
    exact hinit
  | append_singleton members entry ih =>
    rw [visitMap, List.foldlM_append] at h
    cases hfront : visitMap member s members with
    | error e =>
      rw [visitMap] at hfront
      rw [hfront] at h
      cases h
    | ok m =>
      have hm := ih hfront
      rw [visitMap] at hfront
      rw [hfront] at h
      have hlast : member m entry.1 entry.2 = .ok t := by
        rw [← h]
        show member m entry.1 entry.2 = member m entry.1 entry.2 >>= pure
        exact (bind_pure _).symm
      exact hstep members m entry.1 entry.2 t hm hlast

/-- Members that are each taken are taken together. -/
theorem visitMap_ok {members : List (String × Json)}
    (hall : ∀ entry ∈ members, ∀ s, ∃ t, member s entry.1 entry.2 = .ok t) (s : S) :
    ∃ t, visitMap member s members = .ok t := by
  induction members generalizing s with
  | nil => exact ⟨s, rfl⟩
  | cons entry rest ih =>
    obtain ⟨hentry, hrest⟩ := List.forall_mem_cons.mp hall
    obtain ⟨m, hm⟩ := hentry s
    obtain ⟨t, ht⟩ := ih hrest m
    refine ⟨t, ?_⟩
    rw [visitMap, List.foldlM_cons, hm]
    exact ht

end Visiting

namespace Decode

variable {α : Type} {decode : Json → Except DecodeError α} {absent : α}

def boolean : Json → Except DecodeError Bool
  | .bool b => .ok b
  | v => .error (.invalidType v "a boolean")

/-- A field of an object whose members may repeat a key: the last one counts. -/
def lastField (members : List (String × Json)) (key : String)
    (decode : Json → Except DecodeError α) (absent : α) : Except DecodeError α :=
  field members.reverse key decode absent

theorem lastField_concat (members : List (String × Json)) (key other : String) (v : Json) :
    lastField (members ++ [(key, v)]) other decode absent =
      if key = other then decode v else lastField members other decode absent := by
  have hlast := Fields.last_concat members key other v
  rw [Fields.last] at hlast
  rw [lastField, field, hlast]
  split_ifs with h
  · rfl
  · rfl

theorem lastField_concat_of_ne {members : List (String × Json)} {key other : String} {v : Json}
    (h : key ≠ other) :
    lastField (members ++ [(key, v)]) other decode absent = lastField members other decode absent := by
  rw [lastField_concat, if_neg h]

/-- In any order, a field is what it is in the fields that were written. -/
theorem lastField_of_perm {members fields : List (String × Json)} (hkeys : (fields.map (·.1)).Nodup)
    (hperm : members.Perm fields) (key : String) :
    lastField members key decode absent = field fields key decode absent := by
  have hlast := Fields.last_of_perm hkeys hperm key
  rw [Fields.last] at hlast
  rw [lastField, field, hlast, field]

end Decode

/-! ## `ModuleAnnotations` -/

namespace ModuleAnnotations

/-- The fields of the derived `Serialize`, with the entries of `extra` as the map gives them. -/
def toFields (a : ModuleAnnotations) (extra : List (String × Json)) : List (String × Json) :=
  [("readonly", .bool a.readonly),
    ("destructive", .bool a.destructive),
    ("idempotent", .bool a.idempotent),
    ("requires_approval", .bool a.requiresApproval),
    ("open_world", .bool a.openWorld),
    ("streaming", .bool a.streaming),
    ("cacheable", .bool a.cacheable),
    ("cache_ttl", .number (.posInt (UInt64.ofNat a.cacheTtl))),
    ("cache_key_fields", (a.cacheKeyFields.map ModuleError.namesJson).getD .null),
    ("paginated", .bool a.paginated),
    ("pagination_style", .string a.paginationStyle),
    ("discoverable", .bool a.discoverable),
    ("extra", .object extra)]

/-- The annotations as they are written, with the members and the entries of the map in any order. -/
def WrittenAs (a : ModuleAnnotations) (members : List (String × Json)) : Prop :=
  ∃ extra, extra.Perm a.extra ∧ members.Perm (a.toFields extra)

/-- The locals of `visit_map`. -/
structure Visitor where
  ann : ModuleAnnotations := {}
  explicitExtra : Option (List (String × Json)) := none
  overflow : List (String × Json) := []

/-- The entries of a nested `extra`: what is no object is dropped. -/
def nestedExtra : Json → List (String × Json)
  | .object obj => obj.foldl (fun map entry => Fields.insert entry.1 entry.2 map) []
  | _ => []

/-- The body of the loop of `visit_map`. -/
def Visitor.member (s : Visitor) (key : String) (v : Json) : Except DecodeError Visitor :=
  match key with
  | "readonly" => do
    let b ← Decode.boolean v
    pure { s with ann := { s.ann with readonly := b } }
  | "destructive" => do
    let b ← Decode.boolean v
    pure { s with ann := { s.ann with destructive := b } }
  | "idempotent" => do
    let b ← Decode.boolean v
    pure { s with ann := { s.ann with idempotent := b } }
  | "requires_approval" => do
    let b ← Decode.boolean v
    pure { s with ann := { s.ann with requiresApproval := b } }
  | "open_world" => do
    let b ← Decode.boolean v
    pure { s with ann := { s.ann with openWorld := b } }
  | "streaming" => do
    let b ← Decode.boolean v
    pure { s with ann := { s.ann with streaming := b } }
  | "cacheable" => do
    let b ← Decode.boolean v
    pure { s with ann := { s.ann with cacheable := b } }
  -- a malformed value is dropped
  | "cache_ttl" => pure { s with ann := { s.ann with cacheTtl := v.asU64?.getD 0 } }
  | "cache_key_fields" => do
    let names ← Decode.option Decode.strings v
    pure { s with ann := { s.ann with cacheKeyFields := names } }
  | "paginated" => do
    let b ← Decode.boolean v
    pure { s with ann := { s.ann with paginated := b } }
  | "pagination_style" => do
    let style ← Decode.string v
    pure { s with ann := { s.ann with paginationStyle := style } }
  | "discoverable" => do
    let b ← Decode.boolean v
    pure { s with ann := { s.ann with discoverable := b } }
  | "extra" => pure { s with explicitExtra := some (nestedExtra v) }
  | _ => pure { s with overflow := Fields.insert key v s.overflow }

/-- `impl Deserialize for ModuleAnnotations`, from the members of an object. -/
def deserialize (members : List (String × Json)) : Except DecodeError ModuleAnnotations := do
  let s ← visitMap Visitor.member {} members
  -- the nested entries come last, so that they win
  let merged := (s.explicitExtra.getD []).foldl
    (fun map entry => Fields.insert entry.1 entry.2 map) s.overflow
  pure { s.ann with extra := merged }

/-- The same annotations: a map is its entries, whatever their order. -/
def SameAs (b a : ModuleAnnotations) : Prop :=
  b = { a with extra := b.extra } ∧ ∀ key, Fields.get? b.extra key = Fields.get? a.extra key

/-- A value of the Rust type. -/
structure Valid (a : ModuleAnnotations) : Prop where
  cacheTtl : a.cacheTtl < 2 ^ 64
  extraKeys : (a.extra.map (·.1)).Nodup

/-- `cache_ttl`, of any value. -/
def ttl (v : Json) : Except DecodeError Nat := .ok (v.asU64?.getD 0)

/-- The keys that `visit_map` knows. -/
def declaredKeys : List String :=
  ["readonly", "destructive", "idempotent", "requires_approval", "open_world", "streaming",
    "cacheable", "cache_ttl", "cache_key_fields", "paginated", "pagination_style", "discoverable",
    "extra"]

/-- What `visit_map` knows after the members: every field is what the last member of its key
says. -/
structure Visitor.ReadFrom (members : List (String × Json)) (s : Visitor) : Prop where
  readonly : Decode.lastField members "readonly" Decode.boolean false = .ok s.ann.readonly
  destructive : Decode.lastField members "destructive" Decode.boolean false = .ok s.ann.destructive
  idempotent : Decode.lastField members "idempotent" Decode.boolean false = .ok s.ann.idempotent
  requiresApproval :
    Decode.lastField members "requires_approval" Decode.boolean false = .ok s.ann.requiresApproval
  openWorld : Decode.lastField members "open_world" Decode.boolean true = .ok s.ann.openWorld
  streaming : Decode.lastField members "streaming" Decode.boolean false = .ok s.ann.streaming
  cacheable : Decode.lastField members "cacheable" Decode.boolean false = .ok s.ann.cacheable
  cacheTtl : Decode.lastField members "cache_ttl" ttl 0 = .ok s.ann.cacheTtl
  cacheKeyFields : Decode.lastField members "cache_key_fields" (Decode.option Decode.strings) none =
    .ok s.ann.cacheKeyFields
  paginated : Decode.lastField members "paginated" Decode.boolean false = .ok s.ann.paginated
  paginationStyle : Decode.lastField members "pagination_style" Decode.string "cursor" =
    .ok s.ann.paginationStyle
  discoverable : Decode.lastField members "discoverable" Decode.boolean true = .ok s.ann.discoverable
  explicitExtra : Decode.lastField members "extra" (fun v => .ok (some (nestedExtra v))) none =
    .ok s.explicitExtra
  overflow : ∀ key, Fields.get? s.overflow key =
    if key ∈ declaredKeys then none else Fields.last members key
  ordered : s.overflow.Pairwise (·.1 < ·.1)

theorem Visitor.readFrom_nil : Visitor.ReadFrom [] {} where
  readonly := rfl
  destructive := rfl
  idempotent := rfl
  requiresApproval := rfl
  openWorld := rfl
  streaming := rfl
  cacheable := rfl
  cacheTtl := rfl
  cacheKeyFields := rfl
  paginated := rfl
  paginationStyle := rfl
  discoverable := rfl
  explicitExtra := rfl
  overflow := fun key => by
    split_ifs
    · rfl
    · rfl
  ordered := .nil

end ModuleAnnotations

namespace ModuleAnnotations

/-- A declared key adds nothing to the flattened entries. -/
theorem overflow_concat {overflow members : List (String × Json)} {key : String} {v : Json}
    (hkey : key ∈ declaredKeys) (h : ∀ other, Fields.get? overflow other =
      if other ∈ declaredKeys then none else Fields.last members other) (other : String) :
    Fields.get? overflow other =
      if other ∈ declaredKeys then none else Fields.last (members ++ [(key, v)]) other := by
  rw [h, Fields.last_concat]
  split_ifs with hdeclared heq
  · rfl
  · subst heq
    exact absurd hkey hdeclared
  · rfl

/-- A member sets the field of its key, and no other. -/
theorem Visitor.ReadFrom.concat {members : List (String × Json)} {s t : Visitor} {key : String}
    {v : Json} (hs : s.ReadFrom members) (hstep : s.member key v = .ok t) :
    t.ReadFrom (members ++ [(key, v)]) := by
  have hoverflow := hs.overflow
  cases hs
  unfold Visitor.member at hstep
  split at hstep
  case h_8 | h_13 =>
    obtain rfl := Except.ok.inj hstep
    constructor
    all_goals simp only [Decode.lastField_concat, String.reduceEq, if_true, if_false]
    all_goals first | assumption | rfl | exact overflow_concat (by decide) hoverflow
  case h_14 =>
    have hother : ∀ name ∈ declaredKeys, key ≠ name := by
      simp only [declaredKeys, List.forall_mem_cons]
      and_intros
      all_goals first | assumption | exact fun _ h => absurd h List.not_mem_nil
    obtain rfl := Except.ok.inj hstep
    constructor
    case overflow =>
      intro other
      rw [Fields.last_concat]
      by_cases heq : key = other
      · subst heq
        rw [if_neg fun h => hother key h rfl, if_pos rfl]
        exact Fields.get?_insert_self key v _
      · rw [if_neg heq, ← hoverflow]
        exact Fields.get?_insert_ne (Ne.symm heq) v _
    case ordered => exact Fields.pairwise_insert ‹_›
    all_goals exact (Decode.lastField_concat_of_ne (hother _ (by decide))).trans ‹_›
  all_goals
    obtain ⟨b, hb, ht⟩ := Fallible.bind_eq_ok.mp hstep
    obtain rfl := Except.ok.inj ht
    constructor
    all_goals simp only [Decode.lastField_concat, String.reduceEq, if_true, if_false]
    all_goals first | assumption | exact overflow_concat (by decide) hoverflow

end ModuleAnnotations

namespace ModuleAnnotations

/-- The entries of the nested map: the last `extra` counts. -/
def nestedEntries (members : List (String × Json)) : List (String × Json) :=
  ((Fields.last members "extra").bind Json.asObject?).getD []

/-- The value of a flattened entry: a member under a key that is not declared. -/
def flattened (members : List (String × Json)) (key : String) : Option Json :=
  if key ∈ declaredKeys then none else Fields.last members key

theorem pairwise_nestedExtra (v : Json) : (nestedExtra v).Pairwise (·.1 < ·.1) := by
  cases v with
  | object obj => exact Fields.pairwise_collect .nil obj
  | _ => exact .nil

theorem get?_nestedExtra (v : Json) (key : String) :
    Fields.get? (nestedExtra v) key = Fields.last (v.asObject?.getD []) key := by
  cases v with
  | object obj =>
    rw [nestedExtra, Fields.get?_collect]
    exact Option.or_none
  | _ => rfl

theorem readFrom_of_visitMap {members : List (String × Json)} {s : Visitor}
    (h : visitMap Visitor.member {} members = .ok s) : s.ReadFrom members :=
  visitMap_induction Visitor.readFrom_nil (fun _ _ _ _ _ hs hstep => hs.concat hstep) h

/-- The entries that are merged last are those of the nested map. -/
theorem Visitor.ReadFrom.get?_explicitExtra {members : List (String × Json)} {s : Visitor}
    (hs : s.ReadFrom members) (key : String) :
    Fields.last (s.explicitExtra.getD []) key = Fields.last (nestedEntries members) key := by
  have hextra := hs.explicitExtra
  rw [Decode.lastField, Decode.field] at hextra
  rw [nestedEntries]
  cases hlast : Fields.last members "extra" with
  | none =>
    rw [show Fields.get? members.reverse "extra" = none from hlast] at hextra
    rw [← Except.ok.inj hextra]
    rfl
  | some v =>
    rw [show Fields.get? members.reverse "extra" = some v from hlast] at hextra
    rw [← Except.ok.inj hextra]
    show Fields.last (nestedExtra v) key = Fields.last (v.asObject?.getD []) key
    rw [← get?_nestedExtra]
    exact Fields.last_of_perm (Fields.nodup_of_pairwise (pairwise_nestedExtra v)) (.refl _) key

theorem exists_of_deserialize {members : List (String × Json)} {a : ModuleAnnotations}
    (h : deserialize members = .ok a) :
    ∃ s : Visitor, s.ReadFrom members ∧ a = { s.ann with
      extra := (s.explicitExtra.getD []).foldl
        (fun map entry => Fields.insert entry.1 entry.2 map) s.overflow } := by
  obtain ⟨s, hs, ha⟩ := Fallible.bind_eq_ok.mp h
  exact ⟨s, readFrom_of_visitMap hs, (Except.ok.inj ha).symm⟩

/-- The extension map that is read: a nested entry wins over a flattened one. -/
theorem get?_extra_deserialize {members : List (String × Json)} {a : ModuleAnnotations}
    (h : deserialize members = .ok a) (key : String) :
    Fields.get? a.extra key =
      (Fields.last (nestedEntries members) key).or (flattened members key) := by
  obtain ⟨s, hs, rfl⟩ := exists_of_deserialize h
  show Fields.get? ((s.explicitExtra.getD []).foldl _ s.overflow) key = _
  rw [Fields.get?_collect, hs.get?_explicitExtra, hs.overflow]
  rfl

/-- What is read is a value of the type. -/
theorem valid_deserialize {members : List (String × Json)} {a : ModuleAnnotations}
    (h : deserialize members = .ok a) : a.Valid := by
  obtain ⟨s, hs, rfl⟩ := exists_of_deserialize h
  refine { cacheTtl := ?_, extraKeys := ?_ }
  · show s.ann.cacheTtl < 2 ^ 64
    have hread := hs.cacheTtl
    rw [Decode.lastField, Decode.field] at hread
    cases hlast : Fields.get? members.reverse "cache_ttl" with
    | none =>
      rw [hlast] at hread
      rw [← Except.ok.inj hread]
      decide
    | some v =>
      rw [hlast] at hread
      rw [← Except.ok.inj hread]
      rcases v with _ | _ | (n | n | q) | _ | _ | _
      case number.posInt => exact n.toNat_lt
      all_goals exact Nat.two_pow_pos 64
  · exact Fields.nodup_of_pairwise (Fields.pairwise_collect hs.ordered _)

section

variable {a : ModuleAnnotations} {members extra : List (String × Json)}

theorem nodup_keys_toFields : ((a.toFields extra).map (·.1)).Nodup :=
  (by decide : declaredKeys.Nodup)

theorem option_cacheKeyFields (a : ModuleAnnotations) :
    Decode.option Decode.strings ((a.cacheKeyFields.map ModuleError.namesJson).getD .null) =
      .ok a.cacheKeyFields := by
  cases a.cacheKeyFields with
  | none => rfl
  | some names =>
    show some <$> Decode.strings (ModuleError.namesJson names) = .ok (some names)
    rw [Decode.strings_namesJson]
    rfl

/-- Every member that is written is taken. -/
theorem member_toFields :
    ∀ entry ∈ a.toFields extra, ∀ s : Visitor, ∃ t, s.member entry.1 entry.2 = .ok t := by
  have hnames : ∀ s : Visitor, ∃ t, s.member "cache_key_fields"
      ((a.cacheKeyFields.map ModuleError.namesJson).getD .null) = .ok t := by
    exact fun s => Fallible.exists_bind_eq_ok (option_cacheKeyFields a) ⟨_, rfl⟩
  simp only [toFields, List.forall_mem_cons]
  and_intros
  all_goals first | exact hnames | exact fun s => ⟨_, rfl⟩ | exact fun _ h => absurd h List.not_mem_nil

/-- A field that was written is read back. -/
theorem eq_of_lastField {α : Type} {decode : Json → Except DecodeError α} {absent read written : α}
    {key : String} (hperm : members.Perm (a.toFields extra))
    (hread : Decode.lastField members key decode absent = .ok read)
    (hwritten : Decode.field (a.toFields extra) key decode absent = .ok written) : read = written := by
  rw [Decode.lastField_of_perm nodup_keys_toFields hperm, hwritten] at hread
  exact (Except.ok.inj hread).symm

/-- Annotations are read back as they were written, in any order. -/
theorem deserialize_of_writtenAs (ha : a.Valid) (hwritten : a.WrittenAs members) :
    ∃ b, deserialize members = .ok b ∧ b.SameAs a := by
  obtain ⟨extra, hextra, hperm⟩ := hwritten
  obtain ⟨s, hs⟩ : ∃ s, visitMap Visitor.member {} members = .ok s :=
    visitMap_ok (fun entry hentry => member_toFields entry (hperm.mem_iff.mp hentry)) {}
  have hb : deserialize members = .ok _ := Fallible.bind_eq_ok.mpr ⟨s, hs, rfl⟩
  refine ⟨_, hb, ?_, fun key => ?_⟩
  · have hread := readFrom_of_visitMap hs
    have hreadonly := eq_of_lastField hperm hread.readonly rfl
    have hdestructive := eq_of_lastField hperm hread.destructive rfl
    have hidempotent := eq_of_lastField hperm hread.idempotent rfl
    have hrequiresApproval := eq_of_lastField hperm hread.requiresApproval rfl
    have hopenWorld := eq_of_lastField hperm hread.openWorld rfl
    have hstreaming := eq_of_lastField hperm hread.streaming rfl
    have hcacheable := eq_of_lastField hperm hread.cacheable rfl
    have hcacheTtl := eq_of_lastField hperm hread.cacheTtl rfl
    have hcacheKeyFields := eq_of_lastField hperm hread.cacheKeyFields (option_cacheKeyFields a)
    have hpaginated := eq_of_lastField hperm hread.paginated rfl
    have hpaginationStyle := eq_of_lastField hperm hread.paginationStyle rfl
    have hdiscoverable := eq_of_lastField hperm hread.discoverable rfl
    have httl : (UInt64.ofNat a.cacheTtl).toNat = a.cacheTtl := UInt64.toNat_ofNat_of_lt' ha.cacheTtl
    rw [ModuleAnnotations.mk.injEq]
    exact ⟨hreadonly, hdestructive, hidempotent, hrequiresApproval, hopenWorld, hstreaming, hcacheable,
      hcacheTtl.trans httl, hcacheKeyFields, hpaginated, hpaginationStyle, hdiscoverable, rfl⟩
  · have hentries : nestedEntries members = extra := by
      rw [nestedEntries, Fields.last_of_perm nodup_keys_toFields hperm]
      rfl
    have hflattened : flattened members key = none := by
      rw [flattened]
      split_ifs with hkey
      · rfl
      · rw [Fields.last_of_perm nodup_keys_toFields hperm]
        exact Fields.get?_eq_none hkey
    rw [get?_extra_deserialize hb, hentries, hflattened, Option.or_none]
    exact Fields.last_of_perm ha.extraKeys hextra key

end

end ModuleAnnotations

/-! ## `Change` -/

/-- `Change`. -/
structure Change where
  action : String
  target : String
  summary : String
  before : Option Json := none
  after : Option Json := none
  extra : List (String × Json) := []

namespace Change

/-- `key.starts_with("x-")`. -/
def isExtensionKey (key : String) : Bool := "x-".toList.isPrefixOf key.toList

/-- The fields of the derived `Serialize`: a snapshot that there is not is left out, and the entries
of `extra` are members of the object. -/
def toFields (c : Change) (extra : List (String × Json)) : List (String × Json) :=
  [("action", .string c.action), ("target", .string c.target), ("summary", .string c.summary)] ++
    ModuleError.optEntry "before" c.before ++ ModuleError.optEntry "after" c.after ++ extra

/-- The change as it is written, with the members in any order. -/
def WrittenAs (c : Change) (members : List (String × Json)) : Prop :=
  ∃ extra, extra.Perm c.extra ∧ members.Perm (c.toFields extra)

/-- The locals of `visit_map`. -/
structure Visitor where
  action : Option String := none
  target : Option String := none
  summary : Option String := none
  before : Option Json := none
  after : Option Json := none
  extra : List (String × Json) := []

/-- The body of the loop of `visit_map`. -/
def Visitor.member (s : Visitor) (key : String) (v : Json) : Except DecodeError Visitor :=
  match key with
  | "action" => do
    let action ← Decode.string v
    pure { s with action := some action }
  | "target" => do
    let target ← Decode.string v
    pure { s with target := some target }
  | "summary" => do
    let summary ← Decode.string v
    pure { s with summary := some summary }
  | "before" => pure { s with before := some v }
  | "after" => pure { s with after := some v }
  | _ =>
    if isExtensionKey key then pure { s with extra := Fields.insert key v s.extra }
    else .error (.custom s!"Change has unknown key '{key}'; extension keys must start with 'x-'")

/-- `impl Deserialize for Change`, from the members of an object. -/
def deserialize (members : List (String × Json)) : Except DecodeError Change := do
  let s ← visitMap Visitor.member {} members
  let action ← Decode.required "action" s.action
  let target ← Decode.required "target" s.target
  let summary ← Decode.required "summary" s.summary
  pure { action, target, summary, before := s.before, after := s.after, extra := s.extra }

/-- The same change: a map is its entries, whatever their order. -/
def SameAs (d c : Change) : Prop :=
  d = { c with extra := d.extra } ∧ ∀ key, Fields.get? d.extra key = Fields.get? c.extra key

/-- A change whose extension keys begin with `x-`, and whose map is one. -/
structure Valid (c : Change) : Prop where
  extensions : ∀ entry ∈ c.extra, isExtensionKey entry.1 = true
  extraKeys : (c.extra.map (·.1)).Nodup

/-- The keys that `visit_map` knows. -/
def declaredKeys : List String := ["action", "target", "summary", "before", "after"]

theorem isExtensionKey_declared : ∀ key ∈ declaredKeys, isExtensionKey key = false := by decide


end Change

namespace Change

/-- What `visit_map` knows after the members: every field is what the last member of its key
says. -/
structure Visitor.ReadFrom (members : List (String × Json)) (s : Visitor) : Prop where
  action : Decode.lastField members "action" (some <$> Decode.string ·) none = .ok s.action
  target : Decode.lastField members "target" (some <$> Decode.string ·) none = .ok s.target
  summary : Decode.lastField members "summary" (some <$> Decode.string ·) none = .ok s.summary
  before : Decode.lastField members "before" (fun v => .ok (some v)) none = .ok s.before
  after : Decode.lastField members "after" (fun v => .ok (some v)) none = .ok s.after
  extra : ∀ key, Fields.get? s.extra key =
    if isExtensionKey key then Fields.last members key else none

theorem Visitor.readFrom_nil : Visitor.ReadFrom [] {} where
  action := rfl
  target := rfl
  summary := rfl
  before := rfl
  after := rfl
  extra := fun key => by
    split_ifs
    · rfl
    · rfl

/-- A declared key adds nothing to the extension entries. -/
theorem extra_concat {extra members : List (String × Json)} {key : String} {v : Json}
    (hkey : key ∈ declaredKeys) (h : ∀ other, Fields.get? extra other =
      if isExtensionKey other then Fields.last members other else none) (other : String) :
    Fields.get? extra other =
      if isExtensionKey other then Fields.last (members ++ [(key, v)]) other else none := by
  rw [h, Fields.last_concat]
  by_cases heq : key = other
  · subst heq
    rw [isExtensionKey_declared key hkey]
    rfl
  · rw [if_neg heq]

/-- A member sets the field of its key, and no other. -/
theorem Visitor.ReadFrom.concat {members : List (String × Json)} {s t : Visitor} {key : String}
    {v : Json} (hs : s.ReadFrom members) (hstep : s.member key v = .ok t) :
    t.ReadFrom (members ++ [(key, v)]) := by
  have hextra := hs.extra
  cases hs
  unfold Visitor.member at hstep
  split at hstep
  case h_4 | h_5 =>
    obtain rfl := Except.ok.inj hstep
    constructor
    all_goals simp only [Decode.lastField_concat, String.reduceEq, if_true, if_false]
    all_goals first | assumption | exact extra_concat (by decide) hextra
  case h_6 =>
    have hother : ∀ name ∈ declaredKeys, key ≠ name := by
      simp only [declaredKeys, List.forall_mem_cons]
      and_intros
      all_goals first | assumption | exact fun _ h => absurd h List.not_mem_nil
    split at hstep
    case isFalse => cases hstep
    case isTrue hext =>
      obtain rfl := Except.ok.inj hstep
      constructor
      case extra =>
        intro other
        rw [Fields.last_concat]
        by_cases heq : key = other
        · subst heq
          rw [if_pos hext, if_pos rfl]
          exact Fields.get?_insert_self key v _
        · rw [if_neg heq, ← hextra]
          exact Fields.get?_insert_ne (Ne.symm heq) v _
      all_goals exact (Decode.lastField_concat_of_ne (hother _ (by decide))).trans ‹_›
  all_goals
    obtain ⟨x, hx, ht⟩ := Fallible.bind_eq_ok.mp hstep
    obtain rfl := Except.ok.inj ht
    constructor
    all_goals simp only [Decode.lastField_concat, String.reduceEq, if_true, if_false, hx]
    all_goals first | assumption | rfl | exact extra_concat (by decide) hextra

theorem readFrom_of_visitMap {members : List (String × Json)} {s : Visitor}
    (h : visitMap Visitor.member {} members = .ok s) : s.ReadFrom members :=
  visitMap_induction Visitor.readFrom_nil (fun _ _ _ _ _ hs hstep => hs.concat hstep) h

section

variable {c : Change} {members extra : List (String × Json)}

/-- The members of the fields, without those of the map. -/
theorem keys_toFields : ∃ front, c.toFields extra = front ++ extra ∧
    (front.map (·.1)).Sublist declaredKeys := by
  refine ⟨_, rfl, ?_⟩
  cases c.before with
  | none =>
    cases c.after with
    | none => exact (by decide : ["action", "target", "summary"].Sublist declaredKeys)
    | some v => exact (by decide : ["action", "target", "summary", "after"].Sublist declaredKeys)
  | some v =>
    cases c.after with
    | none => exact (by decide : ["action", "target", "summary", "before"].Sublist declaredKeys)
    | some w => exact .refl declaredKeys

theorem nodup_keys_toFields (hc : c.Valid) (hextra : extra.Perm c.extra) :
    ((c.toFields extra).map (·.1)).Nodup := by
  obtain ⟨front, hfront, hsub⟩ := @keys_toFields c extra
  rw [hfront, List.map_append, List.nodup_append]
  refine ⟨hsub.nodup (by decide), (hextra.map _).nodup_iff.mpr hc.extraKeys, ?_⟩
  rintro key hkey other hother rfl
  obtain ⟨entry, hentry, rfl⟩ := List.mem_map.mp hother
  have hext := hc.extensions entry (hextra.mem_iff.mp hentry)
  rw [isExtensionKey_declared entry.1 (hsub.subset hkey)] at hext
  cases hext

/-- Every member that is written is taken. -/
theorem member_toFields (hc : c.Valid) (hextra : extra.Perm c.extra) :
    ∀ entry ∈ c.toFields extra, ∀ s : Visitor, ∃ t, s.member entry.1 entry.2 = .ok t := by
  have hentries : ∀ entry ∈ extra, ∀ s : Visitor, ∃ t, s.member entry.1 entry.2 = .ok t := by
    intro entry hentry s
    have hext := hc.extensions entry (hextra.mem_iff.mp hentry)
    have hother : ∀ name ∈ declaredKeys, entry.1 ≠ name := by
      rintro name hname rfl
      rw [isExtensionKey_declared entry.1 hname] at hext
      cases hext
    simp only [declaredKeys, List.forall_mem_cons] at hother
    obtain ⟨h1, h2, h3, h4, h5, -⟩ := hother
    refine ⟨{ s with extra := Fields.insert entry.1 entry.2 s.extra }, ?_⟩
    rw [Visitor.member]
    · exact if_pos hext
    all_goals assumption
  intro entry hentry
  simp only [toFields, List.mem_append, List.mem_cons, List.not_mem_nil, or_false] at hentry
  rcases hentry with (((rfl | rfl | rfl) | hbefore) | hafter) | hentry
  · exact fun s => ⟨_, rfl⟩
  · exact fun s => ⟨_, rfl⟩
  · exact fun s => ⟨_, rfl⟩
  · obtain ⟨v, -, rfl⟩ := List.mem_map.mp hbefore
    exact fun s => ⟨_, rfl⟩
  · obtain ⟨v, -, rfl⟩ := List.mem_map.mp hafter
    exact fun s => ⟨_, rfl⟩
  · exact hentries entry hentry

/-- The extension entries of a change that is written, and only they, are under extension keys. -/
theorem get?_toFields_extension (key : String) (hkey : isExtensionKey key = true) :
    Fields.get? (c.toFields extra) key = Fields.get? extra key := by
  obtain ⟨front, hfront, hsub⟩ := @keys_toFields c extra
  have hnone : Fields.get? front key = none := by
    refine Fields.get?_eq_none fun hmem => ?_
    rw [isExtensionKey_declared key (hsub.subset hmem)] at hkey
    cases hkey
  rw [hfront, Fields.get?_append, hnone, Option.none_or]

theorem get?_extra_declared (hc : c.Valid) {key : String} (hkey : key ∈ declaredKeys) :
    Fields.get? c.extra key = none := by
  refine Fields.get?_eq_none fun hmem => ?_
  obtain ⟨entry, hentry, rfl⟩ := List.mem_map.mp hmem
  have hext := hc.extensions entry hentry
  rw [isExtensionKey_declared entry.1 hkey] at hext
  cases hext

/-- The snapshots that are written: `null` is one, and none is none. -/
theorem get?_toFields_snapshots (hc : c.Valid) (hextra : extra.Perm c.extra) :
    Fields.get? (c.toFields extra) "before" = c.before ∧
      Fields.get? (c.toFields extra) "after" = c.after := by
  have hnone : ∀ key ∈ declaredKeys, Fields.get? extra key = none := by
    intro key hkey
    rw [Fields.get?_of_perm hc.extraKeys hextra, get?_extra_declared hc hkey]
  have hbefore := hnone "before" (by decide)
  have hafter := hnone "after" (by decide)
  simp only [toFields, List.append_assoc, List.cons_append, List.nil_append, Fields.get?_cons,
    ModuleError.get?_optEntry_append, String.reduceEq, if_true, if_false, hbefore, hafter,
    Option.or_none, and_self]

/-- A field that was written is read back. -/
theorem eq_of_lastField {α : Type} {decode : Json → Except DecodeError α} {absent read written : α}
    {key : String} (hc : c.Valid) (hextra : extra.Perm c.extra) (hperm : members.Perm (c.toFields extra))
    (hread : Decode.lastField members key decode absent = .ok read)
    (hwritten : Decode.field (c.toFields extra) key decode absent = .ok written) : read = written := by
  rw [Decode.lastField_of_perm (nodup_keys_toFields hc hextra) hperm, hwritten] at hread
  exact (Except.ok.inj hread).symm

/-- A snapshot is `None` where there is no member. -/
theorem field_snapshot {fields : List (String × Json)} {key : String} {snapshot : Option Json}
    (h : Fields.get? fields key = snapshot) :
    Decode.field fields key (fun v => .ok (some v)) none = .ok snapshot := by
  rw [Decode.field, h]
  cases snapshot with
  | none => rfl
  | some v => rfl

/-- A change is read back as it was written, in any order. -/
theorem deserialize_of_writtenAs (hc : c.Valid) (hwritten : c.WrittenAs members) :
    ∃ d, deserialize members = .ok d ∧ d.SameAs c := by
  obtain ⟨extra, hextra, hperm⟩ := hwritten
  obtain ⟨s, hs⟩ : ∃ s, visitMap Visitor.member {} members = .ok s :=
    visitMap_ok (fun entry hentry => member_toFields hc hextra entry (hperm.mem_iff.mp hentry)) {}
  have hread := readFrom_of_visitMap hs
  obtain ⟨hbefore, hafter⟩ := get?_toFields_snapshots hc hextra
  have haction : s.action = some c.action := eq_of_lastField hc hextra hperm hread.action rfl
  have htarget : s.target = some c.target := eq_of_lastField hc hextra hperm hread.target rfl
  have hsummary : s.summary = some c.summary := eq_of_lastField hc hextra hperm hread.summary rfl
  have hbefore' := eq_of_lastField hc hextra hperm hread.before (field_snapshot hbefore)
  have hafter' := eq_of_lastField hc hextra hperm hread.after (field_snapshot hafter)
  refine ⟨{ c with extra := s.extra }, ?_, rfl, fun key => ?_⟩
  · rw [deserialize, hs]
    show (Decode.required "action" s.action >>= fun action =>
      Decode.required "target" s.target >>= fun target =>
      Decode.required "summary" s.summary >>= fun summary =>
      pure (Change.mk action target summary s.before s.after s.extra)) = _
    rw [haction, htarget, hsummary, hbefore', hafter']
    rfl
  · show Fields.get? s.extra key = Fields.get? c.extra key
    rw [hread.extra, Fields.last_of_perm (nodup_keys_toFields hc hextra) hperm]
    split_ifs with hkey
    · rw [get?_toFields_extension key hkey, Fields.get?_of_perm hc.extraKeys hextra]
    · symm
      refine Fields.get?_eq_none fun hmem => ?_
      obtain ⟨entry, hentry, rfl⟩ := List.mem_map.mp hmem
      exact hkey (hc.extensions entry hentry)

end

end Change

/-! ## The records -/

/-- Annotations and changes are read back as they were written; annotations that were read from any
object are too, and their extension map has the nested entries, and the flattened ones where there is
no nested one. -/
theorem moduleRecords_roundTrip :
    (∀ (a : ModuleAnnotations) members, a.Valid → a.WrittenAs members →
      ∃ b, ModuleAnnotations.deserialize members = .ok b ∧ b.SameAs a) ∧
    (∀ (c : Change) members, c.Valid → c.WrittenAs members →
      ∃ d, Change.deserialize members = .ok d ∧ d.SameAs c) ∧
    (∀ members a, ModuleAnnotations.deserialize members = .ok a →
      (∀ rewritten, a.WrittenAs rewritten →
        ∃ b, ModuleAnnotations.deserialize rewritten = .ok b ∧ b.SameAs a) ∧
      ∀ key, Fields.get? a.extra key =
        (Fields.last (ModuleAnnotations.nestedEntries members) key).or
          (ModuleAnnotations.flattened members key)) := by
  refine ⟨fun a members ha hwritten => ?_, fun c members hc hwritten => ?_, fun members a hread => ?_⟩
  · exact ModuleAnnotations.deserialize_of_writtenAs ha hwritten
  · exact Change.deserialize_of_writtenAs hc hwritten
  · refine ⟨fun rewritten hwritten => ?_, ModuleAnnotations.get?_extra_deserialize hread⟩
    exact ModuleAnnotations.deserialize_of_writtenAs (ModuleAnnotations.valid_deserialize hread) hwritten

/-- Flattened and nested entries in one object. -/
example : (ModuleAnnotations.deserialize
    [("mcp", .bool true), ("extra", .object [("mcp", .null)]), ("cli", .string "a")]).toOption.map
      (·.extra) = some [("cli", .string "a"), ("mcp", .null)] := rfl

end Apcore
