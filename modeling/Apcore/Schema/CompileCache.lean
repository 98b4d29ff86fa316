import Apcore.Lib.Transition
import Apcore.Schema.CanonicalJson
import Apcore.Schema.NestedSchema
import Mathlib.Data.Nat.Notation

/-! # `Schema.CompileCache` — compiled validators by the hash of their schema

`compile_cached` looks a schema up by the hash of its canonical text, compiles it where nothing is
found, and stores what was compiled; the lock is free in between, so that calls of other threads, and
clearings, come in any order. `Sha256` and the compiler are parameters. -/

namespace Apcore

open Json (SameUpToOrder)
open Transition

/-! ## The cache -/

variable {V : Type} (printer : Printer) (sha256 : String → String) (build : Json → Except String V)

/-- `content_hash`. -/
def contentHash (schema : Json) : String := sha256 (canonicalJson printer schema)

/-- `build_validator`. -/
def buildValidator (schema : Json) : Except String V := build (stripNestedSchema schema true)

/-- The cache, what each thread has compiled and not stored yet, and what calls have returned. -/
structure CompileCache (V : Type) where
  cache : String → Option V
  compiled : ℕ → Option (Json × V)
  returned : List (Json × Except String V)

def CompileCache.empty : CompileCache V := ⟨fun _ => none, fun _ => none, []⟩

/-- What a thread does under the lock. -/
inductive CacheLabel where
  | look (thread : ℕ) (schema : Json)
  | store (thread : ℕ)
  | clear

/-- The schema a call is made with. -/
def CacheLabel.schema? : CacheLabel → Option Json
  | .look _ schema => some schema
  | _ => none

/-- `compile_cached`, in two steps where the schema is not found, and `clear_cache`. -/
def cacheStep (s : CompileCache V) : CacheLabel → Option (CompileCache V)
  | .look thread schema =>
    if (s.compiled thread).isSome then none
    else
      match s.cache (contentHash printer sha256 schema) with
      | some v => some { s with returned := (schema, .ok v) :: s.returned }
      | none =>
        match buildValidator build schema with
        | .error e => some { s with returned := (schema, .error e) :: s.returned }
        | .ok v => some { s with compiled := Function.update s.compiled thread (some (schema, v)) }
  | .store thread =>
    (s.compiled thread).map fun (schema, v) =>
      { cache := Function.update s.cache (contentHash printer sha256 schema) (some v)
        compiled := Function.update s.compiled thread none
        returned := (schema, .ok v) :: s.returned }
  | .clear => some { s with cache := fun _ => none }

/-! ## Runs -/

theorem eq_or_of_update_eq_some {α β : Type} [DecidableEq α] {f : α → Option β} {a a' : α}
    {value : Option β} {b : β} (h : Function.update f a value a' = some b) :
    (a' = a ∧ value = some b) ∨ f a' = some b := by
  by_cases ha : a' = a
  · subst ha
    rw [Function.update_self] at h
    exact .inl ⟨rfl, h⟩
  · rw [Function.update_of_ne ha] at h
    exact .inr h

variable {printer sha256 build}

/-- What a run of calls with these schemas keeps: all that is stored, to be stored or returned was
compiled from one of them with the hash it is found under. -/
structure CacheInvariant (printer : Printer) (sha256 : String → String)
    (build : Json → Except String V) (schemas : List Json) (s : CompileCache V) : Prop where
  cached : ∀ hash v, s.cache hash = some v →
    ∃ schema ∈ schemas, contentHash printer sha256 schema = hash ∧ buildValidator build schema = .ok v
  compiled : ∀ thread schema v, s.compiled thread = some (schema, v) →
    schema ∈ schemas ∧ buildValidator build schema = .ok v
  returned : ∀ schema result, (schema, result) ∈ s.returned → schema ∈ schemas ∧
    ∃ origin ∈ schemas, contentHash printer sha256 origin = contentHash printer sha256 schema ∧
      buildValidator build origin = result

theorem cacheInvariant_empty (schemas : List Json) :
    CacheInvariant printer sha256 build schemas (CompileCache.empty (V := V)) where
  cached := by intro hash v h; cases h
  compiled := by intro thread schema v h; cases h
  returned := by intro schema result h; cases h

/-- A returned result is compiled from one of the schemas. -/
theorem CacheInvariant.return_ {schemas : List Json} {s : CompileCache V}
    (hs : CacheInvariant printer sha256 build schemas s) {schema origin : Json}
    {result : Except String V} (hschema : schema ∈ schemas) (horigin : origin ∈ schemas)
    (hhash : contentHash printer sha256 origin = contentHash printer sha256 schema)
    (hbuild : buildValidator build origin = result) :
    ∀ schema' result', (schema', result') ∈ (schema, result) :: s.returned → schema' ∈ schemas ∧
      ∃ origin ∈ schemas, contentHash printer sha256 origin = contentHash printer sha256 schema' ∧
        buildValidator build origin = result' := by
  intro schema' result' hmem
  rcases List.mem_cons.mp hmem with heq | hmem
  · obtain ⟨rfl, rfl⟩ := Prod.mk.inj heq
    exact ⟨hschema, origin, horigin, hhash, hbuild⟩
  · exact hs.returned schema' result' hmem

/-- Every step of a call with one of the schemas keeps the invariant. -/
theorem cacheInvariant_step {schemas : List Json} {s s' : CompileCache V} {l : CacheLabel}
    (hs : CacheInvariant printer sha256 build schemas s) (hl : ∀ schema ∈ l.schema?, schema ∈ schemas)
    (hstep : cacheStep printer sha256 build s l = some s') :
    CacheInvariant printer sha256 build schemas s' := by
  cases l with
  | look thread schema =>
    have hschema : schema ∈ schemas := hl schema rfl
    obtain ⟨-, hlook⟩ := Option.ite_none_left_eq_some.mp hstep
    cases hcache : s.cache (contentHash printer sha256 schema) with
    | some v =>
      rw [hcache] at hlook
      obtain rfl := Option.some.inj hlook
      obtain ⟨origin, horigin, hhash, hbuild⟩ := hs.cached _ v hcache
      exact { hs with returned := hs.return_ hschema horigin hhash hbuild }
    | none =>
      rw [hcache] at hlook
      cases hbuild : buildValidator build schema with
      | error e =>
        rw [hbuild] at hlook
        obtain rfl := Option.some.inj hlook
        exact { hs with returned := hs.return_ hschema hschema rfl hbuild }
      | ok v =>
        rw [hbuild] at hlook
        obtain rfl := Option.some.inj hlook
        refine { hs with compiled := fun thread' schema' v' h => ?_ }
        rcases eq_or_of_update_eq_some h with ⟨-, hnew⟩ | hold
        · obtain ⟨rfl, rfl⟩ := Prod.mk.inj (Option.some.inj hnew)
          exact ⟨hschema, hbuild⟩
        · exact hs.compiled thread' schema' v' hold
  | store thread =>
    obtain ⟨⟨schema, v⟩, hcompiled, rfl⟩ := Option.map_eq_some_iff.mp hstep
    obtain ⟨hschema, hbuild⟩ := hs.compiled thread schema v hcompiled
    refine ⟨fun hash v' h => ?_, fun thread' schema' v' h => ?_,
      hs.return_ hschema hschema rfl hbuild⟩
    · rcases eq_or_of_update_eq_some h with ⟨rfl, hnew⟩ | hold
      · obtain rfl := Option.some.inj hnew
        exact ⟨schema, hschema, rfl, hbuild⟩
      · exact hs.cached hash v' hold
    · rcases eq_or_of_update_eq_some h with ⟨-, hnone⟩ | hold
      · cases hnone
      · exact hs.compiled thread' schema' v' hold
  | clear =>
    obtain rfl := Option.some.inj hstep
    exact { hs with cached := fun hash v h => by cases h }

/-- No two of the schemas have different texts of one hash. -/
def NoCollision (printer : Printer) (sha256 : String → String) (schemas : List Json) : Prop :=
  ∀ a ∈ schemas, ∀ b ∈ schemas, contentHash printer sha256 a = contentHash printer sha256 b →
    canonicalJson printer a = canonicalJson printer b

/-- Two values have one text if and only if they are equal up to the order of keys; and whatever order
calls and clearings come in, a call gets what compiling a schema gives that is equal to its own up to
the order of keys. -/
theorem canonicalJson_laws (hp : printer.Faithful) {ls : List CacheLabel} {s : CompileCache V}
    (hrun : exec (cacheStep printer sha256 build) .empty ls = some s)
    (hcollision : NoCollision printer sha256 (ls.filterMap CacheLabel.schema?)) :
    (∀ a b, canonicalJson printer a = canonicalJson printer b ↔ SameUpToOrder a b) ∧
    ∀ schema result, (schema, result) ∈ s.returned →
      ∃ origin, SameUpToOrder origin schema ∧ buildValidator build origin = result := by
  refine ⟨canonicalJson_eq_iff hp, fun schema result hreturned => ?_⟩
  have hcalls : ∀ (t : CompileCache V), ∀ l ∈ ls, ∀ schema ∈ l.schema?,
      schema ∈ ls.filterMap CacheLabel.schema? :=
    fun _ l hl schema hschema => List.mem_filterMap.mpr ⟨l, hl, hschema⟩
  have hinv : CacheInvariant printer sha256 build (ls.filterMap CacheLabel.schema?) s :=
    exec_invariant_along (fun _ _ _ hs hl hstep => cacheInvariant_step hs hl hstep)
      (cacheInvariant_empty _) (along_of_forall hcalls _) hrun
  obtain ⟨hschema, origin, horigin, hhash, hbuild⟩ := hinv.returned schema result hreturned
  exact ⟨origin, (canonicalJson_eq_iff hp origin schema).mp
    (hcollision origin horigin schema hschema hhash), hbuild⟩

/-- An object schema, its keys in either order. -/
def closedObject (typeFirst : Bool) : Json :=
  if typeFirst then .object [("type", .string "object"), ("additionalProperties", .bool false)]
  else .object [("additionalProperties", .bool false), ("type", .string "object")]

/-- The hash of the text of `closedObject`. -/
def closedObjectHash (text : String) : String :=
  if text = "\x7b\"additionalProperties\":false,\"type\":\"object\"\x7d" then
    "cd1a463c46d6264134447db17a8c3c7abe5b9a2488c6d759fea66da1f96b133e"
  else text

theorem canonicalJson_closedObject (typeFirst : Bool) :
    canonicalJson plainPrinter (closedObject typeFirst) =
      "\x7b\"additionalProperties\":false,\"type\":\"object\"\x7d" := by
  have hmembers : ∀ map, map = [("type", Json.string "object"), ("additionalProperties", .bool false)] ∨
      map = [("additionalProperties", .bool false), ("type", .string "object")] →
      sortedMembers map = [("additionalProperties", .bool false), ("type", .string "object")] := by
    rintro map (rfl | rfl) <;> rfl
  cases typeFirst
  all_goals
    show String.ofList (canonicalText plainPrinter (.object _)) = _
    rw [canonicalText_object, hmembers _ (by tauto), List.map_cons, List.map_cons, memberText,
      memberText, canonicalText, canonicalText]
    rfl

theorem contentHash_closedObject (typeFirst : Bool) :
    contentHash plainPrinter closedObjectHash (closedObject typeFirst) =
      "cd1a463c46d6264134447db17a8c3c7abe5b9a2488c6d759fea66da1f96b133e" := by
  rw [contentHash, canonicalJson_closedObject]
  rfl

/-- Two threads compile the schema, with its keys in either order, and a third gets what the second
compiled. -/
def closedObjectCalls : List CacheLabel :=
  [.look 0 (closedObject true), .look 1 (closedObject false), .store 0, .store 1,
    .look 2 (closedObject true)]

theorem cacheStep_hit {s : CompileCache V} {thread : ℕ} {schema : Json} {v : V}
    (hidle : s.compiled thread = none) (hcache : s.cache (contentHash printer sha256 schema) = some v) :
    cacheStep printer sha256 build s (.look thread schema) =
      some { s with returned := (schema, .ok v) :: s.returned } := by
  unfold cacheStep
  dsimp only
  rw [if_neg (by rw [hidle]; exact Bool.false_ne_true), hcache]

theorem exec_closedObjectCalls : ∃ s : CompileCache Json,
    exec (cacheStep plainPrinter closedObjectHash .ok) .empty closedObjectCalls = some s ∧
      (closedObject true, .ok (closedObject false)) ∈ s.returned := by
  refine ⟨_, exec_cons.mpr ⟨_, rfl, exec_cons.mpr ⟨_, rfl, exec_cons.mpr ⟨_, rfl,
    exec_cons.mpr ⟨_, rfl, exec_cons.mpr ⟨_, cacheStep_hit rfl (v := closedObject false) ?_, rfl⟩⟩⟩⟩⟩, ?_⟩
  · rw [contentHash_closedObject, ← contentHash_closedObject false]
    exact Function.update_self _ _ _
  · exact List.mem_cons_self

theorem canonicalJson_laws_closedObject : ∃ s : CompileCache Json,
    exec (cacheStep plainPrinter closedObjectHash .ok) .empty closedObjectCalls = some s ∧
      (∀ a b, canonicalJson plainPrinter a = canonicalJson plainPrinter b ↔ SameUpToOrder a b) ∧
      ∃ origin, SameUpToOrder origin (closedObject true) ∧
        buildValidator Except.ok origin = (.ok (closedObject false) : Except String Json) := by
  obtain ⟨s, hrun, hreturned⟩ := exec_closedObjectCalls
  have hcollision : NoCollision plainPrinter closedObjectHash
      (closedObjectCalls.filterMap CacheLabel.schema?) := by
    have hall : ∀ a ∈ closedObjectCalls.filterMap CacheLabel.schema?, ∃ b, a = closedObject b := by
      intro a ha
      have hmem : a ∈ [closedObject true, closedObject false, closedObject true] := ha
      simp only [List.mem_cons, List.not_mem_nil, or_false] at hmem
      rcases hmem with rfl | rfl | rfl
      · exact ⟨true, rfl⟩
      · exact ⟨false, rfl⟩
      · exact ⟨true, rfl⟩
    intro a ha b hb _
    obtain ⟨x, rfl⟩ := hall a ha
    obtain ⟨y, rfl⟩ := hall b hb
    rw [canonicalJson_closedObject, canonicalJson_closedObject]
  obtain ⟨htext, hresults⟩ := canonicalJson_laws plainPrinter_faithful hrun hcollision
  exact ⟨s, hrun, htext, hresults _ _ hreturned⟩

end Apcore
