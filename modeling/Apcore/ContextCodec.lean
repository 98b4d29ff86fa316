import Apcore.Context
import Apcore.Errors

/-! # `ContextCodec` — the two encodings of a context

A context has the derived `Serialize` and `Deserialize` of its struct, and the cross-language pair
`serialize` and `deserialize`. `to_json` writes the cross-language shape and `from_json` reads the
derived one.

The map behind `data` is a cell that several contexts share, so the encoders are given its entries
and the decoders return the entries of the fresh cell they are given. -/

namespace Apcore

/-- The kinds of error of a derived `Deserialize`. -/
inductive DecodeError where
  | missingField (field : String)
  | invalidType (found : Json) (expected : String)
  | invalidLength (length : Nat) (expected : String)
  | custom (message : String)

/-! ## Decoding the parts of a struct -/

namespace Decode

def string : Json → Except DecodeError String
  | .string s => .ok s
  | v => .error (.invalidType v "a string")

/-- `HashMap<String, Value>`. -/
def map : Json → Except DecodeError (List (String × Json))
  | .object fields => .ok fields
  | v => .error (.invalidType v "a map")

/-- `Vec<String>`. -/
def strings : Json → Except DecodeError (List String)
  | .array elems => elems.mapM string
  | v => .error (.invalidType v "a sequence")

/-- `Option<T>`: `null` is `None`. -/
def option {α : Type} (decode : Json → Except DecodeError α) : Json → Except DecodeError (Option α)
  | .null => .ok none
  | v => some <$> decode v

/-- A field of an object, with the value of an absent one. -/
def field {α : Type} (fields : List (String × Json)) (key : String)
    (decode : Json → Except DecodeError α) (absent : α) : Except DecodeError α :=
  match Fields.get? fields key with
  | some v => decode v
  | none => .ok absent

/-- A required field of an object. That it is missing is reported after the others were read. -/
def present {α : Type} (fields : List (String × Json)) (key : String)
    (decode : Json → Except DecodeError α) : Except DecodeError (Option α) :=
  field fields key (fun v => some <$> decode v) none

def required {α : Type} (key : String) : Option α → Except DecodeError α
  | some a => .ok a
  | none => .error (.missingField key)

/-- The `i`-th element of a struct that is written as an array. -/
def elem {α : Type} (elems : List Json) (i : Nat) (expected : String)
    (decode : Json → Except DecodeError α) : Except DecodeError α :=
  match elems[i]? with
  | some v => decode v
  | none => .error (.invalidLength i expected)

/-- The same, for a field with a default. -/
def elemOr {α : Type} (elems : List Json) (i : Nat)
    (decode : Json → Except DecodeError α) (absent : α) : Except DecodeError α :=
  match elems[i]? with
  | some v => decode v
  | none => .ok absent

/-- No element is left over. -/
def exhausted (elems : List Json) (n : Nat) : Except DecodeError Unit :=
  if elems.length > n then .error (.invalidLength elems.length "fewer elements in array") else .ok ()

@[simp] theorem string_string (s : String) : string (.string s) = .ok s := rfl

@[simp] theorem map_object (fields : List (String × Json)) : map (.object fields) = .ok fields := rfl

/-- A list of strings is read back. -/
@[simp] theorem strings_namesJson (names : List String) :
    strings (ModuleError.namesJson names) = .ok names := by
  show (names.map Json.string).mapM string = .ok names
  induction names with
  | nil => rfl
  | cons name rest ih =>
    rw [List.map_cons, List.mapM_cons, ih]
    rfl

end Decode

/-! ## Identities -/

namespace Identity

/-- The derived `Serialize`, which is also the literal that `Context::serialize` writes. -/
def toJson (identity : Identity) : Json :=
  .object [("attrs", .object identity.attrs), ("id", .string identity.id),
    ("roles", ModuleError.namesJson identity.roles), ("type", .string identity.identityType)]

/-- `IdentityRaw` from an object. -/
def ofFields (fields : List (String × Json)) : Except DecodeError Identity := do
  let attrs ← Decode.field fields "attrs" Decode.map []
  let id ← Decode.present fields "id" Decode.string
  let roles ← Decode.field fields "roles" Decode.strings []
  let identityType ← Decode.present fields "type" Decode.string
  let id ← Decode.required "id" id
  let identityType ← Decode.required "type" identityType
  pure { id, identityType, roles, attrs }

/-- `IdentityRaw` from an array. -/
def ofElems (elems : List Json) : Except DecodeError Identity := do
  let id ← Decode.elem elems 0 "struct IdentityRaw with 4 elements" Decode.string
  let identityType ← Decode.elem elems 1 "struct IdentityRaw with 4 elements" Decode.string
  let roles ← Decode.elemOr elems 2 Decode.strings []
  let attrs ← Decode.elemOr elems 3 Decode.map []
  Decode.exhausted elems 4
  pure { id, identityType, roles, attrs }

/-- `serde_json::from_value::<Identity>`. -/
def ofJson : Json → Except DecodeError Identity
  | .object fields => ofFields fields
  | .array elems => ofElems elems
  | v => .error (.invalidType v "struct IdentityRaw")

/-- An identity is read back. -/
@[simp] theorem ofJson_toJson (identity : Identity) : ofJson identity.toJson = .ok identity := by
  show ofFields _ = _
  simp only [ofFields, Decode.field, Decode.present, Fields.get?_cons, String.reduceEq, if_true,
    if_false, Decode.map_object, Decode.string_string, Decode.strings_namesJson]
  rfl

theorem option_ofJson (identity : Option Identity) :
    Decode.option ofJson ((identity.map toJson).getD .null) = .ok identity := by
  cases identity with
  | none => rfl
  | some identity =>
    show some <$> ofJson identity.toJson = _
    rw [ofJson_toJson]
    rfl

end Identity

/-! ## The derived encoding -/

namespace Context

open Decode

/-- `impl Serialize for Context`: what is skipped when absent is left out, and the token, the
deadline and the executor always are. -/
def toValue (ctx : Context) (data : List (String × Json)) : Json :=
  .object (
    [("call_chain", ModuleError.namesJson ctx.callChain)] ++
    ModuleError.optEntry "caller_id" (ctx.callerId.map .string) ++
    [("data", .object data)] ++
    ModuleError.optEntry "identity" (ctx.identity.map Identity.toJson) ++
    ModuleError.optEntry "redacted_inputs" (ctx.redactedInputs.map .object) ++
    ModuleError.optEntry "redacted_output" (ctx.redactedOutput.map .object) ++
    [("services", ctx.services), ("trace_id", .string ctx.traceId)])

/-- `impl Deserialize for Context`, from an object. -/
def ofFields (cell : Nat) (fields : List (String × Json)) :
    Except DecodeError (Context × List (String × Json)) := do
  let callChain ← field fields "call_chain" strings []
  let callerId ← field fields "caller_id" (option string) none
  let data ← field fields "data" map []
  let identity ← field fields "identity" (option Identity.ofJson) none
  let redactedInputs ← field fields "redacted_inputs" (option map) none
  let redactedOutput ← field fields "redacted_output" (option map) none
  let services ← present fields "services" .ok
  let traceId ← present fields "trace_id" string
  let traceId ← required "trace_id" traceId
  -- `services: Value` has no default, and `null` is a value of it only when it is written
  let services ← required "services" services
  pure ({ traceId, identity, services, callerId, data := cell, callChain, redactedInputs,
          redactedOutput, cancelToken := none, globalDeadline := none, executor := none }, data)

/-- `impl Deserialize for Context`, from an array. -/
def ofElems (cell : Nat) (elems : List Json) :
    Except DecodeError (Context × List (String × Json)) := do
  let expected := "struct Context with 8 elements"
  let traceId ← elem elems 0 expected string
  let identity ← elem elems 1 expected (option Identity.ofJson)
  let services ← elem elems 2 expected .ok
  let callerId ← elem elems 3 expected (option string)
  let data ← elemOr elems 4 map []
  let callChain ← elemOr elems 5 strings []
  let redactedInputs ← elem elems 6 expected (option map)
  let redactedOutput ← elem elems 7 expected (option map)
  exhausted elems 8
  pure ({ traceId, identity, services, callerId, data := cell, callChain, redactedInputs,
          redactedOutput, cancelToken := none, globalDeadline := none, executor := none }, data)

/-- `serde_json::from_value::<Context<Value>>`. -/
def ofValue (cell : Nat) : Json → Except DecodeError (Context × List (String × Json))
  | .object fields => ofFields cell fields
  | .array elems => ofElems cell elems
  | v => .error (.invalidType v "struct Context")

/-! ## The cross-language encoding -/

/-- `key.starts_with('_')`. -/
def isPrivateKey (key : String) : Bool := key.toList.head? == some '_'

/-- `result[key] = value`, when there is a value. -/
def insertOpt (key : String) (value : Option Json) (fields : List (String × Json)) :
    List (String × Json) :=
  match value with
  | some v => Fields.insert key v fields
  | none => fields

/-- `Context::serialize`. -/
def serialize (ctx : Context) (data : List (String × Json)) : Json :=
  let result : List (String × Json) :=
    [("_context_version", .number (.posInt 1)),
      ("call_chain", ModuleError.namesJson ctx.callChain),
      ("caller_id", (ctx.callerId.map Json.string).getD .null),
      ("trace_id", .string ctx.traceId)]
  let result := Fields.insert "identity" ((ctx.identity.map Identity.toJson).getD .null) result
  let result := insertOpt "redacted_inputs" (ctx.redactedInputs.map .object) result
  let result := insertOpt "redacted_output" (ctx.redactedOutput.map .object) result
  let filtered := data.filter fun entry => !isPrivateKey entry.1
  .object (Fields.insert "data" (.object filtered) result)

/-- `Context::deserialize`: only a value that is no object is refused, any other defect of a field
reads as its absence. The version marker decides about a warning only. -/
def deserialize (cell : Nat) (value : Json) :
    Except DecodeError (Context × List (String × Json)) :=
  match value.asObject? with
  | none => .error (.custom "expected JSON object")
  | some obj =>
    let identity := (Fields.get? obj "identity").bind fun v =>
      match v with
      | .null => none
      | v => (Identity.ofJson v).toOption
    let data := ((Fields.get? obj "data").bind fun v => (map v).toOption).getD []
    let callChain := ((Fields.get? obj "call_chain").bind fun v => (strings v).toOption).getD []
    let redactedInputs := (Fields.get? obj "redacted_inputs").bind fun v => (map v).toOption
    let redactedOutput := (Fields.get? obj "redacted_output").bind fun v => (map v).toOption
    let traceId := ((Fields.get? obj "trace_id").bind Json.asStr?).getD ""
    let callerId := (Fields.get? obj "caller_id").bind Json.asStr?
    .ok ({ traceId, callerId, callChain, identity, redactedInputs, redactedOutput, data := cell,
           services := .null, cancelToken := none, globalDeadline := none, executor := none }, data)

/-- `Context::to_json`. -/
def toJson (ctx : Context) (data : List (String × Json)) : Json := ctx.serialize data

/-- `Context::from_json`; `errorText` is the text of a `serde_json::Error`. -/
def fromJson (errorText : DecodeError → String) (cell : Nat) (data : Json) :
    Except ModuleError (Context × List (String × Json)) :=
  match ofValue cell data with
  | .ok ctx => .ok ctx
  | .error e => .error (.new .generalInvalidInput (errorText e))

/-! ## Round trips -/

/-- What a context and its restored form have in common. -/
structure SameContent (ctx : Context) (data : List (String × Json)) (ctx' : Context)
    (data' : List (String × Json)) : Prop where
  traceId : ctx'.traceId = ctx.traceId
  callerId : ctx'.callerId = ctx.callerId
  identity : ctx'.identity = ctx.identity
  callChain : ctx'.callChain = ctx.callChain
  redactedInputs : ctx'.redactedInputs = ctx.redactedInputs
  redactedOutput : ctx'.redactedOutput = ctx.redactedOutput
  data : ∀ key, isPrivateKey key = false → Fields.get? data' key = Fields.get? data key

theorem get?_insert (key other : String) (value : Json) (fields : List (String × Json)) :
    Fields.get? (Fields.insert key value fields) other =
      if key = other then some value else Fields.get? fields other := by
  split
  · next heq => rw [← heq]; exact Fields.get?_insert_self key value fields
  · next hne => exact Fields.get?_insert_ne (Ne.symm hne) value fields

theorem get?_insertOpt (key other : String) (value : Option Json) (fields : List (String × Json)) :
    Fields.get? (insertOpt key value fields) other =
      if key = other then value.or (Fields.get? fields other) else Fields.get? fields other := by
  cases value with
  | none => simp [insertOpt]
  | some v =>
    rw [insertOpt, get?_insert]
    rfl

/-- The filter of `serialize` keeps the public entries. -/
theorem get?_filter_public {key : String} (hkey : isPrivateKey key = false)
    (data : List (String × Json)) :
    Fields.get? (data.filter fun entry => !isPrivateKey entry.1) key = Fields.get? data key := by
  induction data with
  | nil => rfl
  | cons entry rest ih =>
    cases hentry : isPrivateKey entry.1 with
    | false => rw [List.filter_cons_of_pos (by simp [hentry]), Fields.get?_cons, Fields.get?_cons, ih]
    | true =>
      have hne : entry.1 ≠ key := by
        intro heq
        rw [heq, hkey] at hentry
        cases hentry
      rw [List.filter_cons_of_neg (by simp [hentry]), Fields.get?_cons, if_neg hne, ih]

/-- The fields of an object, but `services`, say what the context says. -/
structure Reads (ctx : Context) (data fields : List (String × Json)) : Prop where
  callChain : field fields "call_chain" strings [] = .ok ctx.callChain
  callerId : field fields "caller_id" (option string) none = .ok ctx.callerId
  data : field fields "data" map [] = .ok data
  identity : field fields "identity" (option Identity.ofJson) none = .ok ctx.identity
  redactedInputs : field fields "redacted_inputs" (option map) none = .ok ctx.redactedInputs
  redactedOutput : field fields "redacted_output" (option map) none = .ok ctx.redactedOutput
  traceId : present fields "trace_id" string = .ok (some ctx.traceId)

/-- The derived decoder fails on such an object exactly for want of `services`. -/
theorem Reads.ofFields_eq {ctx : Context} {data fields : List (String × Json)}
    (h : Reads ctx data fields) (cell : Nat) :
    ofFields cell fields =
      (required "services" (Fields.get? fields "services")).map fun services =>
        ({ ctx with
            services := services
            data := cell
            cancelToken := none
            globalDeadline := none
            executor := none }, data) := by
  have hservices : present fields "services" .ok = .ok (Fields.get? fields "services") := by
    unfold present field
    cases Fields.get? fields "services" <;> rfl
  unfold ofFields
  rw [h.callChain, h.callerId, h.data, h.identity, h.redactedInputs, h.redactedOutput, hservices,
    h.traceId]
  cases Fields.get? fields "services" <;> rfl

/-- The derived encoder writes every field the decoder reads. -/
theorem reads_toValue (ctx : Context) (data : List (String × Json)) :
    ∃ fields, ctx.toValue data = .object fields ∧ Reads ctx data fields ∧
      Fields.get? fields "services" = some ctx.services := by
  refine ⟨_, rfl, ?_, ?_⟩
  · constructor
    all_goals
      simp only [field, present, List.append_assoc, List.cons_append, List.nil_append,
        ModuleError.get?_optEntry_append, Fields.get?_cons, Fields.get?_nil, String.reduceEq,
        if_true, if_false, Option.or_none, strings_namesJson, map_object]
    · cases ctx.callerId <;> rfl
    · cases ctx.identity with
      | none => rfl
      | some identity => exact Identity.option_ofJson (some identity)
    · cases ctx.redactedInputs <;> rfl
    · cases ctx.redactedOutput <;> rfl
    · rfl
  · simp only [List.append_assoc, List.cons_append, List.nil_append,
      ModuleError.get?_optEntry_append, Fields.get?_cons, String.reduceEq, if_true, if_false]

/-- The cross-language encoder writes no `services`, and the public entries of the data map. -/
theorem reads_serialize (ctx : Context) (data : List (String × Json)) :
    ∃ fields, ctx.serialize data = .object fields ∧
      Reads ctx (data.filter fun entry => !isPrivateKey entry.1) fields ∧
      Fields.get? fields "services" = none := by
  refine ⟨_, rfl, ?_, ?_⟩
  · constructor
    all_goals
      simp only [field, present, get?_insert, get?_insertOpt, Fields.get?_cons, Fields.get?_nil,
        String.reduceEq, if_true, if_false, Option.or_none, strings_namesJson, map_object]
    · cases ctx.callerId <;> rfl
    · exact Identity.option_ofJson ctx.identity
    · cases ctx.redactedInputs <;> rfl
    · cases ctx.redactedOutput <;> rfl
    · rfl
  · simp only [get?_insert, get?_insertOpt, Fields.get?_cons, Fields.get?_nil, String.reduceEq,
      if_false]

/-- The derived pair gives a context back, the private entries of its data map included. -/
theorem ofValue_toValue (cell : Nat) (ctx : Context) (data : List (String × Json)) :
    ∃ ctx', ofValue cell (ctx.toValue data) = .ok (ctx', data) ∧ SameContent ctx data ctx' data := by
  obtain ⟨fields, hvalue, hreads, hservices⟩ := reads_toValue ctx data
  rw [hvalue]
  refine ⟨_, (hreads.ofFields_eq cell).trans (by rw [hservices]; rfl), ?_⟩
  exact ⟨rfl, rfl, rfl, rfl, rfl, rfl, fun _ _ => rfl⟩

theorem bind_map_object (redacted : Option (List (String × Json))) :
    (redacted.map Json.object).bind (fun v => (Decode.map v).toOption) = redacted := by
  cases redacted <;> rfl

/-- The cross-language pair gives the content back, in a context of its own. -/
theorem deserialize_serialize (cell : Nat) (ctx : Context) (data : List (String × Json)) :
    ∃ ctx' data', deserialize cell (ctx.serialize data) = .ok (ctx', data') ∧
      SameContent ctx data ctx' data' := by
  refine ⟨_, _, rfl, ?_⟩
  simp only [get?_insert, get?_insertOpt, Fields.get?_cons, Fields.get?_nil, String.reduceEq,
    if_true, if_false, Option.or_none]
  constructor
  case traceId => rfl
  case callerId => cases ctx.callerId <;> rfl
  case identity =>
    cases ctx.identity with
    | none => rfl
    | some identity =>
      show (Identity.ofJson identity.toJson).toOption = some identity
      rw [Identity.ofJson_toJson]
      rfl
  case callChain =>
    show (strings (ModuleError.namesJson ctx.callChain)).toOption.getD [] = ctx.callChain
    rw [strings_namesJson]
    rfl
  case redactedInputs => exact bind_map_object ctx.redactedInputs
  case redactedOutput => exact bind_map_object ctx.redactedOutput
  case data => exact fun key hkey => get?_filter_public hkey data

/-- `from_json` reads what `to_json` wrote up to the `services` it looks for. -/
theorem fromJson_toJson (errorText : DecodeError → String) (cell : Nat) (ctx : Context)
    (data : List (String × Json)) :
    fromJson errorText cell (ctx.toJson data) =
      .error (.new .generalInvalidInput (errorText (.missingField "services"))) := by
  obtain ⟨fields, hvalue, hreads, hservices⟩ := reads_serialize ctx data
  have hmissing : ofValue cell (ctx.toJson data) = .error (.missingField "services") := by
    show ofValue cell (ctx.serialize data) = _
    rw [hvalue]
    refine (hreads.ofFields_eq cell).trans ?_
    rw [hservices]
    rfl
  rw [fromJson, hmissing]

/-- Every pair of an encoder and a decoder gives the content of a context back. -/
structure RoundTrips (errorText : DecodeError → String) (cell : Nat) (ctx : Context)
    (data : List (String × Json)) : Prop where
  derived : ∃ ctx' data', ofValue cell (ctx.toValue data) = .ok (ctx', data') ∧
    SameContent ctx data ctx' data'
  crossLanguage : ∃ ctx' data', deserialize cell (ctx.serialize data) = .ok (ctx', data') ∧
    SameContent ctx data ctx' data'
  json : ∃ ctx' data', fromJson errorText cell (ctx.toJson data) = .ok (ctx', data') ∧
    SameContent ctx data ctx' data'

/-- No context round-trips: the derived pair and the cross-language pair give it back, and
`from_json` refuses what `to_json` wrote. -/
theorem not_roundTrips (errorText : DecodeError → String) (cell : Nat) (ctx : Context)
    (data : List (String × Json)) :
    ¬RoundTrips errorText cell ctx data ∧
      (∃ ctx', ofValue cell (ctx.toValue data) = .ok (ctx', data) ∧ SameContent ctx data ctx' data) ∧
      (∃ ctx' data', deserialize cell (ctx.serialize data) = .ok (ctx', data') ∧
        SameContent ctx data ctx' data') ∧
      ∀ restored, fromJson errorText cell (ctx.toJson data) ≠ .ok restored := by
  have hjson : ∀ restored, fromJson errorText cell (ctx.toJson data) ≠ .ok restored := by
    intro restored h
    rw [fromJson_toJson] at h
    cases h
  refine ⟨?_, ofValue_toValue cell ctx data, deserialize_serialize cell ctx data, hjson⟩
  intro h
  obtain ⟨ctx', data', hok, -⟩ := h.json
  exact hjson _ hok

/-- The anonymous context of an empty data map is refused. -/
theorem not_roundTrips_anonymous :
    ¬RoundTrips (fun _ => "missing field services") 1 (anonymous "trace" 0) [] := by
  intro h
  obtain ⟨ctx', data', hok, -⟩ := h.json
  have hfail : fromJson (fun _ => "missing field services") 1 ((anonymous "trace" 0).toJson []) =
      .error (.new .generalInvalidInput "missing field services") := rfl
  rw [hfail] at hok
  cases hok

end Context

end Apcore
