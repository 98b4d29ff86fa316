import Mathlib.Algebra.Order.Ring.Rat
import Mathlib.Data.List.Basic

/-! # `Json` — the untyped values of `serde_json`

A number is one of the three shapes of `serde_json::Number`: an unsigned 64-bit integer, a negative
integer, or a finite double, which is modelled by the rational it stands for. An object is the list
of its entries in the ascending key order of `serde_json::Map`. -/

namespace Apcore

/-- `serde_json::Number`. -/
inductive Number where
  | posInt (n : UInt64)
  | negInt (n : Int)
  | float (q : ℚ)
  deriving DecidableEq, Repr

/-- `serde_json::Value`. -/
inductive Json where
  | null
  | bool (b : Bool)
  | number (n : Number)
  | string (s : String)
  | array (elems : List Json)
  | object (fields : List (String × Json))
  deriving Repr, Inhabited

namespace Json

def asBool? : Json → Option Bool
  | .bool b => some b
  | _ => none

def asStr? : Json → Option String
  | .string s => some s
  | _ => none

def asNumber? : Json → Option Number
  | .number n => some n
  | _ => none

def asArray? : Json → Option (List Json)
  | .array elems => some elems
  | _ => none

def asObject? : Json → Option (List (String × Json))
  | .object fields => some fields
  | _ => none

def isObject (v : Json) : Bool := v.asObject?.isSome

/-- `as_u64`. -/
def asU64? : Json → Option Nat
  | .number (.posInt n) => some n.toNat
  | _ => none

def isNull : Json → Bool
  | .null => true
  | _ => false

theorem isNull_eq_false {v : Json} (h : v ≠ .null) : v.isNull = false := by
  cases v with
  | null => exact absurd rfl h
  | _ => rfl

/-- Induction over a value: the children of an object or an array come first. -/
@[elab_as_elim]
theorem children_induction {motive : Json → Prop} (null : motive null)
    (bool : ∀ b, motive (bool b)) (number : ∀ n, motive (number n))
    (string : ∀ s, motive (string s))
    (array : ∀ elems, (∀ v ∈ elems, motive v) → motive (array elems))
    (object : ∀ fields, (∀ entry ∈ fields, motive entry.2) → motive (object fields))
    (v : Json) : motive v :=
  match v with
  | .null => null
  | .bool b => bool b
  | .number n => number n
  | .string s => string s
  | .array elems => array elems fun v hv =>
    have := List.sizeOf_lt_of_mem hv
    children_induction null bool number string array object v
  | .object fields => object fields fun entry hentry =>
    have := List.sizeOf_lt_of_mem hentry
    have : sizeOf entry.2 < sizeOf entry := by
      rw [Prod.mk.sizeOf_spec]
      omega
    children_induction null bool number string array object entry.2
termination_by sizeOf v

@[simp] theorem asStr?_string (s : String) : (string s).asStr? = some s := rfl

@[simp] theorem asArray?_eq_some {v : Json} {elems : List Json} :
    v.asArray? = some elems ↔ v = .array elems := by
  cases v <;> simp [asArray?]

end Json

/-! ## Maps keyed by strings

`HashMap<String, Value>` and `serde_json::Map` are association lists; `lookup` reads the first
entry of a key. -/

namespace Fields

variable {α : Type}

/-- `map.get(key)`. -/
def get? (fields : List (String × α)) (key : String) : Option α :=
  (fields.find? (·.1 == key)).map (·.2)

/-- `map.contains_key(key)`. -/
def containsKey (fields : List (String × α)) (key : String) : Bool := (get? fields key).isSome

/-- `map.remove(key)`, keeping the other entries. -/
def erase (fields : List (String × α)) (key : String) : List (String × α) :=
  fields.filter (·.1 != key)

/-- `map.insert(key, value)`: replaces the entry of `key`, or adds one at its place in ascending
key order. -/
def insert (key : String) (value : α) : List (String × α) → List (String × α)
  | [] => [(key, value)]
  | (k, v) :: rest =>
    if key < k then (key, value) :: (k, v) :: rest
    else if key = k then (key, value) :: rest
    else (k, v) :: insert key value rest

/-- `value.get(key)`: of an object, the value of the key. -/
def ofJson? (v : Json) (key : String) : Option Json := v.asObject?.bind (get? · key)

@[simp] theorem get?_nil (key : String) : get? ([] : List (String × α)) key = none := rfl

theorem get?_cons (key : String) (entry : String × α) (rest : List (String × α)) :
    get? (entry :: rest) key = if entry.1 = key then some entry.2 else get? rest key := by
  by_cases h : entry.1 = key <;> simp [get?, h]

/-- A key that is not listed is not found. -/
theorem get?_eq_none {fields : List (String × α)} {key : String} (h : key ∉ fields.map (·.1)) :
    get? fields key = none := by
  rw [get?, Option.map_eq_none_iff, List.find?_eq_none]
  exact fun entry hentry heq => h (List.mem_map.mpr ⟨entry, hentry, by simpa using heq⟩)

/-- The entry that is listed for a key is the one that is found, where no key is listed twice. -/
theorem get?_of_mem {fields : List (String × α)} (h : (fields.map (·.1)).Nodup)
    {entry : String × α} (hentry : entry ∈ fields) : get? fields entry.1 = some entry.2 := by
  induction fields with
  | nil => cases hentry
  | cons first rest ih =>
    rw [List.map_cons, List.nodup_cons] at h
    rw [get?_cons]
    rcases List.mem_cons.mp hentry with rfl | hentry
    · exact if_pos rfl
    · rw [if_neg fun heq : first.1 = entry.1 => h.1 (heq ▸ List.mem_map.mpr ⟨entry, hentry, rfl⟩),
        ih h.2 hentry]

/-- The key just erased is absent. -/
@[simp] theorem get?_erase_self (fields : List (String × α)) (key : String) :
    get? (erase fields key) key = none := by
  simp [get?, erase, List.find?_eq_none]

/-- Erasing one key leaves the others as they were. -/
theorem get?_erase_ne (fields : List (String × α)) {key other : String} (hne : other ≠ key) :
    get? (erase fields key) other = get? fields other := by
  induction fields with
  | nil => rfl
  | cons entry rest ih =>
    by_cases h : entry.1 = key
    · have hother : entry.1 ≠ other := fun heq => hne (heq.symm.trans h)
      rw [erase, List.filter_cons_of_neg (by simp [h]), get?_cons, if_neg hother]
      exact ih
    · rw [erase, List.filter_cons_of_pos (by simp [h]), get?_cons, get?_cons]
      exact congrArg _ ih

/-- The entry just inserted is the one read back. -/
@[simp] theorem get?_insert_self (key : String) (value : α) (fields : List (String × α)) :
    get? (insert key value fields) key = some value := by
  induction fields with
  | nil => simp [insert, get?_cons]
  | cons entry rest ih =>
    obtain ⟨k, v⟩ := entry
    simp only [insert]
    split
    · simp [get?_cons]
    · split
      · simp [get?_cons]
      · next hne => rw [get?_cons, if_neg (fun h => hne h.symm), ih]

/-- Inserting one key leaves the others as they were. -/
theorem get?_insert_ne {key other : String} (hne : other ≠ key) (value : α)
    (fields : List (String × α)) : get? (insert key value fields) other = get? fields other := by
  induction fields with
  | nil => simp [insert, get?_cons, hne.symm]
  | cons entry rest ih =>
    obtain ⟨k, v⟩ := entry
    simp only [insert]
    split
    · rw [get?_cons, if_neg hne.symm]
    · split
      · next heq => subst heq; rw [get?_cons, get?_cons, if_neg hne.symm, if_neg hne.symm]
      · rw [get?_cons, get?_cons, ih]

/-- An entry of the new map is the one inserted or was there. -/
theorem mem_insert {key : String} {value : α} {fields : List (String × α)} {entry : String × α}
    (h : entry ∈ insert key value fields) : entry = (key, value) ∨ entry ∈ fields := by
  induction fields with
  | nil => exact .inl (List.mem_singleton.mp h)
  | cons first rest ih =>
    rw [insert] at h
    split at h
    · exact List.mem_cons.mp h
    · split at h
      · exact (List.mem_cons.mp h).imp_right (List.mem_cons_of_mem _)
      · rcases List.mem_cons.mp h with rfl | h
        · exact .inr List.mem_cons_self
        · exact (ih h).imp_right (List.mem_cons_of_mem _)

end Fields

end Apcore
