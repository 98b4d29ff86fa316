import Mathlib.Logic.Relation
import Apcore.Executor.Stream

/-! # `Executor.DeepMerge` — what merged chunks hold

Down to the cap the last chunk that writes a path decides what is there, and so does one that writes a
value that is no object above it; an object that is written is merged with the one that is there. At
the cap a key is replaced with all that is below it (`lawAt_deepMergeValue`). -/

namespace Apcore

/-! ## Paths -/

namespace Json

/-- What is at the end of a path of keys. -/
def valueAt : List String → Json → Option Json
  | [], v => some v
  | key :: path, v => (Fields.ofJson? v key).bind (valueAt path)

/-- No object that keys lead to has a key twice, as in every `serde_json::Value`. -/
def KeysDistinct (v : Json) : Prop :=
  ∀ path fields, v.valueAt path = some (.object fields) → (fields.map (·.1)).Nodup

/-- No object that keys lead to is deeper than so many levels. -/
def NestedTo (depth : Nat) (v : Json) : Prop :=
  ∀ path fields, v.valueAt path = some (.object fields) → path.length ≤ depth

section

variable {fields : List (String × Json)} {key : String} {path : List String} {v part : Json}

@[simp] theorem valueAt_nil : v.valueAt [] = some v := rfl

theorem valueAt_object :
    (object fields).valueAt (key :: path) = (Fields.get? fields key).bind (valueAt path) := rfl

theorem valueAt_of_not_object (h : v.isObject = false) : v.valueAt (key :: path) = none := by
  cases v with
  | object _ => cases h
  | _ => rfl

theorem KeysDistinct.nodup (h : KeysDistinct (object fields)) : (fields.map (·.1)).Nodup :=
  h [] fields rfl

theorem KeysDistinct.child (h : KeysDistinct (object fields))
    (hpart : Fields.get? fields key = some part) : KeysDistinct part := by
  intro path fields' hpath
  refine h (key :: path) fields' ?_
  rw [valueAt_object, hpart, Option.bind_some, hpath]

theorem keysDistinct_of_not_object (h : v.isObject = false) : KeysDistinct v := by
  intro path fields hpath
  cases path with
  | nil =>
    cases hpath
    cases h
  | cons key path =>
    rw [valueAt_of_not_object h] at hpath
    cases hpath

theorem keysDistinct_object (hnodup : (fields.map (·.1)).Nodup)
    (hparts : ∀ key part, Fields.get? fields key = some part → KeysDistinct part) :
    KeysDistinct (object fields) := by
  intro path fields' hpath
  cases path with
  | nil =>
    cases hpath
    exact hnodup
  | cons key path =>
    rw [valueAt_object] at hpath
    obtain ⟨part, hpart, hpath⟩ := Option.bind_eq_some_iff.mp hpath
    exact hparts key part hpart path fields' hpath

/-- An object with one entry. -/
theorem keysDistinct_singleton (h : KeysDistinct v) : KeysDistinct (object [(key, v)]) := by
  refine keysDistinct_object (List.nodup_singleton key) fun key' part hpart => ?_
  rw [Fields.get?_cons] at hpart
  split_ifs at hpart
  · exact Option.some.inj hpart ▸ h
  · cases hpart

theorem NestedTo.child {depth : Nat} (h : NestedTo (depth + 1) (object fields))
    (hpart : Fields.get? fields key = some part) : NestedTo depth part := by
  intro path fields' hpath
  have hle := h (key :: path) fields' (by rw [valueAt_object, hpart, Option.bind_some, hpath])
  exact Nat.le_of_succ_le_succ hle

theorem NestedTo.not_object (h : NestedTo 0 (object fields))
    (hpart : Fields.get? fields key = some part) : part.isObject = false := by
  cases part with
  | object fields' =>
    have hle := h [key] fields' (by rw [valueAt_object, hpart]; rfl)
    exact absurd hle (by simp)
  | _ => rfl

end

end Json

open Json

/-- What a chunk does to a path it does not leave alone: it writes a value that is no object above it,
or a value at its end. -/
inductive Written where
  | cut
  | value (v : Json)

/-- What a chunk does to a path. -/
def written : List String → Json → Option Written
  | [], v => some (.value v)
  | key :: path, .object fields => (Fields.get? fields key).bind (written path)
  | _ :: _, _ => some .cut

/-- What the last chunk does that does not leave the path alone. -/
def lastWritten (path : List String) : List Json → Option Written
  | [] => none
  | chunk :: rest => (lastWritten path rest).or (written path chunk)

/-- What becomes of the value at a path, with what is done to its part down to the cap. -/
def LawAt (maxDepth : Nat) (path : List String) (done : Option Written)
    (before after : Option Json) : Prop :=
  match done with
  | none => after = before
  | some .cut => after = none
  | some (.value v) =>
    if path.length ≤ maxDepth then
      if v.isObject then ∃ fields, after = some (.object fields) else after = some v
    else after = v.valueAt (path.drop (maxDepth + 1))

/-! ## One merge -/

section Merge

variable {fields overlay : List (String × Json)} {key : String} {room : Nat} {base : Json}

/-- The last assignment to a key stands. -/
theorem get?_assignFields (h : (overlay.map (·.1)).Nodup) :
    Fields.get? (assignFields fields overlay) key =
      (Fields.get? overlay key).or (Fields.get? fields key) := by
  induction overlay generalizing fields with
  | nil => rfl
  | cons entry rest ih =>
    rw [List.map_cons, List.nodup_cons] at h
    show Fields.get? (assignFields (Fields.insert entry.1 entry.2 fields) rest) key = _
    rw [ih h.2, Fields.get?_cons]
    by_cases hkey : entry.1 = key
    · subst hkey
      rw [if_pos rfl, Fields.get?_eq_none h.1, Option.none_or, Option.some_or, Fields.get?_insert_self]
    · rw [if_neg hkey, Fields.get?_insert_ne (Ne.symm hkey)]

/-- A key of the overlay is merged with what the base has there, and the others stay. -/
theorem get?_deepMergeFields (h : (overlay.map (·.1)).Nodup) :
    Fields.get? (deepMergeFields room fields overlay) key =
      (Fields.get? overlay key).elim (Fields.get? fields key) fun value =>
        some (deepMergeValue room ((Fields.get? fields key).getD .null) value) := by
  induction overlay generalizing fields with
  | nil => rfl
  | cons entry rest ih =>
    obtain ⟨key', value⟩ := entry
    rw [List.map_cons, List.nodup_cons] at h
    rw [deepMergeFields, deepMergeEntry, ih h.2, Fields.get?_cons]
    by_cases hkey : key' = key
    · subst hkey
      rw [if_pos rfl, Fields.get?_eq_none h.1]
      exact Fields.get?_insert_self ..
    · rw [if_neg hkey, Fields.get?_insert_ne (Ne.symm hkey)]

/-- Into a value that is no object the overlay goes as it is. -/
theorem deepMergeValue_of_not_object (h : base.isObject = false) (overlay : Json) :
    deepMergeValue room base overlay = overlay := by
  cases overlay with
  | object fields =>
    cases base with
    | object _ => cases h
    | _ => cases room <;> rfl
  | _ => rfl

/-- A value that is no object replaces what is there. -/
theorem deepMergeValue_not_object {overlay : Json} (h : overlay.isObject = false) :
    deepMergeValue room base overlay = overlay := by
  cases overlay with
  | object _ => cases h
  | _ => rfl

/-- Objects are merged to an object. -/
theorem exists_deepMergeValue_object (room : Nat) (base : Json) (overlay : List (String × Json)) :
    ∃ fields, deepMergeValue room base (.object overlay) = .object fields := by
  cases base with
  | object _ => cases room <;> exact ⟨_, rfl⟩
  | _ => cases room <;> exact ⟨_, rfl⟩

/-- At the cap the entries of the overlay replace those of the base. -/
theorem ofJson?_deepMergeValue_zero (h : (overlay.map (·.1)).Nodup) :
    Fields.ofJson? (deepMergeValue 0 base (.object overlay)) key =
      (Fields.get? overlay key).or (Fields.ofJson? base key) := by
  cases base with
  | object fields => exact get?_assignFields h
  | _ =>
    show Fields.get? overlay key = (Fields.get? overlay key).or none
    rw [Option.or_none]

/-- Above the cap they are merged with them. -/
theorem ofJson?_deepMergeValue_succ (h : (overlay.map (·.1)).Nodup) :
    Fields.ofJson? (deepMergeValue (room + 1) base (.object overlay)) key =
      (Fields.get? overlay key).elim (Fields.ofJson? base key) fun value =>
        some (deepMergeValue room ((Fields.ofJson? base key).getD .null) value) := by
  cases base with
  | object fields => exact get?_deepMergeFields h
  | _ =>
    show Fields.get? overlay key = (Fields.get? overlay key).elim none fun value =>
      some (deepMergeValue room .null value)
    cases Fields.get? overlay key with
    | none => rfl
    | some value => exact congrArg some (deepMergeValue_of_not_object rfl value).symm

end Merge

/-- The law for what is below a key, one level up. -/
theorem LawAt.under {room : Nat} {key : String} {path : List String} {old : Option Json}
    {part : Json} {after : Option Json}
    (h : LawAt room path (written (path.take (room + 1)) part) ((old.getD .null).valueAt path) after) :
    LawAt (room + 1) (key :: path) (written (path.take (room + 1)) part) (old.bind (valueAt path))
      after := by
  cases path with
  | nil =>
    simpa only [LawAt, List.take_nil, written, List.length_nil, List.length_cons, Nat.zero_le,
      Nat.le_add_left, if_true] using h
  | cons key' path =>
    have hold : (old.getD .null).valueAt (key' :: path) = old.bind (valueAt (key' :: path)) := by
      cases old <;> rfl
    rw [hold] at h
    unfold LawAt at h ⊢
    simpa only [List.length_cons, Nat.add_le_add_iff_right, List.drop_succ_cons] using h

/-- **What one merge does to a path.** By induction on the path, level by level. -/
theorem lawAt_deepMergeValue (path : List String) (room : Nat) (base : Json) {overlay : Json}
    (h : overlay.KeysDistinct) :
    LawAt room path (written (path.take (room + 1)) overlay) (base.valueAt path)
      ((deepMergeValue room base overlay).valueAt path) := by
  induction path generalizing room base overlay with
  | nil =>
    rw [List.take_nil, written, LawAt, List.length_nil, if_pos (Nat.zero_le room), valueAt_nil]
    cases overlay with
    | object fields =>
      obtain ⟨merged, hmerged⟩ := exists_deepMergeValue_object room base fields
      exact ⟨merged, congrArg some hmerged⟩
    | _ => exact congrArg some (deepMergeValue_not_object rfl)
  | cons key path ih =>
    rw [List.take_succ_cons]
    cases overlay with
    | object fields =>
      have hnodup := h.nodup
      show LawAt room (key :: path) ((Fields.get? fields key).bind (written (path.take room)))
        ((Fields.ofJson? base key).bind (valueAt path))
        ((Fields.ofJson? (deepMergeValue room base (.object fields)) key).bind (valueAt path))
      cases hpart : Fields.get? fields key with
      | none =>
        -- the overlay leaves the key alone
        cases room with
        | zero => rw [ofJson?_deepMergeValue_zero hnodup, hpart]; rfl
        | succ room => rw [ofJson?_deepMergeValue_succ hnodup, hpart]; rfl
      | some part =>
        cases room with
        | zero =>
          rw [ofJson?_deepMergeValue_zero hnodup, hpart, Option.some_or, Option.bind_some,
            Option.bind_some, List.take_zero, written, LawAt, List.length_cons,
            if_neg (Nat.not_succ_le_zero path.length)]
          rfl
        | succ room =>
          rw [ofJson?_deepMergeValue_succ hnodup, hpart]
          exact (ih room ((Fields.ofJson? base key).getD .null) (h.child hpart)).under
    | _ => exact (valueAt_of_not_object rfl)

/-! ## All chunks -/

/-- What the loop over the chunks does to a path: the last chunk that does not leave it alone decides. -/
theorem lawAt_mergeChunksFrom (path : List String) (maxDepth : Nat) {chunks : List Json}
    (h : ∀ chunk ∈ chunks, chunk.KeysDistinct) {index : Nat} {acc merged : Json}
    (hmerged : mergeChunksFrom maxDepth index acc chunks = .ok merged) :
    LawAt maxDepth path (lastWritten (path.take (maxDepth + 1)) chunks) (acc.valueAt path)
      (merged.valueAt path) := by
  induction chunks generalizing index acc with
  | nil =>
    cases hmerged
    exact rfl
  | cons chunk rest ih =>
    rw [mergeChunksFrom] at hmerged
    split_ifs at hmerged
    have hlast := ih (fun c hc => h c (List.mem_cons_of_mem _ hc)) hmerged
    have hfirst := lawAt_deepMergeValue path maxDepth acc (h chunk List.mem_cons_self)
    rw [lastWritten]
    cases hrest : lastWritten (path.take (maxDepth + 1)) rest with
    | some done =>
      rw [hrest] at hlast
      cases done <;> exact hlast
    | none =>
      rw [hrest] at hlast
      have hsame : merged.valueAt path = (deepMergeValue maxDepth acc chunk).valueAt path := hlast
      rw [Option.none_or, hsame]
      exact hfirst

/-- The loop errs at the first chunk that is no object. -/
theorem mergeChunksFrom_cases (maxDepth index : Nat) (acc : Json) (chunks : List Json) :
    ((∀ chunk ∈ chunks, chunk.isObject = true) ∧
        ∃ merged, mergeChunksFrom maxDepth index acc chunks = .ok merged) ∨
      ∃ front chunk rest, chunks = front ++ chunk :: rest ∧
        (∀ earlier ∈ front, earlier.isObject = true) ∧ chunk.isObject = false ∧
          mergeChunksFrom maxDepth index acc chunks =
            .error (streamChunkNotObjectError (index + front.length) chunk) := by
  induction chunks generalizing index acc with
  | nil => exact .inl ⟨by simp, acc, rfl⟩
  | cons chunk rest ih =>
    rw [mergeChunksFrom]
    by_cases hobject : chunk.isObject = true
    · rw [if_pos hobject]
      rcases ih (index + 1) (deepMergeValue maxDepth acc chunk) with
        ⟨hall, hmerged⟩ | ⟨front, bad, rest', rfl, hfront, hbad, herror⟩
      · exact .inl ⟨List.forall_mem_cons.mpr ⟨hobject, hall⟩, hmerged⟩
      · refine .inr ⟨chunk :: front, bad, rest', rfl, List.forall_mem_cons.mpr ⟨hobject, hfront⟩,
          hbad, ?_⟩
        rw [herror, List.length_cons, Nat.add_right_comm, Nat.add_assoc]
    · rw [if_neg hobject]
      exact .inr ⟨[], chunk, rest, rfl, by simp, by simpa using hobject, rfl⟩

/-! ## Without a cap -/

mutual

/-- The merge without a cap. -/
def mergeValue (base : Json) : Json → Json
  | .object overlay =>
    match base with
    | .object fields => .object (mergeFields fields overlay)
    | _ => .object overlay
  | overlay => overlay

/-- The entries of an overlay merged into those of the base. -/
def mergeFields (base : List (String × Json)) : List (String × Json) → List (String × Json)
  | [] => base
  | entry :: rest => mergeFields (mergeEntry base entry) rest

/-- One entry merged. -/
def mergeEntry (base : List (String × Json)) : String × Json → List (String × Json)
  | (key, value) => Fields.insert key (mergeValue ((Fields.get? base key).getD .null) value) base

end

theorem mergeValue_not_object {overlay : Json} (h : overlay.isObject = false) (base : Json) :
    mergeValue base overlay = overlay := by
  cases overlay with
  | object _ => cases h
  | _ => rfl

/-- **Nothing is deeper than the cap, and it makes no difference.** By induction on the overlay. -/
theorem deepMergeValue_eq_mergeValue (overlay : Json) {room : Nat} (base : Json)
    (h : overlay.KeysDistinct) (hnested : overlay.NestedTo room) :
    deepMergeValue room base overlay = mergeValue base overlay := by
  induction overlay using Json.children_induction generalizing room base with
  | object overlay ih =>
    cases base with
    | object fields =>
      have hpart (entry : String × Json) (hentry : entry ∈ overlay) :
          Fields.get? overlay entry.1 = some entry.2 :=
        Fields.get?_of_mem h.nodup hentry
      cases room with
      | zero =>
        have hfields : ∀ (entries : List (String × Json)) (fields : List (String × Json)),
            (∀ entry ∈ entries, entry.2.isObject = false) →
              assignFields fields entries = mergeFields fields entries := by
          intro entries
          induction entries with
          | nil => exact fun _ _ => rfl
          | cons entry rest ih =>
            intro fields hentries
            rw [mergeFields, mergeEntry, mergeValue_not_object (hentries entry List.mem_cons_self)]
            exact ih _ fun entry hentry => hentries entry (List.mem_cons_of_mem _ hentry)
        exact congrArg Json.object
          (hfields overlay fields fun entry hentry => hnested.not_object (hpart entry hentry))
      | succ room =>
        have hfields : ∀ (entries : List (String × Json)) (fields : List (String × Json)),
            (∀ entry ∈ entries, entry ∈ overlay) →
              deepMergeFields room fields entries = mergeFields fields entries := by
          intro entries
          induction entries with
          | nil => exact fun _ _ => rfl
          | cons entry rest ih' =>
            intro fields hentries
            have hentry := hentries entry List.mem_cons_self
            have hvalue (base : Json) :=
              ih entry hentry base (h.child (hpart entry hentry)) (hnested.child (hpart entry hentry))
            rw [deepMergeFields, mergeFields, deepMergeEntry, mergeEntry, hvalue]
            exact ih' _ fun entry hentry => hentries entry (List.mem_cons_of_mem _ hentry)
        exact congrArg Json.object (hfields overlay fields fun _ hentry => hentry)
    | _ => cases room <;> rfl
  | _ => rfl

/-- The merge of all chunks without a cap. -/
def mergeAll (chunks : List Json) : Json := chunks.foldl mergeValue (.object [])

theorem mergeChunksFrom_uncapped {maxDepth index : Nat} {acc merged : Json} {chunks : List Json}
    (h : ∀ chunk ∈ chunks, chunk.KeysDistinct ∧ chunk.NestedTo maxDepth)
    (hmerged : mergeChunksFrom maxDepth index acc chunks = .ok merged) :
    merged = chunks.foldl mergeValue acc := by
  induction chunks generalizing index acc with
  | nil =>
    cases hmerged
    rfl
  | cons chunk rest ih =>
    rw [mergeChunksFrom] at hmerged
    split_ifs at hmerged
    obtain ⟨hdistinct, hnested⟩ := h chunk List.mem_cons_self
    rw [deepMergeValue_eq_mergeValue chunk acc hdistinct hnested] at hmerged
    exact ih (fun c hc => h c (List.mem_cons_of_mem _ hc)) hmerged

/-! ## Recursion -/

/-- A call of `deep_merge_value`: its depth, the base and the overlay. -/
structure MergeCall where
  depth : Nat
  base : Json
  overlay : Json

/-- A call below the cap calls for each entry of the overlay, with the base as it is by then. -/
inductive MergeCall.Makes (maxDepth : Nat) : MergeCall → MergeCall → Prop
  | entry {depth : Nat} {fields front rest : List (String × Json)} {key : String} {value : Json}
      (hdepth : depth < maxDepth) :
      Makes maxDepth ⟨depth, .object fields, .object (front ++ (key, value) :: rest)⟩
        ⟨depth + 1,
          (Fields.get? (deepMergeFields (maxDepth - depth - 1) fields front) key).getD .null, value⟩

/-- No call is deeper than the cap. -/
theorem MergeCall.depth_le {maxDepth : Nat} {acc chunk : Json} {call : MergeCall}
    (h : Relation.ReflTransGen (MergeCall.Makes maxDepth) ⟨0, acc, chunk⟩ call) :
    call.depth ≤ maxDepth := by
  induction h with
  | refl => exact Nat.zero_le _
  | tail _ hmakes _ =>
    cases hmakes with
    | entry hdepth => exact hdepth

/-! ## Together -/

/-- The value at a path is that of the last chunk that writes the path, or nothing if that chunk
writes a value that is no object above it; an object is merged and stays an object. -/
def AgreesAt : Option Written → Option Json → Prop
  | some (.value v), after => if v.isObject then ∃ fields, after = some (.object fields) else after = some v
  | _, after => after = none

/-- What is below a key that was replaced. -/
def belowCap (path : List String) : Option Written → Option Json
  | some (.value v) => v.valueAt path
  | _ => none

/-- What `deep_merge_chunks_checked_with_depth` makes of the chunks. -/
structure MergeLaws (chunks : List Json) (maxDepth : Nat) : Prop where
  errs : (∃ e, deepMergeChunksCheckedWithDepth chunks maxDepth = .error e) ↔
    ∃ chunk ∈ chunks, chunk.isObject = false
  names : ∀ e, deepMergeChunksCheckedWithDepth chunks maxDepth = .error e →
    ∃ front chunk rest, chunks = front ++ chunk :: rest ∧
      (∀ earlier ∈ front, earlier.isObject = true) ∧ chunk.isObject = false ∧
        e = streamChunkNotObjectError front.length chunk
  /-- Down to the cap the last writer wins. -/
  lastWriter : ∀ merged, deepMergeChunksCheckedWithDepth chunks maxDepth = .ok merged →
    ∀ path, path ≠ [] → path.length ≤ maxDepth →
      AgreesAt (lastWritten path chunks) (merged.valueAt path)
  /-- The keys one level further have what the last writer has there, whole. -/
  atCap : ∀ merged, deepMergeChunksCheckedWithDepth chunks maxDepth = .ok merged →
    ∀ front path, front.length = maxDepth + 1 →
      merged.valueAt (front ++ path) = belowCap path (lastWritten front chunks)
  /-- What later chunks leave alone survives. -/
  survives : ∀ front rest, chunks = front ++ rest → ∀ merged,
    deepMergeChunksCheckedWithDepth chunks maxDepth = .ok merged →
      ∃ earlier, deepMergeChunksCheckedWithDepth front maxDepth = .ok earlier ∧
        ∀ path, lastWritten (path.take (maxDepth + 1)) rest = none →
          merged.valueAt path = earlier.valueAt path
  uncapped : (∀ chunk ∈ chunks, chunk.NestedTo maxDepth) → ∀ merged,
    deepMergeChunksCheckedWithDepth chunks maxDepth = .ok merged → merged = mergeAll chunks
  depth : ∀ acc chunk call,
    Relation.ReflTransGen (MergeCall.Makes maxDepth) ⟨0, acc, chunk⟩ call → call.depth ≤ maxDepth

/-- The loop over some chunks, and then over the others. -/
theorem mergeChunksFrom_append {maxDepth index : Nat} {acc merged : Json} {front rest : List Json}
    (h : mergeChunksFrom maxDepth index acc (front ++ rest) = .ok merged) :
    ∃ earlier, mergeChunksFrom maxDepth index acc front = .ok earlier ∧
      mergeChunksFrom maxDepth (index + front.length) earlier rest = .ok merged := by
  induction front generalizing index acc with
  | nil => exact ⟨acc, rfl, h⟩
  | cons chunk front ih =>
    rw [List.cons_append, mergeChunksFrom] at h
    rw [mergeChunksFrom]
    split_ifs at h ⊢
    obtain ⟨earlier, hfront, hrest⟩ := ih h
    refine ⟨earlier, hfront, ?_⟩
    rwa [List.length_cons, Nat.add_comm front.length, ← Nat.add_assoc]

/-- **What merged chunks hold, for all chunks and every cap.** -/
theorem deepMerge_laws (chunks : List Json) (maxDepth : Nat)
    (h : ∀ chunk ∈ chunks, chunk.KeysDistinct) : MergeLaws chunks maxDepth := by
  have hcases := mergeChunksFrom_cases maxDepth 0 (.object []) chunks
  have hempty (path : List String) (hpath : path ≠ []) : (Json.object []).valueAt path = none := by
    cases path with
    | nil => exact absurd rfl hpath
    | cons key path => rfl
  refine
    { errs := ?_, names := ?_, lastWriter := ?_, atCap := ?_, survives := ?_, uncapped := ?_,
      depth := fun acc chunk call hcall => MergeCall.depth_le hcall }
  · rcases hcases with ⟨hall, merged, hmerged⟩ | ⟨front, chunk, rest, rfl, -, hbad, herror⟩
    · constructor
      · rintro ⟨e, he⟩
        exact absurd (hmerged.symm.trans he) nofun
      · rintro ⟨chunk, hchunk, hbad⟩
        rw [hall chunk hchunk] at hbad
        cases hbad
    · exact ⟨fun _ => ⟨chunk, List.mem_append_right _ List.mem_cons_self, hbad⟩, fun _ => ⟨_, herror⟩⟩
  · intro e he
    rcases hcases with ⟨-, merged, hmerged⟩ | ⟨front, chunk, rest, hsplit, hfront, hbad, herror⟩
    · exact absurd (hmerged.symm.trans he) nofun
    · refine ⟨front, chunk, rest, hsplit, hfront, hbad, ?_⟩
      rw [Nat.zero_add] at herror
      exact Except.error.inj (he.symm.trans herror)
  · intro merged hmerged path hpath hlength
    have hlaw := lawAt_mergeChunksFrom path maxDepth h hmerged
    rw [List.take_of_length_le (by omega), hempty path hpath] at hlaw
    cases hlast : lastWritten path chunks with
    | none =>
      rw [hlast] at hlaw
      exact hlaw
    | some done =>
      rw [hlast] at hlaw
      cases done with
      | cut => exact hlaw
      | value v => exact (if_pos hlength).mp hlaw
  · intro merged hmerged front path hlength
    have hlaw := lawAt_mergeChunksFrom (front ++ path) maxDepth h hmerged
    rw [List.take_left' hlength, hempty _ fun hnil => by simp [List.append_eq_nil_iff.mp hnil] at hlength]
      at hlaw
    cases hlast : lastWritten front chunks with
    | none =>
      rw [hlast] at hlaw
      exact hlaw
    | some done =>
      rw [hlast] at hlaw
      cases done with
      | cut => exact hlaw
      | value v =>
        have hlong : ¬ (front ++ path).length ≤ maxDepth := by
          rw [List.length_append]
          omega
        have hvalue : merged.valueAt (front ++ path) =
            v.valueAt ((front ++ path).drop (maxDepth + 1)) := (if_neg hlong).mp hlaw
        rwa [List.drop_left' hlength] at hvalue
  · rintro front rest rfl merged hmerged
    obtain ⟨earlier, hfront, hrest⟩ := mergeChunksFrom_append hmerged
    refine ⟨earlier, hfront, fun path hpath => ?_⟩
    have hlaw := lawAt_mergeChunksFrom path maxDepth
      (fun chunk hchunk => h chunk (List.mem_append_right _ hchunk)) hrest
    rw [hpath] at hlaw
    exact hlaw
  · exact fun hnested merged hmerged =>
      mergeChunksFrom_uncapped (fun chunk hchunk => ⟨h chunk hchunk, hnested chunk hchunk⟩) hmerged

/-- Two chunks that write next to each other, two levels down. -/
def siblingChunks : List Json :=
  [.object [("a", .object [("x", .bool true)])], .object [("a", .object [("y", .bool true)])]]

theorem siblingChunks_keysDistinct : ∀ chunk ∈ siblingChunks, chunk.KeysDistinct := by
  have hchunk (key : String) : KeysDistinct (.object [("a", .object [(key, .bool true)])]) :=
    keysDistinct_singleton (keysDistinct_singleton (keysDistinct_of_not_object rfl))
  exact List.forall_mem_cons.mpr ⟨hchunk "x", List.forall_mem_cons.mpr ⟨hchunk "y", nofun⟩⟩

theorem deepMerge_siblings : MergeLaws siblingChunks 0 :=
  deepMerge_laws siblingChunks 0 siblingChunks_keysDistinct

/-- Below the cap what the last chunk left alone is lost. -/
theorem not_lastWriter_everywhere :
    ¬ ∀ (chunks : List Json) (maxDepth : Nat) (merged : Json),
      (∀ chunk ∈ chunks, chunk.KeysDistinct) →
        deepMergeChunksCheckedWithDepth chunks maxDepth = .ok merged →
          ∀ path, path ≠ [] → AgreesAt (lastWritten path chunks) (merged.valueAt path) := by
  intro h
  have hlost := h siblingChunks 0 _ siblingChunks_keysDistinct rfl ["a", "x"] (by simp)
  have hwritten : lastWritten ["a", "x"] siblingChunks = some (.value (.bool true)) := rfl
  rw [hwritten] at hlost
  cases hlost

end Apcore
