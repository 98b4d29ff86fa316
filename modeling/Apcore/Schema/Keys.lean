import Apcore.Json
import Mathlib.Algebra.GroupWithZero.Nat
import Mathlib.Data.List.Dedup
import Mathlib.Data.List.Sort
import Mathlib.Data.String.Basic

/-! # `Schema.Keys` — maps that are changed key by key

What `serde_json::Map` does with one key leaves the others where they are, so that changes of
different keys commute, and the same change twice is one. -/

namespace Apcore

/-- `map.keys()`, sorted. -/
def sortedKeys {α : Type} (map : List (String × α)) : List String :=
  (map.map (·.1)).dedup.insertionSort (· ≤ ·)

theorem mem_sortedKeys {α : Type} {map : List (String × α)} {key : String} :
    key ∈ sortedKeys map ↔ (Fields.get? map key).isSome = true := by
  unfold sortedKeys Fields.get?
  rw [List.mem_insertionSort, List.mem_dedup, List.mem_map, Option.isSome_map, List.find?_isSome]
  constructor
  · rintro ⟨entry, hentry, rfl⟩
    exact ⟨entry, hentry, beq_self_eq_true _⟩
  · rintro ⟨entry, hentry, heq⟩
    exact ⟨entry, hentry, eq_of_beq heq⟩

theorem mem_sortedKeys_of_mem {α : Type} {map : List (String × α)} {entry : String × α}
    (h : entry ∈ map) : entry.1 ∈ sortedKeys map := by
  unfold sortedKeys
  rw [List.mem_insertionSort, List.mem_dedup]
  exact List.mem_map_of_mem h

theorem sortedKeys_sortedLT {α : Type} (map : List (String × α)) : (sortedKeys map).SortedLT :=
  List.sortedLE_insertionSort.sortedLT_of_nodup
    ((List.perm_insertionSort _ _).nodup_iff.mpr (List.nodup_dedup _))

theorem sortedKeys_congr {α : Type} {map map' : List (String × α)}
    (h : map.map (·.1) = map'.map (·.1)) : sortedKeys map = sortedKeys map' := by
  unfold sortedKeys
  rw [h]

namespace Fields

variable {α : Type}

theorem mem_of_get? {fields : List (String × α)} {key : String} {v : α} (h : get? fields key = some v) :
    (key, v) ∈ fields := by
  obtain ⟨entry, hfind, rfl⟩ := Option.map_eq_some_iff.mp h
  have hname : entry.1 = key := by simpa using List.find?_some hfind
  rw [← hname]
  exact List.mem_of_find?_eq_some hfind

/-- A filter that keeps a key keeps its entry. -/
theorem get?_filter {p : String × α → Bool} {key : String} {fields : List (String × α)}
    (hp : ∀ v, p (key, v) = true) : get? (fields.filter p) key = get? fields key := by
  induction fields with
  | nil => rfl
  | cons entry rest ih =>
    obtain ⟨k, v⟩ := entry
    rw [get?_cons]
    by_cases hkey : k = key
    · subst hkey
      rw [List.filter_cons_of_pos (hp v), get?_cons, if_pos rfl, if_pos rfl]
    · rw [if_neg hkey]
      by_cases hkept : p (k, v) = true
      · rw [List.filter_cons_of_pos hkept, get?_cons, if_neg hkey, ih]
      · rw [List.filter_cons_of_neg hkept, ih]

theorem nodup_of_pairwise {fields : List (String × α)} (h : fields.Pairwise (·.1 < ·.1)) :
    (fields.map (·.1)).Nodup :=
  List.pairwise_map.mpr (h.imp fun hlt => ne_of_lt hlt)

/-- An entry above all the others goes last. -/
theorem insert_of_lt {fields : List (String × α)} {key : String} {value : α}
    (h : ∀ entry ∈ fields, entry.1 < key) : insert key value fields = fields ++ [(key, value)] := by
  induction fields with
  | nil => rfl
  | cons entry rest ih =>
    obtain ⟨hentry, hrest⟩ := List.forall_mem_cons.mp h
    rw [insert, if_neg (lt_asymm hentry), if_neg (ne_of_gt hentry), ih hrest]
    rfl

theorem foldl_insert_of_pairwise {acc entries : List (String × α)}
    (h : (acc ++ entries).Pairwise (·.1 < ·.1)) :
    entries.foldl (fun fields entry => insert entry.1 entry.2 fields) acc =
      acc ++ entries := by
  induction entries generalizing acc with
  | nil => exact (List.append_nil acc).symm
  | cons entry rest ih =>
    have hlast : ∀ e ∈ acc, e.1 < entry.1 := fun e he =>
      (List.pairwise_append.mp h).2.2 e he entry List.mem_cons_self
    have happend : acc ++ entry :: rest = acc ++ [entry] ++ rest := by simp
    rw [List.foldl_cons, insert_of_lt hlast, happend]
    exact ih (happend ▸ h)

theorem pairwise_insert {fields : List (String × α)} {key : String} {value : α}
    (h : fields.Pairwise (·.1 < ·.1)) : (insert key value fields).Pairwise (·.1 < ·.1) := by
  induction fields with
  | nil => exact List.pairwise_singleton _ _
  | cons first rest ih =>
    obtain ⟨hfirst, hrest⟩ := List.pairwise_cons.mp h
    rw [insert]
    split_ifs with hlt heq
    · refine List.pairwise_cons.mpr ⟨fun entry hentry => ?_, h⟩
      rcases List.mem_cons.mp hentry with rfl | hentry
      · exact hlt
      · exact hlt.trans (hfirst entry hentry)
    · subst heq
      exact List.pairwise_cons.mpr ⟨hfirst, hrest⟩
    · refine List.pairwise_cons.mpr ⟨fun entry hentry => ?_, ih hrest⟩
      rcases mem_insert hentry with rfl | hentry
      · exact lt_of_le_of_ne (not_lt.mp hlt) (Ne.symm heq)
      · exact hfirst entry hentry

/-- Of the entries that are put in order, the last of a key is read. -/
theorem get?_foldl_insert {fields : List (String × α)} {key : String}
    (hkeys : (fields.map (·.1)).Nodup) (acc : List (String × α)) :
    get? (fields.foldl (fun acc entry => insert entry.1 entry.2 acc) acc) key =
      (get? fields key).or (get? acc key) := by
  induction fields generalizing acc with
  | nil => rfl
  | cons entry rest ih =>
    obtain ⟨k, v⟩ := entry
    obtain ⟨hentry, hrest⟩ := List.nodup_cons.mp hkeys
    rw [List.foldl_cons, ih hrest, get?_cons]
    by_cases hkey : k = key
    · subst hkey
      rw [get?_eq_none hentry, get?_insert_self, if_pos rfl]
      rfl
    · rw [get?_insert_ne (Ne.symm hkey), if_neg hkey]

theorem get?_foldl_insert_of_not_mem {fields : List (String × α)} {key : String}
    (h : key ∉ fields.map (·.1)) (acc : List (String × α)) :
    get? (fields.foldl (fun acc entry => insert entry.1 entry.2 acc) acc) key = get? acc key := by
  induction fields generalizing acc with
  | nil => rfl
  | cons entry rest ih =>
    obtain ⟨hentry, hrest⟩ := not_or.mp (List.mem_cons.not.mp h)
    rw [List.foldl_cons, ih hrest, get?_insert_ne hentry]

/-- `map.entry(key)`, where what is there, if anything, gives the value. -/
def upsert (key : String) (f : Option α → α) : List (String × α) → List (String × α)
  | [] => [(key, f none)]
  | (k, v) :: rest => if k = key then (k, f (some v)) :: rest else (k, v) :: upsert key f rest

theorem get?_upsert {key other : String} {f : Option α → α} {map : List (String × α)} :
    get? (upsert key f map) other = if key = other then some (f (get? map key)) else get? map other := by
  induction map with
  | nil =>
    unfold upsert
    rw [get?_cons]
    rfl
  | cons entry rest ih =>
    unfold upsert
    by_cases hkey : entry.1 = key
    · rw [if_pos hkey, get?_cons, get?_cons, get?_cons, if_pos hkey, hkey]
      split_ifs <;> rfl
    · rw [if_neg hkey, get?_cons, get?_cons, get?_cons, if_neg hkey, ih]
      by_cases hother : key = other
      · rw [if_pos hother, if_pos hother, if_neg (hother ▸ hkey)]
      · rw [if_neg hother, if_neg hother]

theorem mem_keys_upsert {key other : String} {f : Option α → α} {map : List (String × α)} :
    other ∈ (upsert key f map).map (·.1) ↔ other = key ∨ other ∈ map.map (·.1) := by
  induction map with
  | nil => simp [upsert]
  | cons entry rest ih =>
    unfold upsert
    split_ifs with hkey
    · subst hkey
      simp
    · rw [List.map_cons, List.mem_cons, ih, List.map_cons, List.mem_cons, or_left_comm]

theorem nodup_upsert {key : String} {f : Option α → α} {map : List (String × α)}
    (h : (map.map (·.1)).Nodup) : ((upsert key f map).map (·.1)).Nodup := by
  induction map with
  | nil => exact List.nodup_singleton key
  | cons entry rest ih =>
    obtain ⟨hentry, hrest⟩ := List.nodup_cons.mp h
    unfold upsert
    split_ifs with hkey
    · exact h
    · rw [List.map_cons, List.nodup_cons, mem_keys_upsert, not_or]
      exact ⟨⟨hkey, hentry⟩, ih hrest⟩

/-- An entry there is the one put there, or was there. -/
theorem mem_upsert {key : String} {f : Option α → α} {map : List (String × α)} {entry : String × α}
    (h : entry ∈ upsert key f map) :
    entry = (key, f none) ∨ (∃ v, (key, v) ∈ map ∧ entry = (key, f (some v))) ∨ entry ∈ map := by
  induction map with
  | nil => exact .inl (List.mem_singleton.mp h)
  | cons first rest ih =>
    unfold upsert at h
    split_ifs at h with hkey
    · subst hkey
      rcases List.mem_cons.mp h with rfl | h
      · exact .inr (.inl ⟨first.2, List.mem_cons_self, rfl⟩)
      · exact .inr (.inr (List.mem_cons_of_mem _ h))
    · rcases List.mem_cons.mp h with rfl | h
      · exact .inr (.inr List.mem_cons_self)
      · rcases ih h with heq | ⟨v, hmem, heq⟩ | hmem
        · exact .inl heq
        · exact .inr (.inl ⟨v, List.mem_cons_of_mem _ hmem, heq⟩)
        · exact .inr (.inr (List.mem_cons_of_mem _ hmem))

theorem keys_upsert {key : String} {map : List (String × α)} {f : Option α → α}
    (h : key ∈ map.map (·.1)) :
    (upsert key f map).map (·.1) = map.map (·.1) := by
  induction map with
  | nil => cases h
  | cons entry rest ih =>
    rw [upsert]
    split_ifs with hkey
    · rfl
    · rw [List.map_cons, ih ((List.mem_cons.mp h).resolve_left (Ne.symm hkey)), List.map_cons]

/-- A weight that grows by as much wherever the key is. -/
theorem sum_upsert {key : String} {f : Option α → α} {w : α → Nat} {d : Nat} (hnone : w (f none) = d)
    (hsome : ∀ v, w (f (some v)) = w v + d) (map : List (String × α)) :
    ((upsert key f map).map (w ·.2)).sum = (map.map (w ·.2)).sum + d := by
  induction map with
  | nil => rw [upsert, List.map_cons, List.sum_cons, hnone, List.map_nil, List.sum_nil, Nat.add_comm]
  | cons entry rest ih =>
    unfold upsert
    split_ifs with hkey
    · rw [List.map_cons, List.sum_cons, hsome, List.map_cons, List.sum_cons]
      exact Nat.add_right_comm _ _ _
    · rw [List.map_cons, List.sum_cons, ih, List.map_cons, List.sum_cons, Nat.add_assoc]

/-- `map.get_mut(key)`, where the value is changed by a function. -/
def adjust (key : String) (f : α → α) : List (String × α) → List (String × α)
  | [] => []
  | (k, v) :: rest => if k = key then (k, f v) :: rest else (k, v) :: adjust key f rest

/-- The map with every value changed. -/
def mapValues (f : String → α → α) (map : List (String × α)) : List (String × α) :=
  map.map fun entry => (entry.1, f entry.1 entry.2)

theorem get?_mapValues (f : String → α → α) (map : List (String × α)) (key : String) :
    get? (mapValues f map) key = (get? map key).map (f key) := by
  induction map with
  | nil => rfl
  | cons entry rest ih =>
    rw [mapValues, List.map_cons, get?_cons, get?_cons]
    by_cases h : entry.1 = key
    · subst h
      rw [if_pos rfl, if_pos rfl]
      rfl
    · rw [if_neg h, if_neg h]
      exact ih

theorem mapValues_eq_self {f : String → α → α} {map : List (String × α)} :
    mapValues f map = map ↔ ∀ entry ∈ map, f entry.1 entry.2 = entry.2 := by
  constructor
  · intro h entry hmem
    exact congrArg Prod.snd (List.map_inj_left.mp (h.trans (List.map_id map).symm) entry hmem)
  · intro h
    exact (List.map_congr_left fun entry hmem => congrArg (Prod.mk entry.1) (h entry hmem)).trans
      (List.map_id map)

theorem get?_adjust_self (key : String) (f : α → α) (map : List (String × α)) :
    get? (adjust key f map) key = (get? map key).map f := by
  induction map with
  | nil => rfl
  | cons entry rest ih =>
    rw [adjust]
    by_cases h : entry.1 = key
    · rw [if_pos h, get?_cons, get?_cons, if_pos h, if_pos h]
      rfl
    · rw [if_neg h, get?_cons, get?_cons, if_neg h, if_neg h, ih]

theorem get?_adjust_ne {key other : String} (hne : other ≠ key) (f : α → α)
    (map : List (String × α)) : get? (adjust key f map) other = get? map other := by
  induction map with
  | nil => rfl
  | cons entry rest ih =>
    rw [adjust]
    by_cases h : entry.1 = key
    · rw [if_pos h, get?_cons, get?_cons, if_neg (h ▸ hne.symm), if_neg (h ▸ hne.symm)]
    · rw [if_neg h, get?_cons, get?_cons, ih]

theorem get?_adjust {key : String} {map : List (String × α)} (f : α → α) (other : String) :
    get? (adjust key f map) other =
      if other = key then (get? map other).map f else get? map other := by
  split_ifs with h
  · rw [h, get?_adjust_self]
  · rw [get?_adjust_ne h]

theorem keys_adjust {key : String} {map : List (String × α)} (f : α → α) :
    (adjust key f map).map (·.1) = map.map (·.1) := by
  induction map with
  | nil => rfl
  | cons entry rest ih =>
    rw [adjust]
    split_ifs
    · rfl
    · rw [List.map_cons, ih, List.map_cons]

/-- A change that leaves the value as it is. -/
theorem adjust_eq_self {key : String} {f : α → α} {map : List (String × α)}
    (h : ∀ v, get? map key = some v → f v = v) : adjust key f map = map := by
  induction map with
  | nil => rfl
  | cons entry rest ih =>
    rw [adjust]
    by_cases hkey : entry.1 = key
    · rw [if_pos hkey, h entry.2 (by rw [get?_cons, if_pos hkey])]
    · rw [if_neg hkey, ih fun v hv => h v (by rw [get?_cons, if_neg hkey, hv])]

theorem adjust_comm {key key' : String} (hne : key ≠ key') (f g : α → α) (map : List (String × α)) :
    adjust key f (adjust key' g map) = adjust key' g (adjust key f map) := by
  induction map with
  | nil => rfl
  | cons entry rest ih =>
    rw [adjust, adjust]
    by_cases hkey : entry.1 = key
    · have hkey' : entry.1 ≠ key' := hkey ▸ hne
      rw [if_neg hkey', if_pos hkey, adjust, adjust, if_pos hkey, if_neg hkey']
    · by_cases hkey' : entry.1 = key'
      · rw [if_pos hkey', if_neg hkey, adjust, adjust, if_neg hkey, if_pos hkey']
      · rw [if_neg hkey', if_neg hkey, adjust, adjust, if_neg hkey, if_neg hkey', ih]

section

variable {key other : String} {fields : List (String × α)}

theorem insert_insert (v w : α) : insert key v (insert key w fields) = insert key v fields := by
  induction fields with
  | nil => simp [insert]
  | cons entry rest ih =>
    rw [insert]
    split_ifs with hlt heq
    · rw [insert, if_neg (lt_irrefl _), if_pos rfl, insert, if_pos hlt]
    · rw [insert, if_neg (lt_irrefl _), if_pos rfl, insert, if_neg hlt, if_pos heq]
    · rw [insert, if_neg hlt, if_neg heq, ih, insert, if_neg hlt, if_neg heq]

theorem insert_comm (hne : key ≠ other) (v w : α) :
    insert key v (insert other w fields) = insert other w (insert key v fields) := by
  induction fields with
  | nil =>
    rcases lt_or_gt_of_ne hne with h | h
    · simp [insert, h, lt_asymm h, hne.symm]
    · simp [insert, h, lt_asymm h, hne]
  | cons entry rest ih =>
    obtain ⟨k, value⟩ := entry
    rcases lt_or_gt_of_ne hne with h | h <;> grind [insert, lt_asymm, lt_trans]

end

theorem insert_adjust {key key' : String} (hne : key ≠ key') (v : α) (f : α → α)
    (map : List (String × α)) :
    insert key v (adjust key' f map) = adjust key' f (insert key v map) := by
  induction map with
  | nil => simp [insert, adjust, hne]
  | cons entry rest ih =>
    obtain ⟨k, u⟩ := entry
    by_cases hkey' : k = key'
    · subst hkey'
      by_cases hlt : key < k
      · simp [insert, adjust, hlt, hne]
      · simp [insert, adjust, hlt, hne]
    · by_cases hlt : key < k
      · simp [insert, adjust, hlt, hne, hkey']
      · by_cases heq : key = k
        · subst heq
          simp [insert, adjust, hne]
        · simp [insert, adjust, hlt, heq, hkey', ih]

theorem mem_adjust {key : String} {f : α → α} {fields : List (String × α)}
    {entry : String × α} (h : entry ∈ adjust key f fields) :
    entry ∈ fields ∨ ∃ v, (key, v) ∈ fields ∧ entry = (key, f v) := by
  induction fields with
  | nil => exact .inl h
  | cons first rest ih =>
    obtain ⟨k, v⟩ := first
    rw [adjust] at h
    split_ifs at h with hkey
    · subst hkey
      rcases List.mem_cons.mp h with rfl | h
      · exact .inr ⟨v, List.mem_cons_self, rfl⟩
      · exact .inl (List.mem_cons_of_mem _ h)
    · rcases List.mem_cons.mp h with rfl | h
      · exact .inl List.mem_cons_self
      · rcases ih h with h | ⟨v', hv', rfl⟩
        · exact .inl (List.mem_cons_of_mem _ h)
        · exact .inr ⟨v', List.mem_cons_of_mem _ hv', rfl⟩

theorem mapValues_insert (f : String → α → α) (key : String) (v : α) (map : List (String × α)) :
    mapValues f (insert key v map) = insert key (f key v) (mapValues f map) := by
  induction map with
  | nil => rfl
  | cons entry rest ih =>
    obtain ⟨k, u⟩ := entry
    simp only [mapValues, List.map_cons, insert] at ih ⊢
    split_ifs
    · rfl
    · rfl
    · rw [List.map_cons, ih]

theorem mapValues_adjust {f : String → α → α} {key : String} {g g' : α → α}
    (h : ∀ v, f key (g v) = g' (f key v)) (map : List (String × α)) :
    mapValues f (adjust key g map) = adjust key g' (mapValues f map) := by
  induction map with
  | nil => rfl
  | cons entry rest ih =>
    obtain ⟨k, u⟩ := entry
    simp only [mapValues, List.map_cons, adjust] at ih ⊢
    split_ifs with hkey
    · subst hkey
      rw [List.map_cons, h]
    · rw [List.map_cons, ih]

end Fields

end Apcore
