import Mathlib.Data.List.Infix

/-! # `Lib.Nested` — reading and writing along a path

A nested value has children under keys. Writing along a path builds the levels that are missing, and
a level that has no children is replaced by one that has. Two paths neither of which starts the
other do not disturb each other. -/

universe u v

/-- Values with children: how one is read, and how one is put. -/
structure Nested (K : Type u) (T : Type v) where
  child : T → K → Option T
  put : K → T → T → T
  blank : T
  child_blank : ∀ k, child blank k = none
  child_put_self : ∀ k c t, child (put k c t) k = some c
  child_put_ne : ∀ {k k'}, k' ≠ k → ∀ c t, child (put k c t) k' = child t k'
  put_put : ∀ k c c' t, put k c (put k c' t) = put k c t
  put_comm : ∀ {k k'}, k ≠ k' → ∀ c c' t, put k c (put k' c' t) = put k' c' (put k c t)
  put_child : ∀ {k c t}, child t k = some c → put k c t = t

namespace Nested

variable {K : Type u} {T : Type v} (n : Nested K T)

/-- What is at the end of a path. -/
def read : List K → T → Option T
  | [], t => some t
  | k :: p, t => (n.child t k).bind (read p)

/-- The value with `v` at the end of a path. -/
def write : List K → T → T → T
  | [], v, _ => v
  | k :: p, v, t => n.put k (write p v ((n.child t k).getD n.blank)) t

/-- Neither path starts the other. -/
def Apart (p q : List K) : Prop := ¬ p <+: q ∧ ¬ q <+: p

variable {n} {p q : List K} {k k' : K} {v w t : T}

theorem Apart.symm (h : Apart p q) : Apart q p := ⟨h.2, h.1⟩

theorem apart_of_ne (h : k ≠ k') : Apart (k :: p) (k' :: q) := by
  refine ⟨fun hp => h ?_, fun hq => h ?_⟩
  · exact (List.cons_prefix_cons.mp hp).1
  · exact (List.cons_prefix_cons.mp hq).1.symm

theorem apart_cons : Apart (k :: p) (k :: q) ↔ Apart p q := by
  simp [Apart, List.cons_prefix_cons]

theorem not_apart_nil_left : ¬ Apart ([] : List K) q := fun h => h.1 List.nil_prefix

theorem not_apart_nil_right : ¬ Apart p ([] : List K) := fun h => h.2 List.nil_prefix

@[simp] theorem read_nil : n.read [] t = some t := rfl

theorem read_cons : n.read (k :: p) t = (n.child t k).bind (n.read p) := rfl

theorem write_cons :
    n.write (k :: p) v t = n.put k (n.write p v ((n.child t k).getD n.blank)) t := rfl

theorem read_blank (h : p ≠ []) : n.read p n.blank = none := by
  cases p with
  | nil => exact absurd rfl h
  | cons k p => rw [read_cons, n.child_blank, Option.bind_none]

theorem read_append : n.read (p ++ q) t = (n.read p t).bind (n.read q) := by
  induction p generalizing t with
  | nil => rfl
  | cons k p ih =>
    rw [List.cons_append, read_cons, read_cons, Option.bind_assoc]
    exact congrArg _ (funext fun _ => ih)

/-- A level that is missing reads like a blank one. -/
theorem read_getD_blank (o : Option T) (h : p ≠ []) :
    n.read p (o.getD n.blank) = o.bind (n.read p) := by
  cases o with
  | none => exact read_blank h
  | some t => rfl

/-- Below the place of a write is what was written. -/
theorem read_write_append : n.read (p ++ q) (n.write p v t) = n.read q v := by
  induction p generalizing t with
  | nil => rfl
  | cons k p ih => rw [List.cons_append, write_cons, read_cons, n.child_put_self, Option.bind_some, ih]

theorem read_write_self : n.read p (n.write p v t) = some v := by
  have happend := read_write_append (n := n) (p := p) (q := []) (v := v) (t := t)
  rwa [List.append_nil] at happend

/-- Apart from the place of a write nothing changes. -/
theorem read_write_apart (h : Apart p q) : n.read q (n.write p v t) = n.read q t := by
  induction p generalizing q t with
  | nil => exact absurd h not_apart_nil_left
  | cons k p ih =>
    cases q with
    | nil => exact absurd h not_apart_nil_right
    | cons k' q =>
      by_cases hk : k' = k
      · subst hk
        have hrest := apart_cons.mp h
        have hq : q ≠ [] := fun hnil => not_apart_nil_right (hnil ▸ hrest)
        rw [write_cons, read_cons, n.child_put_self, Option.bind_some, ih hrest,
          read_getD_blank _ hq, read_cons]
      · rw [write_cons, read_cons, read_cons, n.child_put_ne hk]

/-- Above the place of a write the rest of the write is seen. -/
theorem read_write_above :
    n.read q (n.write (q ++ p) v t) = some (n.write p v ((n.read q t).getD n.blank)) := by
  induction q generalizing t with
  | nil => rfl
  | cons k q ih =>
    rw [List.cons_append, write_cons, read_cons, n.child_put_self, Option.bind_some, ih, read_cons]
    cases hchild : n.child t k with
    | some c => rfl
    | none =>
      cases q with
      | nil => rfl
      | cons k' q => rw [Option.getD_none, read_blank (List.cons_ne_nil _ _)]; rfl

/-- The later of two writes at one place stands. -/
theorem write_write : n.write p v (n.write p w t) = n.write p v t := by
  induction p generalizing t with
  | nil => rfl
  | cons k p ih =>
    rw [write_cons, write_cons, n.child_put_self, Option.getD_some, ih, n.put_put, ← write_cons]

/-- Writing what is there already changes nothing. -/
theorem write_of_read (h : n.read p t = some v) : n.write p v t = t := by
  induction p generalizing t with
  | nil => exact (Option.some.inj h).symm
  | cons k p ih =>
    obtain ⟨c, hchild, hread⟩ := Option.bind_eq_some_iff.mp h
    rw [write_cons, hchild, Option.getD_some, ih hread, n.put_child hchild]

/-- A write that is not apart from a place can change what is read there. -/
theorem exists_write_ne {a b : T} (hne : a ≠ b) (h : ¬ Apart p q) (current : Option T) :
    ∃ v y, n.read q (n.write p v t) = some y ∧ current ≠ some y := by
  obtain ⟨y, hy, hyz⟩ : ∃ y : T → T, (∀ v, ∃ w, n.read q (n.write p w t) = some (y v)) ∧
      y a ≠ y b := by
    by_cases hprefixed : p <+: q
    · obtain ⟨r, rfl⟩ := hprefixed
      refine ⟨id, fun v => ⟨n.write r v n.blank, ?_⟩, hne⟩
      rw [read_write_append, read_write_self]
      rfl
    · have hextends : q <+: p := not_not.mp fun hq => h ⟨hprefixed, hq⟩
      obtain ⟨r, rfl⟩ := hextends
      refine ⟨fun v => n.write r v ((n.read q t).getD n.blank), fun v => ⟨v, read_write_above⟩, ?_⟩
      intro heq
      have hread := congrArg (n.read r) heq
      rw [read_write_self, read_write_self] at hread
      exact hne (Option.some.inj hread)
  by_cases hcurrent : current = some (y a)
  · obtain ⟨w, hw⟩ := hy b
    refine ⟨w, y b, hw, fun heq => hyz ?_⟩
    exact Option.some.inj (hcurrent.symm.trans heq)
  · obtain ⟨w, hw⟩ := hy a
    exact ⟨w, y a, hw, hcurrent⟩

end Nested
