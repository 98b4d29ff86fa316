import Mathlib.Data.List.Basic
import Mathlib.Data.List.Forall2
import Mathlib.Data.List.TakeWhile

/-! # `Lib.UniqueReading` — texts that are read off the front

A way of writing things is read off the front where a text and whatever may stand behind it say what
was written and where it ends. This is kept by the usual ways of putting texts together: words of
certain characters, quoted literals, pairs, and lists with a separator and a closing character. -/

namespace UniqueReading

variable {α β χ : Type}

/-- Where two texts with what stands behind them are one, the same was written, and the same stands
behind. -/
def ReadsOff (text : α → List χ) (same : α → α → Prop) (stop : List χ → Prop) (a : α) : Prop :=
  ∀ b rest rest', stop rest → stop rest' → text a ++ rest = text b ++ rest' → same a b ∧ rest = rest'

variable {text : α → List χ} {same : α → α → Prop} {stop : List χ → Prop} {a : α}

theorem ReadsOff.same_of_eq {b : α} (h : ReadsOff text same stop a) (hstop : stop [])
    (heq : text a = text b) : same a b :=
  (h b [] [] hstop hstop (by rw [heq])).1

/-! ## Words and literals -/

/-- Behind a word stands none of its characters. -/
def Ends (word : χ → Bool) (rest : List χ) : Prop := ∀ c ∈ rest.head?, word c = false

theorem takeWhile_append_of_ends {word : χ → Bool} {s rest : List χ} (hs : ∀ c ∈ s, word c = true)
    (hrest : Ends word rest) : (s ++ rest).takeWhile word = s := by
  rw [List.takeWhile_append_of_pos hs]
  cases rest with
  | nil => simp
  | cons c rest =>
    have hc : word c = false := hrest c rfl
    rw [List.takeWhile_cons_of_neg (by rw [hc]; exact Bool.false_ne_true), List.append_nil]

/-- A word is read off up to the first other character. -/
theorem ReadsOff.word {word : χ → Bool} (hall : ∀ a, ∀ c ∈ text a, word c = true)
    (hinj : Function.Injective text) (a : α) : ReadsOff text Eq (Ends word) a := by
  intro b rest rest' hrest hrest' heq
  have htext : text a = text b := by
    rw [← takeWhile_append_of_ends (hall a) hrest, heq, takeWhile_append_of_ends (hall b) hrest']
  rw [htext] at heq
  exact ⟨hinj htext, List.append_cancel_left heq⟩

/-- What may stand between quotes: no bare quote, and the escape only before another character. -/
inductive Quoted (quote escape : χ) : List χ → Prop
  | nil : Quoted quote escape []
  | plain {c : χ} {body : List χ} : c ≠ quote → c ≠ escape → Quoted quote escape body →
      Quoted quote escape (c :: body)
  | escaped {c : χ} {body : List χ} : Quoted quote escape body →
      Quoted quote escape (escape :: c :: body)

/-- The first bare quote closes the literal. -/
theorem Quoted.append_inj {quote escape : χ} (hne : quote ≠ escape) {body body' rest rest' : List χ}
    (h : Quoted quote escape body) (h' : Quoted quote escape body')
    (heq : body ++ quote :: rest = body' ++ quote :: rest') : body = body' ∧ rest = rest' := by
  induction h generalizing body' with
  | nil =>
    cases h' with
    | nil => exact ⟨rfl, (List.cons.inj heq).2⟩
    | plain hquote => exact absurd (List.cons.inj heq).1.symm hquote
    | escaped => exact absurd (List.cons.inj heq).1 hne
  | @plain c body hquote hescape hbody ih =>
    cases h' with
    | nil => exact absurd (List.cons.inj heq).1 hquote
    | plain _ _ hbody' =>
      obtain ⟨rfl, htail⟩ := List.cons.inj heq
      obtain ⟨rfl, hrest⟩ := ih hbody' htail
      exact ⟨rfl, hrest⟩
    | escaped => exact absurd (List.cons.inj heq).1 hescape
  | @escaped c body hbody ih =>
    cases h' with
    | nil => exact absurd (List.cons.inj heq).1.symm hne
    | plain _ hescape => exact absurd (List.cons.inj heq).1.symm hescape
    | escaped hbody' =>
      obtain ⟨rfl, htail⟩ := List.cons.inj (List.cons.inj heq).2
      obtain ⟨rfl, hrest⟩ := ih hbody' htail
      exact ⟨rfl, hrest⟩

/-- A quoted literal is read off whatever stands behind it. -/
theorem ReadsOff.literal {quote escape : χ} (hne : quote ≠ escape)
    (hquoted : ∀ a, ∃ body, text a = quote :: body ++ [quote] ∧ Quoted quote escape body)
    (hinj : Function.Injective text) (a : α) : ReadsOff text Eq (fun _ => True) a := by
  intro b rest rest' _ _ heq
  obtain ⟨body, htext, hbody⟩ := hquoted a
  obtain ⟨body', htext', hbody'⟩ := hquoted b
  rw [htext, htext', List.append_assoc, List.append_assoc] at heq
  obtain ⟨rfl, hrest⟩ := hbody.append_inj hne hbody' (List.cons.inj heq).2
  exact ⟨hinj (htext.trans htext'.symm), hrest⟩

/-! ## Pairs and lists -/

theorem exists_of_mem_forall₂ {R : α → β → Prop} {xs : List α} {ys : List β} {x : α}
    (h : List.Forall₂ R xs ys) (hx : x ∈ xs) : ∃ y ∈ ys, R x y := by
  induction h with
  | nil => cases hx
  | cons hfirst _ ih =>
    rcases List.mem_cons.mp hx with rfl | hx
    · exact ⟨_, List.mem_cons_self, hfirst⟩
    · obtain ⟨y, hy, hxy⟩ := ih hx
      exact ⟨y, List.mem_cons_of_mem _ hy, hxy⟩

/-- Two things with a character between them. -/
theorem ReadsOff.pair {text' : β → List χ} {same' : β → β → Prop} {stop' : List χ → Prop} {b : β}
    {mid : χ} (ha : ReadsOff text same stop a) (hb : ReadsOff text' same' stop' b)
    (hmid : ∀ rest, stop (mid :: rest)) :
    ReadsOff (fun p : α × β => text p.1 ++ mid :: text' p.2) (fun p q => same p.1 q.1 ∧ same' p.2 q.2)
      stop' (a, b) := by
  intro q rest rest' hrest hrest' heq
  rw [List.append_assoc, List.append_assoc] at heq
  obtain ⟨hfirst, htail⟩ := ha q.1 _ _ (hmid _) (hmid _) heq
  obtain ⟨hsecond, hrests⟩ := hb q.2 rest rest' hrest hrest' (List.cons.inj htail).2
  exact ⟨⟨hfirst, hsecond⟩, hrests⟩

theorem intercalate_cons (sep : χ) (x : List χ) (xs : List (List χ)) :
    List.intercalate [sep] (x :: xs) = x ++ xs.flatMap (sep :: ·) := by
  induction xs generalizing x with
  | nil => simp [List.intercalate]
  | cons y ys ih =>
    rw [List.intercalate_cons_cons, ih, List.flatMap_cons, List.cons_append, List.append_assoc]
    rfl

variable {sep close : χ} {xs ys : List α} {rest rest' : List χ}

/-- What follows the first of a list: each of the others behind its separator. -/
theorem readsOff_others (hread : ∀ a ∈ xs, ReadsOff text same stop a) (hsep : ∀ rest, stop (sep :: rest))
    (hclose : ∀ rest, stop (close :: rest)) (hne : sep ≠ close)
    (heq : xs.flatMap (fun a => sep :: text a) ++ close :: rest =
      ys.flatMap (fun a => sep :: text a) ++ close :: rest') :
    List.Forall₂ same xs ys ∧ rest = rest' := by
  have hstop : ∀ (zs : List α) (behind : List χ),
      stop (zs.flatMap (fun a => sep :: text a) ++ close :: behind) := by
    intro zs behind
    cases zs with
    | nil => exact hclose behind
    | cons z zs => exact hsep _
  induction xs generalizing ys with
  | nil =>
    cases ys with
    | nil => exact ⟨.nil, (List.cons.inj heq).2⟩
    | cons y ys => exact absurd (List.cons.inj heq).1.symm hne
  | cons x xs ih =>
    cases ys with
    | nil => exact absurd (List.cons.inj heq).1 hne
    | cons y ys =>
      rw [List.flatMap_cons, List.flatMap_cons, List.append_assoc, List.append_assoc] at heq
      obtain ⟨hfirst, htail⟩ := hread x List.mem_cons_self y _ _ (hstop xs rest) (hstop ys rest')
        (List.cons.inj heq).2
      obtain ⟨hothers, hrest⟩ := ih (fun a ha => hread a (List.mem_cons_of_mem _ ha)) htail
      exact ⟨.cons hfirst hothers, hrest⟩

/-- A list with separators, up to its closing character. -/
theorem readsOff_listed (hread : ∀ a ∈ xs, ReadsOff text same stop a) (hsep : ∀ rest, stop (sep :: rest))
    (hclose : ∀ rest, stop (close :: rest)) (hne : sep ≠ close)
    (hfirst : ∀ a, ∃ c tail, text a = c :: tail ∧ c ≠ close)
    (heq : List.intercalate [sep] (xs.map text) ++ close :: rest =
      List.intercalate [sep] (ys.map text) ++ close :: rest') :
    List.Forall₂ same xs ys ∧ rest = rest' := by
  cases xs with
  | nil =>
    cases ys with
    | nil => exact ⟨.nil, (List.cons.inj heq).2⟩
    | cons y ys =>
      obtain ⟨c, tail, htext, hc⟩ := hfirst y
      rw [List.map_cons, intercalate_cons, htext] at heq
      exact absurd (List.cons.inj heq).1.symm hc
  | cons x xs =>
    cases ys with
    | nil =>
      obtain ⟨c, tail, htext, hc⟩ := hfirst x
      rw [List.map_cons, intercalate_cons, htext] at heq
      exact absurd (List.cons.inj heq).1 hc
    | cons y ys =>
      -- a separator before the first makes it one of the others
      have hothers : (x :: xs).flatMap (fun a => sep :: text a) ++ close :: rest =
          (y :: ys).flatMap (fun a => sep :: text a) ++ close :: rest' := by
        rw [List.map_cons, List.map_cons, intercalate_cons, intercalate_cons, List.flatMap_map,
          List.flatMap_map] at heq
        rw [List.flatMap_cons, List.flatMap_cons, List.cons_append, List.cons_append, List.cons_append,
          List.cons_append, heq]
      exact readsOff_others hread hsep hclose hne hothers

end UniqueReading
