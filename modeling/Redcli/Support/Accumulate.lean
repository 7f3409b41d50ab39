import Mathlib.Algebra.BigOperators.Group.List.Basic
import Mathlib.Data.List.Forall2
import Mathlib.Tactic.Common

/-!
# Accumulating Loops

Loops in which each round either fails or contributes to the result: a loop that adds up
contributions, and one that collects them. They complete exactly if no round fails; a loop that
only appends always does.
-/

namespace Accumulate

variable {M α : Type}

section Monoid

variable [AddMonoid M]

/-- An accumulating loop, from the behaviour of one round. -/
theorem foldlM_eq_some_iff {f : M → α → Option M} (P : α → Prop) (g : α → M) {l : List α}
    (hround : ∀ x ∈ l, ∀ s s', f s x = some s' ↔ P x ∧ s' = s + g x) {s s' : M} :
    l.foldlM f s = some s' ↔ (∀ x ∈ l, P x) ∧ s' = s + (l.map g).sum := by
  induction l generalizing s with
  | nil => simp [eq_comm]
  | cons x l ih =>
      -- the loop goes on from the state after its first round
      have ih' := fun s => ih (fun y hy => hround y (List.mem_cons_of_mem x hy)) (s := s)
      have hx := hround x List.mem_cons_self s
      simp only [List.foldlM_cons, Option.bind_eq_bind, Option.bind_eq_some_iff, hx, ih',
        List.forall_mem_cons, List.map_cons, List.sum_cons]
      constructor
      · rintro ⟨_, ⟨hP, rfl⟩, hall, rfl⟩
        exact ⟨⟨hP, hall⟩, add_assoc _ _ _⟩
      · rintro ⟨⟨hP, hall⟩, rfl⟩
        exact ⟨_, ⟨hP, rfl⟩, hall, (add_assoc _ _ _).symm⟩

end Monoid

/-- Loops whose rounds agree. -/
theorem foldlM_congr {S : Type} {f g : S → α → Option S} {l : List α}
    (h : ∀ x ∈ l, ∀ s, f s x = g s x) (s : S) : l.foldlM f s = l.foldlM g s := by
  induction l generalizing s with
  | nil => rfl
  | cons x l ih =>
      rw [List.foldlM_cons, List.foldlM_cons, h x List.mem_cons_self]
      simp only [ih fun y hy => h y (List.mem_cons_of_mem x hy)]

/-- A loop that appends to a list never fails. -/
theorem foldlM_append (f : α → List M) (l : List α) (s : List M) :
    l.foldlM (fun s x => some (s ++ f x)) s = some (s ++ l.flatMap f) := by
  induction l generalizing s with
  | nil => simp
  | cons x l ih =>
      rw [List.foldlM_cons, List.flatMap_cons, ← List.append_assoc]
      exact ih (s ++ f x)

/-- A loop that collects one result a round, from the behaviour of one round. -/
theorem mapM_eq_some_iff {f : α → Option M} {l : List α} {l' : List M} :
    l.mapM f = some l' ↔ List.Forall₂ (fun a b => f a = some b) l l' := by
  induction l generalizing l' with
  | nil => cases l' <;> simp
  | cons a l ih =>
      simp only [List.mapM_cons, Option.bind_eq_bind, Option.bind_eq_some_iff, pure, ih,
        Option.some.injEq]
      constructor
      · rintro ⟨b, hb, bs, hbs, rfl⟩
        exact .cons hb hbs
      · rintro (_ | ⟨hb, hbs⟩)
        exact ⟨_, hb, _, hbs, rfl⟩

/-- What every round of a collecting loop yields. -/
theorem forall_mem_of_mapM {f : α → Option M} {l : List α} {l' : List M} {Q : M → Prop}
    (h : l.mapM f = some l') (hround : ∀ a ∈ l, ∀ b, f a = some b → Q b) : ∀ b ∈ l', Q b := by
  induction mapM_eq_some_iff.mp h with
  | nil => exact fun b hb => absurd hb List.not_mem_nil
  | @cons a b l l' hab hall ih =>
      exact List.forall_mem_cons.mpr ⟨hround a List.mem_cons_self b hab,
        ih (mapM_eq_some_iff.mpr hall) fun a ha => hround a (List.mem_cons_of_mem _ ha)⟩

/-- A collecting loop completes exactly if every round does. -/
theorem exists_mapM_eq_some_iff {f : α → Option M} {l : List α} :
    (∃ l', l.mapM f = some l') ↔ ∀ a ∈ l, ∃ b, f a = some b := by
  induction l with
  | nil => exact ⟨fun _ _ h => absurd h List.not_mem_nil, fun _ => ⟨[], rfl⟩⟩
  | cons a l ih =>
      rw [List.forall_mem_cons, ← ih]
      simp only [List.mapM_cons, Option.bind_eq_bind, Option.bind_eq_some_iff, pure,
        Option.some.injEq]
      constructor
      · rintro ⟨_, b, hb, bs, hbs, -⟩
        exact ⟨⟨b, hb⟩, ⟨bs, hbs⟩⟩
      · rintro ⟨⟨b, hb⟩, ⟨bs, hbs⟩⟩
        exact ⟨_, b, hb, bs, hbs, rfl⟩

/-- What some result of a collecting loop has, from one round. -/
theorem exists_mem_iff_of_mapM {f : α → Option M} {l : List α} {l' : List M} {P : α → Prop}
    {Q : M → Prop} (h : l.mapM f = some l')
    (hround : ∀ a ∈ l, ∀ b, f a = some b → (Q b ↔ P a)) : (∃ b ∈ l', Q b) ↔ ∃ a ∈ l, P a := by
  induction mapM_eq_some_iff.mp h with
  | nil => simp
  | @cons a b l l' hab hall ih =>
      rw [List.exists_mem_cons_iff, List.exists_mem_cons_iff,
        hround a List.mem_cons_self b hab, ih (mapM_eq_some_iff.mpr hall) fun a ha =>
          hround a (List.mem_cons_of_mem _ ha)]

end Accumulate
