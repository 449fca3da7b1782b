import Mathlib.Data.List.Basic

/-!
# `Lib.Separated` — two lists joined by a separator

`p.1 ++ x :: p.2` does not say where the first list ends when the lists may hold the separator themselves. Two pairs
have one join exactly when they are the same, or a piece of the second list of one, up to a separator, stands at the
end of the first list of the other (`join_eq_join_iff`). Lists that are joined from pieces, each piece no longer than
its counterpart, are equal piece by piece (`flatMap_eq_flatMap_iff`).
-/

namespace ServiceKit
namespace Lib

variable {α β : Type*}

/-- A piece of the second list of `p`, up to a separator, has moved to the end of the first. -/
def Shifted (x : α) (p q : List α × List α) : Prop := ∃ m, q.1 = p.1 ++ x :: m ∧ p.2 = m ++ x :: q.2

/-- A list that starts with the separator, cut at another one. -/
theorem cons_eq_append_cons_iff {x : α} {b b' c : List α} :
    x :: b = c ++ x :: b' ↔ (c = [] ∧ b = b') ∨ ∃ m, c = x :: m ∧ b = m ++ x :: b' := by
  cases c with
  | nil => simp
  | cons y m =>
      simp only [List.cons_append, List.cons.injEq, reduceCtorEq, false_and, false_or]
      constructor
      · rintro ⟨rfl, rfl⟩
        exact ⟨m, ⟨rfl, rfl⟩, rfl⟩
      · rintro ⟨m', ⟨rfl, rfl⟩, rfl⟩
        simp

/-- **Which pairs have one join.** -/
theorem join_eq_join_iff {x : α} {p q : List α × List α} :
    p.1 ++ x :: p.2 = q.1 ++ x :: q.2 ↔ p = q ∨ Shifted x p q ∨ Shifted x q p := by
  obtain ⟨a, b⟩ := p
  obtain ⟨a', b'⟩ := q
  simp only [Shifted, Prod.mk.injEq]
  constructor
  · intro h
    rcases List.append_eq_append_iff.mp h with ⟨c, ha, hc⟩ | ⟨c, ha, hc⟩
    · rcases cons_eq_append_cons_iff.mp hc with ⟨rfl, rfl⟩ | ⟨m, rfl, hb⟩
      · simp [ha]
      · exact Or.inr (Or.inl ⟨m, ha, hb⟩)
    · rcases cons_eq_append_cons_iff.mp hc with ⟨rfl, rfl⟩ | ⟨m, rfl, hb⟩
      · simp [ha]
      · exact Or.inr (Or.inr ⟨m, ha, hb⟩)
  · rintro (⟨rfl, rfl⟩ | ⟨m, rfl, rfl⟩ | ⟨m, rfl, rfl⟩)
    · simp
    · simp
    · simp

theorem not_shifted_of_fst_eq {x : α} {p q : List α × List α} (h : p.1 = q.1) : ¬Shifted x p q := by
  rintro ⟨m, hfst, -⟩
  rw [h] at hfst
  have hlength := congrArg List.length hfst
  simp at hlength

/-! ## Lists joined from pieces -/

theorem length_flatMap_le {f g : α → List β} {xs : List α}
    (hle : ∀ x ∈ xs, (f x).length ≤ (g x).length) : (xs.flatMap f).length ≤ (xs.flatMap g).length := by
  induction xs with
  | nil => exact Nat.le_refl 0
  | cons x xs ih =>
      have hx := hle x List.mem_cons_self
      have hxs := ih (fun y hy => hle y (List.mem_cons_of_mem x hy))
      rw [List.flatMap_cons, List.flatMap_cons, List.length_append, List.length_append]
      omega

/-- Lists that are joined from shorter pieces are equal when the pieces are. -/
theorem flatMap_eq_flatMap_iff {f g : α → List β} {xs : List α}
    (hle : ∀ x ∈ xs, (f x).length ≤ (g x).length) : xs.flatMap f = xs.flatMap g ↔ ∀ x ∈ xs, f x = g x := by
  induction xs with
  | nil => simp
  | cons x xs ih =>
      have hrest : ∀ y ∈ xs, (f y).length ≤ (g y).length := fun y hy => hle y (List.mem_cons_of_mem x hy)
      rw [List.flatMap_cons, List.flatMap_cons, List.forall_mem_cons, ← ih hrest]
      constructor
      · intro heq
        have htotal := congrArg List.length heq
        have hx := hle x List.mem_cons_self
        have hxs := length_flatMap_le hrest
        rw [List.length_append, List.length_append] at htotal
        exact List.append_inj heq (by omega)
      · rintro ⟨hx, hxs⟩
        rw [hx, hxs]

end Lib
end ServiceKit
