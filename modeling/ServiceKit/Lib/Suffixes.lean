import Mathlib.Data.List.Infix

/-!
# `Lib.Suffixes` — the longest suffix that is in a set of words

What the failure links of a tree of words lead along. `longestSuffix P t` is the longest suffix of `t` in `P`; where `P`
is closed under prefixes it can be followed one element at a time (`longestSuffix_concat`,
`longestSuffix_concat_of_not`), and every word of a subset of `P` that ends where `t` ends ends it too
(`filter_tails_longestSuffix`).
-/

namespace ServiceKit
namespace Lib

variable {α : Type*} {P Q : List α → Prop} [DecidablePred P] [DecidablePred Q] {t w : List α} {c : α}

/-- The longest suffix in `P`, or the empty one. -/
def longestSuffix (P : List α → Prop) [DecidablePred P] : List α → List α
  | [] => []
  | x :: xs => if P (x :: xs) then x :: xs else longestSuffix P xs

@[simp] theorem longestSuffix_nil : longestSuffix P ([] : List α) = [] := rfl

theorem longestSuffix_of_mem (h : P t) : longestSuffix P t = t := by
  cases t with
  | nil => rfl
  | cons x xs => exact if_pos h

theorem longestSuffix_cons_of_not {x : α} (h : ¬ P (x :: t)) : longestSuffix P (x :: t) = longestSuffix P t := if_neg h

theorem longestSuffix_suffix (t : List α) : longestSuffix P t <:+ t := by
  induction t with
  | nil => exact List.suffix_refl []
  | cons x xs ih =>
      rw [longestSuffix]
      split
      · exact List.suffix_refl _
      · exact ih.trans (List.suffix_cons x xs)

theorem longestSuffix_mem (hnil : P []) (t : List α) : P (longestSuffix P t) := by
  induction t with
  | nil => exact hnil
  | cons x xs ih =>
      rw [longestSuffix]
      split
      · next h => exact h
      · exact ih

/-- One more element: only what was the longest suffix before counts. -/
theorem longestSuffix_concat (hclosed : ∀ w c, P (w ++ [c]) → P w) (t : List α) (c : α) :
    longestSuffix P (t ++ [c]) = longestSuffix P (longestSuffix P t ++ [c]) := by
  induction t with
  | nil => rfl
  | cons x xs ih =>
      by_cases hx : P (x :: xs)
      · rw [longestSuffix_of_mem hx]
      · rw [longestSuffix_cons_of_not hx, ← ih]
        exact longestSuffix_cons_of_not fun h => hx (hclosed (x :: xs) c h)

/-- Where the word cannot be continued, what comes next is the longest suffix of the rest. -/
theorem longestSuffix_concat_of_not (hclosed : ∀ w c, P (w ++ [c]) → P w) (hw : w ≠ []) (h : ¬ P (w ++ [c])) :
    longestSuffix P (w ++ [c]) = longestSuffix P (longestSuffix P w.tail ++ [c]) := by
  cases w with
  | nil => exact absurd rfl hw
  | cons x xs =>
      rw [List.tail_cons, ← longestSuffix_concat hclosed]
      exact longestSuffix_cons_of_not h

/-- The suffixes in a subset of `P` are those of the longest one in `P`. -/
theorem filter_tails_longestSuffix (hsub : ∀ w, Q w → P w) (t : List α) :
    (longestSuffix P t).tails.filter (fun w => Q w) = t.tails.filter fun w => Q w := by
  induction t with
  | nil => rfl
  | cons x xs ih =>
      by_cases hx : P (x :: xs)
      · rw [longestSuffix_of_mem hx]
      · rw [longestSuffix_cons_of_not hx, ih, List.tails_cons,
          List.filter_cons_of_neg (by simpa using fun h => hx (hsub _ h))]

end Lib
end ServiceKit
