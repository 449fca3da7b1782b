import Mathlib.Data.Finset.Card
import Mathlib.Logic.Function.Iterate

/-!
# `Lib.FreshName` — the first candidate that is not taken

A loop that tries one candidate after another. Where the candidates are all different it ends after at most as many
rounds as there are taken ones, and one more (`exists_firstUntaken`).
-/

namespace ServiceKit
namespace Lib

variable {α : Type*} {taken : α → Bool} {next : α → α} {x y : α} {fuel : Nat}

/-- The first candidate that is not taken, from `x` on; nothing where the fuel is used up. -/
def firstUntaken (taken : α → Bool) (next : α → α) : Nat → α → Option α
  | 0, _ => none
  | fuel + 1, x => if taken x then firstUntaken taken next fuel (next x) else some x

theorem firstUntaken_eq_some (h : firstUntaken taken next fuel x = some y) :
    taken y = false ∧ ∃ k, y = next^[k] x := by
  induction fuel generalizing x with
  | zero => cases h
  | succ fuel ih =>
      rw [firstUntaken] at h
      split at h
      · obtain ⟨hy, k, rfl⟩ := ih h
        exact ⟨hy, k + 1, rfl⟩
      · next hx =>
          obtain rfl := Option.some.inj h
          exact ⟨Bool.eq_false_iff.mpr hx, 0, rfl⟩

/-- Where it finds none, the candidates that it tried are all taken. -/
theorem taken_of_firstUntaken (h : firstUntaken taken next fuel x = none) : ∀ k < fuel, taken (next^[k] x) = true := by
  induction fuel generalizing x with
  | zero => exact fun k hk => absurd hk (Nat.not_lt_zero k)
  | succ fuel ih =>
      rw [firstUntaken] at h
      split at h
      · next hx =>
          intro k hk
          cases k with
          | zero => exact hx
          | succ k => exact ih h k (Nat.lt_of_succ_lt_succ hk)
      · cases h

/-- More rounds than there are taken candidates are enough. -/
theorem exists_firstUntaken (hinj : Function.Injective fun k => next^[k] x) (s : Finset α)
    (hs : ∀ y, taken y = true → y ∈ s) (hfuel : s.card < fuel) : ∃ y, firstUntaken taken next fuel x = some y := by
  cases h : firstUntaken taken next fuel x with
  | some y => exact ⟨y, rfl⟩
  | none =>
      have hle := Finset.card_le_card_of_injOn (s := Finset.range fuel) (t := s) (fun k => next^[k] x)
        (fun k hk => hs _ (taken_of_firstUntaken h k (Finset.mem_range.mp hk))) hinj.injOn
      rw [Finset.card_range] at hle
      omega

end Lib
end ServiceKit
