import Mathlib.Order.Bounds.Basic
import Mathlib.Data.List.GetD
import Mathlib.Order.Lattice

/-!
# `Lib.HashRing` — points on a circle, and binary search

`search` is the binary search of Go's `sort.Search`; where the predicate turns true once and stays true, it finds the
place (`search_spec`). `Owns` is what a hash ring is for: of the points on a circle the one that is met first, going up
from a place, with the least after the greatest. Points that come in attract places only to themselves (`Owns.of_subset`),
points that go away give away only their own.
-/

namespace ServiceKit
namespace Lib

/-! ## Binary search -/

/-- The loop of `sort.Search`, over the interval from `i` to `j`, with as many turns as it is long. -/
def searchFrom (f : Nat → Bool) : Nat → Nat → Nat → Nat
  | 0, i, _ => i
  | fuel + 1, i, j =>
      if i < j then
        let h := (i + j) / 2
        if f h then searchFrom f fuel i h else searchFrom f fuel (h + 1) j
      else i

/-- `sort.Search` -/
def search (n : Nat) (f : Nat → Bool) : Nat := searchFrom f n 0 n

theorem searchFrom_spec {f : Nat → Bool} {n : Nat} (hmono : ∀ i j, i ≤ j → j < n → f i = true → f j = true)
    (fuel i j : Nat) (hfuel : j - i ≤ fuel) (hij : i ≤ j) (hj : j ≤ n) (hbelow : ∀ k, k < i → f k = false)
    (habove : ∀ k, j ≤ k → k < n → f k = true) :
    searchFrom f fuel i j ≤ n ∧ (∀ k, k < searchFrom f fuel i j → f k = false) ∧
      ∀ k, searchFrom f fuel i j ≤ k → k < n → f k = true := by
  induction fuel generalizing i j with
  | zero =>
      obtain rfl : i = j := by omega
      exact ⟨hj, hbelow, habove⟩
  | succ fuel ih =>
      rw [searchFrom]
      by_cases hlt : i < j
      · rw [if_pos hlt]
        have hmid : i ≤ (i + j) / 2 ∧ (i + j) / 2 < j := by omega
        simp only
        by_cases hf : f ((i + j) / 2) = true
        · rw [if_pos hf]
          refine ih i ((i + j) / 2) (by omega) hmid.1 (by omega) hbelow fun k hk hkn => ?_
          exact hmono _ k hk hkn hf
        · rw [if_neg hf]
          refine ih ((i + j) / 2 + 1) j (by omega) (by omega) hj (fun k hk => ?_) habove
          -- below the middle the predicate is false too
          cases hfk : f k with
          | false => rfl
          | true => exact absurd (hmono k ((i + j) / 2) (by omega) (by omega) hfk) hf
      · rw [if_neg hlt]
        obtain rfl : i = j := by omega
        exact ⟨hj, hbelow, habove⟩

/-- The first place where the predicate is true, if it stays true. -/
theorem search_spec {f : Nat → Bool} {n : Nat} (hmono : ∀ i j, i ≤ j → j < n → f i = true → f j = true) :
    search n f ≤ n ∧ (∀ k, k < search n f → f k = false) ∧ ∀ k, search n f ≤ k → k < n → f k = true :=
  searchFrom_spec hmono n 0 n (Nat.le_refl n) (Nat.zero_le n) (Nat.le_refl n) (fun k hk => absurd hk (Nat.not_lt_zero k))
    fun _ hk hkn => absurd hkn (Nat.not_lt.mpr hk)

/-- Where a key goes in a sorted list: before it is what is less. -/
def insertionPoint (keys : List Nat) (h : Nat) : Nat := search keys.length fun i => decide (h ≤ keys.getD i 0)

theorem insertionPoint_spec {keys : List Nat} (hsorted : keys.Pairwise (· ≤ ·)) (h : Nat) :
    insertionPoint keys h ≤ keys.length ∧ (∀ k ∈ keys.take (insertionPoint keys h), k < h) ∧
      ∀ k ∈ keys.drop (insertionPoint keys h), h ≤ k := by
  have hmono : ∀ i j, i ≤ j → j < keys.length → decide (h ≤ keys.getD i 0) = true → decide (h ≤ keys.getD j 0) = true := by
    intro i j hij hj hi
    rw [decide_eq_true_eq] at hi ⊢
    refine Nat.le_trans hi ?_
    rw [List.getD_eq_getElem _ _ hj, List.getD_eq_getElem _ _ (Nat.lt_of_le_of_lt hij hj)]
    rcases Nat.lt_or_eq_of_le hij with hlt | heq
    · exact List.pairwise_iff_getElem.mp hsorted i j _ hj hlt
    · simp only [heq, Nat.le_refl]
  obtain ⟨hle, hbelow, habove⟩ := search_spec hmono
  refine ⟨hle, fun k hk => ?_, fun k hk => ?_⟩
  · obtain ⟨i, hi, rfl⟩ := List.mem_iff_getElem.mp hk
    rw [List.length_take] at hi
    have hi' : i < insertionPoint keys h := Nat.lt_of_lt_of_le hi (Nat.min_le_left _ _)
    have hlt : i < keys.length := Nat.lt_of_lt_of_le hi (Nat.min_le_right _ _)
    have hfalse := hbelow i hi'
    rw [decide_eq_false_iff_not, List.getD_eq_getElem _ _ hlt] at hfalse
    rw [List.getElem_take]
    exact Nat.not_le.mp hfalse
  · obtain ⟨i, hi, rfl⟩ := List.mem_iff_getElem.mp hk
    rw [List.length_drop] at hi
    have hlt : insertionPoint keys h + i < keys.length := by omega
    have htrue := habove (insertionPoint keys h + i) (Nat.le_add_right _ _) hlt
    rw [decide_eq_true_eq, List.getD_eq_getElem _ _ hlt] at htrue
    rw [List.getElem_drop]
    exact htrue

/-! ## The circle -/

section Circle

variable {κ : Type*} [LinearOrder κ] {points points' : Set κ} {h p q : κ}

/-- Of the points on the circle, `p` is the first that is met going up from `h`. -/
def Owns (points : Set κ) (h p : κ) : Prop :=
  IsLeast {q ∈ points | h ≤ q} p ∨ (∀ q ∈ points, q < h) ∧ IsLeast points p

theorem Owns.mem (ho : Owns points h p) : p ∈ points := by
  rcases ho with ho | ⟨-, ho⟩
  · exact ho.1.1
  · exact ho.1

/-- There is one such point. -/
theorem Owns.unique (hp : Owns points h p) (hq : Owns points h q) : p = q := by
  rcases hp with hp | ⟨hbelow, hp⟩
  · rcases hq with hq | ⟨hbelow, -⟩
    · exact hp.unique hq
    · exact absurd hp.1.2 (not_le.mpr (hbelow p hp.1.1))
  · rcases hq with hq | ⟨-, hq⟩
    · exact absurd hq.1.2 (not_le.mpr (hbelow q hq.1.1))
    · exact hp.unique hq

/-- **A ring keeps what it can**: with fewer points, a place stays with its point if that is still there. -/
theorem Owns.of_subset (ho : Owns points h p) (hsub : points' ⊆ points) (hp : p ∈ points') : Owns points' h p := by
  rcases ho with ho | ⟨hbelow, ho⟩
  · exact .inl ⟨⟨hp, ho.1.2⟩, fun q hq => ho.2 ⟨hsub hq.1, hq.2⟩⟩
  · exact .inr ⟨fun q hq => hbelow q (hsub hq), hp, fun q hq => ho.2 (hsub hq)⟩

end Circle

end Lib
end ServiceKit
