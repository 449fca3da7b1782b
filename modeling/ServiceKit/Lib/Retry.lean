import Mathlib.Data.ENat.Lattice

/-!
# `Lib.Retry` — calling until one call succeeds

A stream of outcomes says what each call would return: `none` is a success. `tries i o` is how many calls a
loop makes that stops at the first success and after `i` calls at the latest. It is what
`1 + min retries (firstSuccess o)` says for the first call and its retries together.
-/

namespace ServiceKit
namespace Lib

variable {ε : Type}

/-- The outcomes of the calls that follow the first. -/
def later (o : ℕ → Option ε) (n : ℕ) : Option ε := o (n + 1)

/-- The index of the first success, `⊤` where every call fails. -/
noncomputable def firstSuccess (o : ℕ → Option ε) : ℕ∞ := ⨅ n, ⨅ (_ : o n = none), (n : ℕ∞)

/-- The first `n` calls fail. -/
def Fails (o : ℕ → Option ε) (n : ℕ) : Prop := ∀ k < n, o k ≠ none

/-- The calls of a loop of at most `i` calls that stops at the first success. -/
def tries : ℕ → (ℕ → Option ε) → ℕ
  | 0, _ => 0
  | i + 1, o =>
      match o 0 with
      | none => 1
      | some _ => 1 + tries i (later o)

theorem firstSuccess_le {o : ℕ → Option ε} {n : ℕ} (h : o n = none) : firstSuccess o ≤ n :=
  iInf₂_le n h

theorem le_firstSuccess {o : ℕ → Option ε} {n : ℕ∞} : n ≤ firstSuccess o ↔ ∀ k, o k = none → n ≤ k := by
  unfold firstSuccess
  rw [le_iInf_iff]
  exact forall_congr' (fun _ => le_iInf_iff)

theorem firstSuccess_of_none {o : ℕ → Option ε} (h : o 0 = none) : firstSuccess o = 0 :=
  nonpos_iff_eq_zero.mp (firstSuccess_le h)

theorem firstSuccess_of_some {o : ℕ → Option ε} {e : ε} (h : o 0 = some e) :
    firstSuccess o = 1 + firstSuccess (later o) := by
  apply le_antisymm
  · -- a success of the later calls is one of all of them, one further on
    unfold firstSuccess
    rw [ENat.add_iInf]
    apply le_iInf
    intro n
    rw [ENat.add_iInf]
    apply le_iInf
    intro hn
    have hle : firstSuccess o ≤ (n + 1 : ℕ) := firstSuccess_le hn
    rwa [Nat.cast_add, Nat.cast_one, add_comm] at hle
  · rw [le_firstSuccess]
    intro k hk
    cases k with
    | zero => rw [h] at hk; cases hk
    | succ k =>
        have hle : firstSuccess (later o) ≤ k := firstSuccess_le hk
        rw [Nat.cast_add, Nat.cast_one, add_comm]
        exact add_le_add_left hle 1

@[simp] theorem tries_zero (o : ℕ → Option ε) : tries 0 o = 0 := rfl

theorem tries_of_none {o : ℕ → Option ε} (h : o 0 = none) (i : ℕ) : tries (i + 1) o = 1 := by
  rw [tries, h]

theorem tries_of_some {o : ℕ → Option ε} {e : ε} (h : o 0 = some e) (i : ℕ) :
    tries (i + 1) o = 1 + tries i (later o) := by
  rw [tries, h]

/-- **How often one call and its retries are made.** -/
theorem tries_eq (retries : ℕ) (o : ℕ → Option ε) :
    (tries (retries + 1) o : ℕ∞) = 1 + min (retries : ℕ∞) (firstSuccess o) := by
  -- on the retries: the first of them is the first call of the rest
  induction retries generalizing o with
  | zero =>
      cases h : o 0 with
      | none => rw [tries_of_none h]; simp
      | some e => rw [tries_of_some h]; simp
  | succ retries ih =>
      cases h : o 0 with
      | none => rw [tries_of_none h, firstSuccess_of_none h]; simp
      | some e =>
          rw [tries_of_some h, firstSuccess_of_some h, Nat.cast_add, ih (later o), Nat.cast_add,
            Nat.cast_one, add_comm (retries : ℕ∞) 1, min_add_add_left]

theorem fails_zero (o : ℕ → Option ε) : Fails o 0 := fun _ hk => absurd hk (Nat.not_lt_zero _)

theorem fails_succ_iff {o : ℕ → Option ε} {n : ℕ} : Fails o (n + 1) ↔ o 0 ≠ none ∧ Fails (later o) n := by
  constructor
  · intro h
    exact ⟨h 0 n.succ_pos, fun k hk => h (k + 1) (Nat.succ_lt_succ hk)⟩
  · rintro ⟨h0, hlater⟩ k hk
    cases k with
    | zero => exact h0
    | succ k => exact hlater k (Nat.lt_of_succ_lt_succ hk)

end Lib
end ServiceKit
