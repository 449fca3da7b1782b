import Mathlib.Data.Set.Finite.Lattice
import Mathlib.Order.Interval.Set.Infinite

/-!
# `Polling` — loops that ask an object again and again

Each iteration of a `Polling` loop asks its object once and goes on with the reply: to the next iteration, perhaps with
another object, or nowhere, where it was left or never ends. A loop that survives every failed reply and keeps its
object asks a dead object forever; it is spared that only by an iteration that never got so far (`leaves_iff`).
-/

namespace ServiceKit
namespace Lib

/-- A loop over the states `S`, that asks objects `O` for replies `R`. -/
structure Polling (S O R : Type) where
  object : S → O
  /-- One iteration; `none` where no further one follows. -/
  body : R → S → Option S

namespace Polling

variable {S O R : Type} (p : Polling S O R) (env : ℕ → O → R) (s : S)

/-! ## Runs -/

/-- The state that iteration `n` begins with, if there is such an iteration; `env n o` is what `o` would reply then. -/
def before : ℕ → Option S
  | 0 => some s
  | n + 1 => (before n).bind fun s => p.body (env n (p.object s)) s

/-- Iteration `n` asks `o`. -/
def Asks (o : O) (n : ℕ) : Prop := ∃ s', p.before env s n = some s' ∧ p.object s' = o

/-- From iteration `k` on, `o` is asked only finitely often. -/
def Leaves (o : O) (k : ℕ) : Prop := {n | k ≤ n ∧ p.Asks env s o n}.Finite

/-! ## Loops that keep their object -/

/-- No iteration replaces the object. -/
def KeepsObject : Prop := ∀ r s s', p.body r s = some s' → p.object s' = p.object s

/-- Exactly the replies of `ends` are the last. -/
def EndsOn (ends : R → Prop) : Prop := ∀ r s, p.body r s = none ↔ ends r

variable {p env s}

theorem KeepsObject.before (h : p.KeepsObject) {n : ℕ} {s' : S} (hs' : p.before env s n = some s') :
    p.object s' = p.object s := by
  induction n generalizing s' with
  | zero =>
      have heq : s = s' := by simpa [Polling.before] using hs'
      rw [heq]
  | succ n ih =>
      obtain ⟨t, ht, hbody⟩ := Option.bind_eq_some_iff.mp hs'
      rw [h _ _ _ hbody]
      exact ih ht

/-- There is no iteration `n` exactly where one before it was the last. -/
theorem before_eq_none_iff {ends : R → Prop} (hkeeps : p.KeepsObject) (hends : p.EndsOn ends) {n : ℕ} :
    p.before env s n = none ↔ ∃ m < n, ends (env m (p.object s)) := by
  induction n with
  | zero => simp [before]
  | succ n ih =>
      cases hn : p.before env s n with
      | none =>
          have hlast : ∃ m < n, ends (env m (p.object s)) := ih.mp hn
          refine iff_of_true (by simp [before, hn]) ?_
          obtain ⟨m, hm, hend⟩ := hlast
          exact ⟨m, by omega, hend⟩
      | some t =>
          have hnot : ¬∃ m < n, ends (env m (p.object s)) := fun h => by simp [ih.mpr h] at hn
          have hobject : p.object t = p.object s := hkeeps.before hn
          have hbody : p.before env s (n + 1) = p.body (env n (p.object s)) t := by
            simp [before, hn, hobject]
          rw [hbody, hends]
          constructor
          · intro hend
            exact ⟨n, by omega, hend⟩
          · rintro ⟨m, hm, hend⟩
            have hmn : m = n := by
              by_contra hne
              exact hnot ⟨m, by omega, hend⟩
            rwa [← hmn]

/-- **The loop leaves a dead object** exactly when an iteration before its death was the last. -/
theorem leaves_iff {fails ends : R → Prop} (hkeeps : p.KeepsObject) (hends : p.EndsOn ends)
    (hfails : ∀ r, fails r → ¬ends r) {k : ℕ} (hdead : ∀ n, k ≤ n → fails (env n (p.object s))) :
    p.Leaves env s (p.object s) k ↔ ∃ m < k, ends (env m (p.object s)) := by
  constructor
  · intro hfinite
    by_contra hnone
    apply Set.Ici_infinite k
    apply hfinite.subset
    intro n hn
    have hk : k ≤ n := hn
    cases hbefore : p.before env s n with
    | some s' => exact ⟨hk, s', hbefore, hkeeps.before hbefore⟩
    | none =>
        -- the last iteration was a reply of the dead object, or one before its death
        obtain ⟨m, -, hend⟩ := (before_eq_none_iff hkeeps hends).mp hbefore
        refine (hnone ⟨m, ?_, hend⟩).elim
        by_contra hm
        exact hfails _ (hdead m (by omega)) hend
  · rintro ⟨m, hm, hend⟩
    apply Set.Finite.subset Set.finite_empty
    rintro n ⟨hk, s', hs', -⟩
    have hnone : p.before env s n = none := (before_eq_none_iff hkeeps hends).mpr ⟨m, by omega, hend⟩
    simp [hnone] at hs'

end Polling

end Lib
end ServiceKit
