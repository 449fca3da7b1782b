import ServiceKit.Lib.Run

/-!
# `Lib.Interaction` — programs that call their environment

A program either returns or makes a call and goes on with the reply, whatever it is. What the calls do is
left to a handler: a relation between a call, a state, its reply and the state after. `Calls P` says that
every call on every path is one of `P`; `Ends` are the runs of a program alone, and a step of `Does` is one
call, for programs that run beside each other. `answered` is the one run of a program whose calls have
their replies fixed.
-/

namespace ServiceKit
namespace Lib

/-- A program with calls `I`, replies `O` and results `α`. -/
inductive Program (I : Type) (O : I → Type) (α : Type) where
  | ret (a : α)
  | call (i : I) (next : O i → Program I O α)

namespace Program

variable {I : Type} {O : I → Type} {α β S : Type}

/-- Go on with the result. -/
def bind : Program I O α → (α → Program I O β) → Program I O β
  | .ret a, f => f a
  | .call i next, f => .call i (fun o => (next o).bind f)

instance : Monad (Program I O) where
  pure := .ret
  bind := .bind

/-- Make one call and return its reply. -/
def perform (i : I) : Program I O (O i) := .call i .ret

@[simp] theorem pure_def (a : α) : (pure a : Program I O α) = .ret a := rfl

@[simp] theorem ret_bind (a : α) (f : α → Program I O β) : (Program.ret a >>= f) = f a := rfl

@[simp] theorem call_bind (i : I) (next : O i → Program I O α) (f : α → Program I O β) :
    (Program.call i next >>= f) = .call i (fun o => next o >>= f) := rfl

theorem bind_assoc {γ : Type} (p : Program I O α) (f : α → Program I O β) (f' : β → Program I O γ) :
    (p >>= f >>= f') = (p >>= fun a => f a >>= f') := by
  induction p with
  | ret a => rfl
  | call i next ih =>
      simp only [call_bind, call.injEq, heq_eq_eq, true_and]
      funext o
      exact ih o

@[simp] theorem perform_bind (i : I) (f : O i → Program I O β) : (perform i >>= f) = .call i f := rfl

/-! ## The calls of a program -/

/-- Every call that the program makes, whatever the replies, is one of `P`. -/
def Calls (P : I → Prop) : Program I O α → Prop
  | .ret _ => True
  | .call i next => P i ∧ ∀ o, (next o).Calls P

@[simp] theorem calls_ret (P : I → Prop) (a : α) : (Program.ret a : Program I O α).Calls P := trivial

@[simp] theorem calls_call {P : I → Prop} {i : I} {next : O i → Program I O α} :
    (Program.call i next).Calls P ↔ P i ∧ ∀ o, (next o).Calls P :=
  Iff.rfl

@[simp] theorem calls_perform {P : I → Prop} {i : I} : (perform i : Program I O (O i)).Calls P ↔ P i := by
  simp [perform]

theorem Calls.bind {P : I → Prop} {p : Program I O α} {f : α → Program I O β} (h : p.Calls P)
    (hf : ∀ a, (f a).Calls P) : (p >>= f).Calls P := by
  induction p with
  | ret a => exact hf a
  | call i next ih => exact ⟨h.1, fun o => ih o (h.2 o)⟩

/-! ## Fixed replies -/

/-- The calls that the program makes when each gets the reply of `env`, and its result. -/
def answered (env : (i : I) → O i) : Program I O α → List I × α
  | .ret a => ([], a)
  | .call i next =>
      let rest := (next (env i)).answered env
      (i :: rest.1, rest.2)

variable {env : (i : I) → O i}

@[simp] theorem answered_ret (a : α) : (Program.ret a : Program I O α).answered env = ([], a) := rfl

@[simp] theorem answered_call (i : I) (next : O i → Program I O α) :
    (Program.call i next).answered env = (i :: ((next (env i)).answered env).1, ((next (env i)).answered env).2) :=
  rfl

/-! ## Runs -/

/-- The program makes the call, and goes on with the reply. -/
def Does (p : Program I O α) (i : I) (o : O i) (p' : Program I O α) : Prop :=
  ∃ next, p = .call i next ∧ p' = next o

/-- A run of the program to its end, from a state to a state. -/
inductive Ends (H : (i : I) → S → O i → S → Prop) : Program I O α → S → α → S → Prop where
  | ret {a : α} {s : S} : Ends H (.ret a) s a s
  | call {i : I} {next : O i → Program I O α} {o : O i} {a : α} {s t u : S} (hcall : H i s o t)
      (hrest : Ends H (next o) t a u) : Ends H (.call i next) s a u

variable {H : (i : I) → S → O i → S → Prop}

theorem ends_ret {a b : α} {s t : S} : Ends H (.ret a) s b t ↔ b = a ∧ t = s := by
  constructor
  · intro h
    cases h
    exact ⟨rfl, rfl⟩
  · rintro ⟨rfl, rfl⟩
    exact .ret

theorem ends_call {i : I} {next : O i → Program I O α} {a : α} {s u : S} :
    Ends H (.call i next) s a u ↔ ∃ o t, H i s o t ∧ Ends H (next o) t a u := by
  constructor
  · intro h
    cases h with
    | call hcall hrest => exact ⟨_, _, hcall, hrest⟩
  · rintro ⟨o, t, hcall, hrest⟩
    exact .call hcall hrest

/-- A run of two programs in a row passes through a state between them. -/
theorem ends_bind {p : Program I O α} {f : α → Program I O β} {b : β} {s u : S} :
    Ends H (p >>= f) s b u ↔ ∃ a t, Ends H p s a t ∧ Ends H (f a) t b u := by
  induction p generalizing s with
  | ret a =>
      constructor
      · intro h
        exact ⟨a, s, .ret, h⟩
      · rintro ⟨a', t, ha, hf⟩
        obtain ⟨rfl, rfl⟩ := ends_ret.mp ha
        exact hf
  | call i next ih =>
      rw [call_bind, ends_call]
      constructor
      · rintro ⟨o, t, hcall, hrest⟩
        obtain ⟨a, t', hnext, hf⟩ := (ih o).mp hrest
        exact ⟨a, t', .call hcall hnext, hf⟩
      · rintro ⟨a, t', hp, hf⟩
        obtain ⟨o, t, hcall, hnext⟩ := ends_call.mp hp
        exact ⟨o, t, hcall, (ih o).mpr ⟨a, t', hnext, hf⟩⟩

/-- **Invariant rule.** What every call of `P` keeps is kept by a program that makes no others. -/
theorem Ends.preserves {P : I → Prop} {Inv : S → Prop} {p : Program I O α} {a : α} {s t : S}
    (h : Ends H p s a t) (hcalls : p.Calls P)
    (hstep : ∀ i s o t, P i → Inv s → H i s o t → Inv t) (hinv : Inv s) : Inv t := by
  induction h with
  | ret => exact hinv
  | call hcall _ ih => exact ih (hcalls.2 _) (hstep _ _ _ _ hcalls.1 hinv hcall)

end Program

end Lib
end ServiceKit
