import Mathlib.Tactic.TypeStar
import Mathlib.Data.List.Forall2
import Mathlib.Data.List.Induction

/-!
# `Lib.Run` — runs of a labelled step relation

A system is a relation `Step : S → L → S → Prop`: from a state, under a label (an input, an outcome of
the environment, an interleaving choice), to a state. `Run Step s₀ ls s` says that the labels `ls`, in
this order, lead from `s₀` to `s`. Runs grow at the back, so an invariant is one step lemma
(`Run.invariant`); `Run.simulates` is the forward-simulation rule between two systems. `exec` runs a
fallible step function.
-/

namespace ServiceKit
namespace Lib

universe v

variable {S T L A ε : Type*}

/-- The labels `ls` lead from `s₀` to the last state. -/
inductive Run (Step : S → L → S → Prop) (s₀ : S) : List L → S → Prop where
  | nil : Run Step s₀ [] s₀
  | snoc {ls s l t} : Run Step s₀ ls s → Step s l t → Run Step s₀ (ls ++ [l]) t

namespace Run

variable {Step : S → L → S → Prop}

theorem single {s t : S} {l : L} (h : Step s l t) : Run Step s [l] t := by
  show Run Step s ([] ++ [l]) t
  exact snoc nil h

/-- **Invariant rule.** What holds of the start and is kept by every step of a run holds at its end;
    the invariant may speak of the labels consumed so far. -/
theorem invariant {s₀ : S} (Inv : List L → S → Prop) (hinit : Inv [] s₀)
    (hstep : ∀ ls s l t, Run Step s₀ ls s → Inv ls s → Step s l t → Inv (ls ++ [l]) t)
    {ls : List L} {t : S} (h : Run Step s₀ ls t) : Inv ls t := by
  induction h with
  | nil => exact hinit
  | snoc hrun hs ih => exact hstep _ _ _ _ hrun ih hs

/-- The invariant rule for a predicate of the state alone. -/
theorem preserves {s₀ : S} {P : S → Prop} (hinit : P s₀) (hstep : ∀ s l t, P s → Step s l t → P t)
    {ls : List L} {t : S} (h : Run Step s₀ ls t) : P t :=
  invariant (fun _ s => P s) hinit (fun _ s l t _ hp hs => hstep s l t hp hs) h

theorem append {s₀ s t : S} {ls ls' : List L} (h : Run Step s₀ ls s) (h' : Run Step s ls' t) :
    Run Step s₀ (ls ++ ls') t := by
  induction h' with
  | nil => simpa using h
  | snoc _ hs ih =>
      rw [← List.append_assoc]
      exact snoc ih hs

theorem cons {s t u : S} {l : L} {ls : List L} (hs : Step s l t) (h : Run Step t ls u) :
    Run Step s (l :: ls) u :=
  (single hs).append h

/-- The last step of a run over a nonempty list. -/
theorem snoc_inv {s₀ t : S} {ls : List L} {l : L} (h : Run Step s₀ (ls ++ [l]) t) :
    ∃ s, Run Step s₀ ls s ∧ Step s l t := by
  generalize hks : ls ++ [l] = ks at h
  cases h with
  | nil => simp at hks
  | @snoc js s k t hrun hs =>
      obtain ⟨hjs, hk⟩ := List.append_inj' hks rfl
      simp only [List.cons.injEq, and_true] at hk
      subst hjs hk
      exact ⟨s, hrun, hs⟩

theorem nil_inv {s₀ t : S} (h : Run Step s₀ [] t) : t = s₀ := by
  generalize hks : ([] : List L) = ks at h
  cases h with
  | nil => rfl
  | snoc _ _ => simp at hks

/-- A run over a concatenation passes through a state between the two parts. -/
theorem split {s₀ t : S} {ls : List L} (ls' : List L) (h : Run Step s₀ (ls ++ ls') t) :
    ∃ s, Run Step s₀ ls s ∧ Run Step s ls' t := by
  induction ls' using List.reverseRec generalizing t with
  | nil => exact ⟨t, by simpa using h, nil⟩
  | append_singleton ms l ih =>
      -- the last step belongs to the second part
      rw [← List.append_assoc] at h
      obtain ⟨u, hrun, hs⟩ := snoc_inv h
      obtain ⟨s, hs₁, hs₂⟩ := ih hrun
      exact ⟨s, hs₁, snoc hs₂ hs⟩

/-- The first step of a run over a nonempty list. -/
theorem head {s₀ t : S} {l : L} {ls : List L} (h : Run Step s₀ (l :: ls) t) :
    ∃ s, Step s₀ l s ∧ Run Step s ls t := by
  have h' : Run Step s₀ ([l] ++ ls) t := by simpa using h
  obtain ⟨s, hs, hrest⟩ := split ls h'
  have hs' : Run Step s₀ ([] ++ [l]) s := by simpa using hs
  obtain ⟨u, hnil, hstep⟩ := snoc_inv hs'
  exact ⟨s, nil_inv hnil ▸ hstep, hrest⟩

/-- A run is a run of every system that has its steps, under relabelling. -/
theorem map {Step' : S → A → S → Prop} (f : L → A) (hstep : ∀ s l t, Step s l t → Step' s (f l) t)
    {s₀ t : S} {ls : List L} (h : Run Step s₀ ls t) : Run Step' s₀ (ls.map f) t := by
  induction h with
  | nil => exact nil
  | snoc _ hs ih =>
      rw [List.map_append]
      exact snoc ih (hstep _ _ _ hs)

/-- **Forward simulation.** If every step of a system is matched by a run of the abstract system over
    the labels `f l` that re-establishes `R`, then so is every run. -/
theorem simulates {AStep : T → A → T → Prop} {R : S → T → Prop} (f : L → List A) {s₀ : S} {a₀ : T}
    (hinit : R s₀ a₀)
    (hstep : ∀ s a l t, R s a → Step s l t → ∃ b, Run AStep a (f l) b ∧ R t b)
    {ls : List L} {t : S} (h : Run Step s₀ ls t) :
    ∃ b, Run AStep a₀ (ls.flatMap f) b ∧ R t b := by
  induction h with
  | nil => exact ⟨a₀, nil, hinit⟩
  | snoc _ hs ih =>
      obtain ⟨a, ha, hr⟩ := ih
      obtain ⟨b, hb, hrb⟩ := hstep _ _ _ _ hr hs
      refine ⟨b, ?_, hrb⟩
      rw [List.flatMap_append, List.flatMap_singleton]
      exact append ha hb

end Run

/-- Every step of a run over `ls` from `s₀` to `s` is one of `P`. -/
def Throughout (Step P : S → L → S → Prop) (s₀ : S) (ls : List L) (s : S) : Prop :=
  ∀ pre l post u v, ls = pre ++ l :: post → Run Step s₀ pre u → Step u l v → Run Step v post s → P u l v

/-- What a step of a reachable state is, it is throughout a run. -/
theorem throughout_congr {Step P Q : S → L → S → Prop} {s₀ s : S} {ls : List L}
    (h : ∀ pre u l v, Run Step s₀ pre u → Step u l v → (P u l v ↔ Q u l v)) :
    Throughout Step P s₀ ls s ↔ Throughout Step Q s₀ ls s := by
  constructor
  · intro hP pre l post u v hls hpre hstep hpost
    exact (h pre u l v hpre hstep).mp (hP pre l post u v hls hpre hstep hpost)
  · intro hQ pre l post u v hls hpre hstep hpost
    exact (h pre u l v hpre hstep).mpr (hQ pre l post u v hls hpre hstep hpost)

/-- A sequence of two fallible computations succeeds through an intermediate result. -/
theorem bind_ok_iff {α β : Type v} {x : Except ε α} {f : α → Except ε β} {b : β} :
    (x >>= f) = .ok b ↔ ∃ a, x = .ok a ∧ f a = .ok b := by
  cases x with
  | error e => exact ⟨nofun, nofun⟩
  | ok a => exact ⟨fun h => ⟨a, rfl, h⟩, fun ⟨a', ha, hf⟩ => Except.ok.inj ha ▸ hf⟩

/-- The two parts of a result. -/
theorem ok_pair_inj {α β : Type v} {a a' : α} {b b' : β}
    (h : (.ok (a, b) : Except ε (α × β)) = .ok (a', b')) : a = a' ∧ b = b' :=
  Prod.mk.inj (Except.ok.inj h)

/-- A fallible function over a list succeeds with its results on the elements. -/
theorem mapM_ok_iff {α β : Type v} {f : α → Except ε β} {xs : List α} {ys : List β} :
    xs.mapM f = .ok ys ↔ List.Forall₂ (fun x y => f x = .ok y) xs ys := by
  induction xs generalizing ys with
  | nil =>
      rw [List.mapM_nil, List.forall₂_nil_left_iff]
      exact ⟨fun h => (Except.ok.inj h).symm, fun h => congrArg Except.ok h.symm⟩
  | cons x xs ih =>
      rw [List.mapM_cons, bind_ok_iff, List.forall₂_cons_left_iff]
      refine exists_congr fun y => ?_
      rw [bind_ok_iff]
      constructor
      · rintro ⟨hy, zs, hzs, h⟩
        exact ⟨zs, hy, ih.mp hzs, (Except.ok.inj h).symm⟩
      · rintro ⟨zs, hy, hzs, rfl⟩
        exact ⟨hy, zs, ih.mpr hzs, Eq.refl _⟩

/-- It succeeds where it does on each element. -/
theorem exists_mapM_iff {α β : Type v} {f : α → Except ε β} {xs : List α} :
    (∃ ys, xs.mapM f = .ok ys) ↔ ∀ x ∈ xs, ∃ y, f x = .ok y := by
  induction xs with
  | nil => exact ⟨fun _ => List.forall_mem_nil _, fun _ => ⟨[], Eq.refl _⟩⟩
  | cons x xs ih =>
      rw [List.forall_mem_cons, ← ih]
      simp only [mapM_ok_iff, List.forall₂_cons_left_iff]
      constructor
      · rintro ⟨-, y, ys, hy, hys, -⟩
        exact ⟨⟨y, hy⟩, ys, hys⟩
      · rintro ⟨⟨y, hy⟩, ys, hys⟩
        exact ⟨y :: ys, y, ys, hy, hys, Eq.refl _⟩

theorem exists_mem_left {α β : Type*} {R : α → β → Prop} {xs : List α} {ys : List β} (h : List.Forall₂ R xs ys) :
    ∀ y ∈ ys, ∃ x ∈ xs, R x y := by
  induction h with
  | nil => exact List.forall_mem_nil _
  | cons hR _ ih =>
      refine List.forall_mem_cons.mpr ⟨⟨_, List.mem_cons_self, hR⟩, fun y hy => ?_⟩
      obtain ⟨x, hx, hxy⟩ := ih y hy
      exact ⟨x, List.mem_cons_of_mem _ hx, hxy⟩

theorem exists_mem_right {α β : Type*} {R : α → β → Prop} {xs : List α} {ys : List β} (h : List.Forall₂ R xs ys) :
    ∀ x ∈ xs, ∃ y ∈ ys, R x y := exists_mem_left (List.Forall₂.flip h)

/-! ## Fallible step functions -/

/-- Run a fallible step function over a list of inputs, until one fails; results are dropped. -/
def exec (step : S → L → Except ε (T × S)) : S → List L → Except ε S
  | s, [] => .ok s
  | s, l :: ls =>
      match step s l with
      | .error e => .error e
      | .ok (_, t) => exec step t ls

section Exec

variable {step : S → L → Except ε (T × S)} {s t : S} {l : L} {r : T}

@[simp] theorem exec_nil : exec step s [] = .ok s := rfl

theorem exec_cons_ok (h : step s l = .ok (r, t)) (ls : List L) :
    exec step s (l :: ls) = exec step t ls := by
  rw [exec, h]

theorem exec_cons_error {e : ε} (h : step s l = .error e) (ls : List L) :
    exec step s (l :: ls) = .error e := by
  rw [exec, h]

/-- An execution that succeeds is a run, labelled with the inputs and their results. -/
theorem exec_run {ls : List L} (h : exec step s ls = .ok t) :
    ∃ rs, rs.map Prod.fst = ls ∧
      Run (fun (s : S) (l : L × T) (t : S) => step s l.1 = .ok (l.2, t)) s rs t := by
  induction ls generalizing s with
  | nil =>
      obtain rfl := Except.ok.inj h
      exact ⟨[], rfl, .nil⟩
  | cons l ls ih =>
      rw [exec] at h
      cases hres : step s l with
      | error e => rw [hres] at h; exact absurd h nofun
      | ok r =>
          rw [hres] at h
          obtain ⟨rs, hrs, hrun⟩ := ih h
          exact ⟨(l, r.1) :: rs, by rw [List.map_cons, hrs], .cons hres hrun⟩

/-- The run of an execution that is known by what `f` reads off its last state. -/
theorem exec_run_of_map {B : Type*} {f : S → B} {b : B} {ls : List L}
    (h : (exec step s ls).map f = .ok b) :
    ∃ rs t, rs.map Prod.fst = ls ∧
      Run (fun (s : S) (l : L × T) (t : S) => step s l.1 = .ok (l.2, t)) s rs t ∧ f t = b := by
  cases hres : exec step s ls with
  | error e => rw [hres] at h; exact absurd h nofun
  | ok t =>
      rw [hres] at h
      obtain ⟨rs, hrs, hrun⟩ := exec_run hres
      exact ⟨rs, t, hrs, hrun, Except.ok.inj h⟩

end Exec

/-- Follow a step function that is defined on the inputs that can come. -/
def follow (step : S → L → Option S) : S → List L → Option S
  | s, [] => some s
  | s, l :: ls => (step s l).bind fun t => follow step t ls

/-- What can be followed is a run. -/
theorem run_of_follow {step : S → L → Option S} {s t : S} {ls : List L} (h : follow step s ls = some t) :
    Run (fun (s : S) (l : L) (t : S) => step s l = some t) s ls t := by
  induction ls generalizing s with
  | nil => exact Option.some.inj h ▸ .nil
  | cons l ls ih =>
      obtain ⟨u, hu, hrest⟩ := Option.bind_eq_some_iff.mp h
      exact .cons hu (ih hrest)

/-! ## Outcomes -/

/-- A fallible computation ends with a result that meets `Q`, or with an error that meets `R`. -/
def Ends {α : Type v} (Q : α → Prop) (R : ε → Prop) : Except ε α → Prop
  | .ok a => Q a
  | .error e => R e

/-- **Sequence rule.** -/
theorem Ends.bind {α β : Type v} {Q : α → Prop} {Q' : β → Prop} {R : ε → Prop} {x : Except ε α}
    {f : α → Except ε β} (hx : Ends Q R x) (hf : ∀ a, Q a → Ends Q' R (f a)) : Ends Q' R (x >>= f) := by
  cases x with
  | error e => exact hx
  | ok a => exact hf a hx

theorem Ends.ok {α : Type v} {Q : α → Prop} {R : ε → Prop} {x : Except ε α} {a : α} (hx : Ends Q R x)
    (h : x = .ok a) : Q a := by
  rw [h] at hx
  exact hx

theorem Ends.mono {α : Type v} {Q Q' : α → Prop} {R : ε → Prop} {x : Except ε α} (hx : Ends Q R x)
    (hQ : ∀ a, Q a → Q' a) : Ends Q' R x := by
  cases x with
  | error e => exact hx
  | ok a => exact hQ a hx

/-- **Invariant rule for `exec`.** What every step keeps, failing with `R` at worst, a run keeps. -/
theorem exec_ends {step : S → L → Except ε (T × S)} (Inv : S → Prop) {R : ε → Prop}
    (hstep : ∀ s l, Inv s → Ends (fun r => Inv r.2) R (step s l)) {s : S} (hs : Inv s) (ls : List L) :
    Ends Inv R (exec step s ls) := by
  induction ls generalizing s with
  | nil => exact hs
  | cons l ls ih =>
      have hl := hstep s l hs
      rw [exec]
      cases hres : step s l with
      | error e => rw [hres] at hl; exact hl
      | ok r => rw [hres] at hl; exact ih hl

end Lib
end ServiceKit
