import ServiceKit.Lib.Run
import Mathlib.Logic.Function.Basic
import Mathlib.Data.List.Nodup

/-!
# `Lib.Countdown` — timers that count ticks

What a component that runs tasks later is for: a key has at most one timer, which holds a value and the ticks left.
A tick executes the timers with one tick left and takes one from the others. A timer may be stranded: it is there,
but no tick counts for it. The rule for clients is `Countdown.fires_once`: a timer that nobody touches executes its
value exactly once, at the tick that was asked for.
-/

namespace ServiceKit
namespace Lib
namespace Countdown

variable {κ ν : Type*}

/-- A timer; without a count it is stranded. -/
structure Timer (ν : Type*) where
  value : ν
  left : Option Nat

/-- The timers there are. -/
abbrev Timers (κ ν : Type*) := κ → Option (Timer ν)

/-- One tick less. -/
def Timer.elapse (t : Timer ν) : Timer ν := { t with left := t.left.map fun d => d - 1 }

/-- The timers after a tick. -/
def elapse (m : Timers κ ν) : Timers κ ν := fun k => ((m k).filter fun t => t.left ≠ some 1).map Timer.elapse

/-- Every timer loses its count. -/
def strand (m : Timers κ ν) : Timers κ ν := fun k => (m k).map fun t => { t with left := none }

/-- Where no ticks are counted, a tick changes nothing. -/
theorem elapse_uncounted {m : Timers κ ν} {k : κ} (h : ∀ t, m k = some t → t.left = none) : elapse m k = m k := by
  cases hk : m k with
  | none => rw [elapse, hk]; rfl
  | some t =>
      obtain ⟨v, left⟩ := t
      obtain rfl : left = none := h _ hk
      rw [elapse, hk]
      rfl

/-- What is done to the timers. -/
inductive Act (κ ν : Type*) where
  | tick
  | arm (k : κ) (t : Timer ν)
  | disarm (k : κ)
  | call (k : κ)
  | strand
  | idle

/-- The acts that the timer of `k` stays out of. -/
def Act.Spares (k : κ) : Act κ ν → Prop
  | .tick => True
  | .arm k' _ => k' ≠ k
  | .disarm k' => k' ≠ k
  | .call k' => k' ≠ k
  | .strand => False
  | .idle => True

variable [DecidableEq κ]

/-- What an act does, with the tasks that it executes. -/
inductive Step : Timers κ ν → Act κ ν × List (κ × ν) → Timers κ ν → Prop where
  | tick {m : Timers κ ν} {tasks : List (κ × ν)} (hnodup : (tasks.map Prod.fst).Nodup)
      (hmem : ∀ k v, (k, v) ∈ tasks ↔ m k = some ⟨v, some 1⟩) : Step m (.tick, tasks) (elapse m)
  | arm {m : Timers κ ν} {k : κ} {t : Timer ν} : Step m (.arm k t, []) (Function.update m k (some t))
  | disarm {m : Timers κ ν} {k : κ} : Step m (.disarm k, []) (Function.update m k none)
  | call {m : Timers κ ν} {k : κ} {t : Timer ν} (h : m k = some t) : Step m (.call k, [(k, t.value)]) m
  | strand {m : Timers κ ν} {tasks : List (κ × ν)} (hnodup : (tasks.map Prod.fst).Nodup)
      (hmem : ∀ k v, (k, v) ∈ tasks ↔ ∃ d, m k = some ⟨v, some d⟩) : Step m (.strand, tasks) (strand m)
  | idle {m : Timers κ ν} : Step m (.idle, []) m

/-- The values that were executed for `k`. -/
def executed (k : κ) (ls : List (Act κ ν × List (κ × ν))) : List ν :=
  (ls.flatMap Prod.snd).filterMap fun task => if task.1 = k then some task.2 else none

/-- The ticks of a run. -/
def ticks : List (Act κ ν × List (κ × ν)) → Nat
  | [] => 0
  | (.tick, _) :: ls => ticks ls + 1
  | _ :: ls => ticks ls

/-- Where a key has at most one task, the list is known by its membership. -/
theorem filterMap_key (k : κ) {tasks : List (κ × ν)} (hnodup : (tasks.map Prod.fst).Nodup) :
    (∀ v, (k, v) ∈ tasks → tasks.filterMap (fun task => if task.1 = k then some task.2 else none) = [v]) ∧
      ((∀ v, (k, v) ∉ tasks) → tasks.filterMap (fun task => if task.1 = k then some task.2 else none) = []) := by
  induction tasks with
  | nil => exact ⟨fun v hv => absurd hv List.not_mem_nil, fun _ => List.filterMap_nil⟩
  | cons task tasks ih =>
      obtain ⟨k', v'⟩ := task
      obtain ⟨hk', hrest⟩ := List.nodup_cons.mp hnodup
      obtain ⟨ihone, ihnone⟩ := ih hrest
      by_cases hkey : k' = k
      · subst hkey
        have hnone : ∀ v, (k', v) ∉ tasks := fun v hv => hk' (List.mem_map.mpr ⟨(k', v), hv, rfl⟩)
        refine ⟨fun v hv => ?_, fun h => absurd List.mem_cons_self (h v')⟩
        rcases List.mem_cons.mp hv with heq | hv
        · simp [ihnone hnone, (Prod.mk.inj heq).2]
        · exact absurd hv (hnone v)
      · have hcons : ∀ v, (k, v) ∈ (k', v') :: tasks ↔ (k, v) ∈ tasks := by
          intro v
          simp [Ne.symm hkey]
        simp only [hcons, List.filterMap_cons, if_neg hkey]
        exact ⟨ihone, ihnone⟩

theorem executed_cons (k : κ) (l : Act κ ν × List (κ × ν)) (ls : List (Act κ ν × List (κ × ν))) :
    executed k (l :: ls) = executed k [l] ++ executed k ls := by
  simp [executed]

/-- An act that spares a timer executes it only as a tick, when one tick is left. -/
theorem Step.spared {m m' : Timers κ ν} {l : Act κ ν × List (κ × ν)} (h : Step m l m') {k : κ} (hk : l.1.Spares k) :
    (m' k = m k ∧ executed k [l] = [] ∧ ∀ ls, ticks (l :: ls) = ticks ls) ∨
      (m' k = elapse m k ∧ (∀ ls, ticks (l :: ls) = ticks ls + 1) ∧
        (∀ v, m k = some ⟨v, some 1⟩ → executed k [l] = [v]) ∧
        ((∀ v, m k ≠ some ⟨v, some 1⟩) → executed k [l] = [])) := by
  cases h with
  | @tick tasks hnodup hmem =>
      obtain ⟨hone, hnone⟩ := filterMap_key k hnodup
      refine .inr ⟨rfl, fun ls => rfl, fun v hv => ?_, fun hv => ?_⟩
      · simpa [executed] using hone v ((hmem k v).mpr hv)
      · simpa [executed] using hnone fun v hmem' => hv v ((hmem k v).mp hmem')
  | @arm k' t => exact .inl ⟨Function.update_of_ne (Ne.symm hk) _ _, rfl, fun ls => rfl⟩
  | @disarm k' => exact .inl ⟨Function.update_of_ne (Ne.symm hk) _ _, rfl, fun ls => rfl⟩
  | @call k' t ht =>
      have hne : k' ≠ k := hk
      exact .inl ⟨rfl, by simp [executed, hne], fun ls => rfl⟩
  | strand _ _ => exact absurd hk id
  | idle => exact .inl ⟨rfl, rfl, fun ls => rfl⟩

/-- A key without a timer that counts is not executed as long as nobody touches it. -/
theorem silent {m m' : Timers κ ν} {ls : List (Act κ ν × List (κ × ν))} (hrun : Run Step m ls m') {k : κ}
    (hspares : ∀ l ∈ ls, l.1.Spares k) (hk : ∀ t, m k = some t → t.left = none) :
    m' k = m k ∧ executed k ls = [] := by
  induction ls generalizing m with
  | nil => exact ⟨Run.nil_inv hrun ▸ rfl, rfl⟩
  | cons l ls ih =>
      obtain ⟨u, hstep, hrest⟩ := Run.head hrun
      have hstays : u k = m k ∧ executed k [l] = [] := by
        rcases hstep.spared (hspares l List.mem_cons_self) with ⟨hu, hex, -⟩ | ⟨hu, -, -, hnot⟩
        · exact ⟨hu, hex⟩
        · refine ⟨hu.trans (elapse_uncounted hk), hnot fun v hv => ?_⟩
          exact Option.some_ne_none 1 (hk _ hv)
      obtain ⟨hend, hex⟩ := ih hrest (fun l' hl' => hspares l' (List.mem_cons_of_mem l hl')) (hstays.1 ▸ hk)
      exact ⟨hend.trans hstays.1, by rw [executed_cons, hstays.2, hex, List.nil_append]⟩

/-- **A timer that nobody touches** counts down over any run, and executes its value once, at its last tick. -/
theorem fires_once {m m' : Timers κ ν} {ls : List (Act κ ν × List (κ × ν))} (hrun : Run Step m ls m') {k : κ}
    (hspares : ∀ l ∈ ls, l.1.Spares k) {v : ν} {d : Nat} (hk : m k = some ⟨v, some (d + 1)⟩) :
    (ticks ls ≤ d → m' k = some ⟨v, some (d + 1 - ticks ls)⟩ ∧ executed k ls = []) ∧
      (d < ticks ls → m' k = none ∧ executed k ls = [v]) := by
  induction ls generalizing m d with
  | nil =>
      obtain rfl := Run.nil_inv hrun
      exact ⟨fun _ => ⟨hk, rfl⟩, fun h => absurd h (Nat.not_lt_zero d)⟩
  | cons l ls ih =>
      obtain ⟨u, hstep, hrest⟩ := Run.head hrun
      have hsp := fun l' hl' => hspares l' (List.mem_cons_of_mem l hl')
      rw [executed_cons]
      rcases hstep.spared (hspares l List.mem_cons_self) with ⟨hu, hex, hticks⟩ | ⟨hu, hticks, hone, hnot⟩
      · rw [hticks, hex, List.nil_append]
        exact ih hrest hsp (hu.trans hk)
      · rw [hticks]
        cases d with
        | zero =>
            -- the last tick: from here on there is no timer of this key
            have hgone : u k = none := by rw [hu, elapse, hk]; rfl
            obtain ⟨hend, hex⟩ := silent hrest hsp fun t ht => absurd (hgone.symm.trans ht) (Option.some_ne_none t).symm
            refine ⟨fun h => absurd h (Nat.not_succ_le_zero _), fun _ => ⟨hend.trans hgone, ?_⟩⟩
            rw [hone v hk, hex, List.append_nil]
        | succ d =>
            have hnext : u k = some ⟨v, some (d + 1)⟩ := by rw [hu, elapse, hk]; rfl
            have hquiet : executed k [l] = [] := hnot fun w hw => by
              rw [hk] at hw
              injection hw with hw
              injection hw with _ hleft
              injection hleft with hleft
              omega
            obtain ⟨hbefore, hafter⟩ := ih hrest hsp hnext
            rw [hquiet, List.nil_append]
            refine ⟨fun h => ?_, fun h => hafter (by omega)⟩
            obtain ⟨hend, hex⟩ := hbefore (by omega)
            exact ⟨by rw [hend]; congr 3; omega, hex⟩

end Countdown
end Lib
end ServiceKit
