import ServiceKit.Watermill.Correctness.Registry

/-!
# `Correctness.Serving` — from an accepted handler to the calls it gets

`Serving g topic h i`: loop `i` of `g` reads `topic` and hands what it takes to `h`. A `Subscribe` or
`SubscribeNew` that returns nil leaves such a loop, no later step takes it away, and when the loop takes a
message that decodes, `h` is called with it.
-/

namespace ServiceKit
namespace Watermill

open Lib

variable {B S H E X : Type} {decode : Message → Option Message}

/-- Loop `i` takes messages of `topic` and calls `h`. -/
def Serving (g : Channel B S H E X) (topic : GoString) (h : H) (i : ℕ) : Prop :=
  ∃ loop hs, g.loops[i]? = some loop ∧ loop.topic = topic ∧ g.served loop = some hs ∧ h ∈ hs

theorem effect_serving_mono {g g' : Channel B S H E X} {l : Act H × Option (GoErr E)}
    (he : Effect decode g l g') {topic : GoString} {h : H} {i : ℕ} (hserv : Serving g topic h i) :
    Serving g' topic h i := by
  obtain ⟨loop, hs, hloop, htopic, hserved, hmem⟩ := hserv
  obtain ⟨trace, hloop'⟩ := effect_loops_mono he hloop
  obtain ⟨hs', hserved', hpre⟩ := effect_served_mono he hserved trace
  exact ⟨_, hs', hloop', htopic, hserved', hpre.subset hmem⟩

theorem run_serving_mono {g g' : Channel B S H E X} {ls : List (Act H × Option (GoErr E))}
    (h : Run (Effect decode) g ls g') {topic : GoString} {hd : H} {i : ℕ}
    (hserv : Serving g topic hd i) : Serving g' topic hd i :=
  Run.preserves (P := fun g => Serving g topic hd i) hserv
    (fun _ _ _ hserv he => effect_serving_mono he hserv) h

/-- A `Subscribe` that returns nil leaves a loop that serves its handler. -/
theorem effect_subscribe_serving {g g' : Channel B S H E X} {acc : List (GoString × H)}
    (hr : Registered g acc) {topic : GoString} {h : H}
    (he : Effect decode g (.subscribe topic h, none) g') : ∃ i, Serving g' topic h i := by
  cases he with
  | @append _ _ _ handlers old hm hget hh hl =>
      -- the topic has handlers, so its dispatch loop runs
      obtain ⟨m, hm', hget'⟩ := hr.handlers
      obtain rfl := Option.some.inj (hm'.symm.trans hm)
      have hcount : 0 < g.dispatchLoops topic := by
        rw [hr.loops, ← hget', hget, if_neg nofun]
        exact Nat.one_pos
      obtain ⟨loop, hloop, hdisp⟩ := List.countP_pos_iff.mp hcount
      rw [Loop.dispatches, Bool.and_eq_true, Option.isNone_iff_eq_none, decide_eq_true_eq] at hdisp
      obtain ⟨i, hi⟩ := List.mem_iff_getElem?.mp hloop
      refine ⟨i, loop, old ++ [h], by rw [hl]; exact hi, hdisp.2, ?_, by simp⟩
      unfold Channel.served
      rw [hdisp.1, hh, hdisp.2]
      exact ConcurrentMap.get_set_self _ _ _
  | @start _ _ _ handlers source hm hget hh hl =>
      refine ⟨g.loops.length, ⟨source, topic, none, []⟩, [h], by rw [hl]; simp, rfl, ?_, by simp⟩
      unfold Channel.served
      rw [hh]
      exact ConcurrentMap.get_set_self _ _ _

/-- So does a `SubscribeNew`. -/
theorem effect_subscribeNew_serving {g g' : Channel B S H E X} {topic : GoString} {h : H}
    (he : Effect decode g (.subscribeNew topic h, none) g') : ∃ i, Serving g' topic h i := by
  cases he with
  | @startNew _ _ _ source hh hl =>
      exact ⟨g.loops.length, ⟨source, topic, some h, []⟩, [h], by rw [hl]; simp, rfl, rfl, by simp⟩

/-- `h` was accepted for `topic` in the calls `ls`. -/
def AcceptedIn (ls : List (Act H × Option (GoErr E))) (topic : GoString) (h : H) : Prop :=
  (.subscribe topic h, none) ∈ ls ∨ (.subscribeNew topic h, none) ∈ ls

/-- **Run lemma.** Every handler accepted so far has a loop that serves it. -/
theorem run_serving {g₀ g : Channel B S H E X} (hfresh : Fresh g₀)
    {ls : List (Act H × Option (GoErr E))} (h : Run (Effect decode) g₀ ls g) {topic : GoString} {hd : H}
    (hacc : AcceptedIn ls topic hd) : ∃ i, Serving g topic hd i := by
  revert hacc
  -- the last call accepted the handler, or an earlier one did and its loop is still there
  refine Run.invariant (fun ls g => AcceptedIn ls topic hd → ∃ i, Serving g topic hd i) ?_ ?_ h
  · rintro (hnil | hnil)
    · exact absurd hnil nofun
    · exact absurd hnil nofun
  · intro ls g l g' hrun ih he hacc
    have hlast : AcceptedIn ls topic hd ∨ l = (.subscribe topic hd, none) ∨
        l = (.subscribeNew topic hd, none) := by
      rcases hacc with hacc | hacc
      · rcases List.mem_append.mp hacc with hold | hnew
        · exact Or.inl (Or.inl hold)
        · exact Or.inr (Or.inl (List.mem_singleton.mp hnew).symm)
      · rcases List.mem_append.mp hacc with hold | hnew
        · exact Or.inl (Or.inr hold)
        · exact Or.inr (Or.inr (List.mem_singleton.mp hnew).symm)
    rcases hlast with hold | rfl | rfl
    · obtain ⟨i, hserv⟩ := ih hold
      exact ⟨i, effect_serving_mono he hserv⟩
    · exact effect_subscribe_serving (run_registered hfresh hrun) he
    · exact effect_subscribeNew_serving he

/-- From `g` to `g'`, loop `i` took `msg` and called `h` with `messageId` and `messageData`. -/
def HandedTo (g g' : Channel B S H E X) (i : ℕ) (msg : Message) (h : H)
    (messageId messageData : GoString) : Prop :=
  ∃ loop loop' seg err, g.loops[i]? = some loop ∧ g'.loops[i]? = some loop' ∧
    loop'.trace = loop.trace ++ .take msg :: seg ∧ .handle h messageId messageData err ∈ seg

/-- When a loop takes a message that decodes, every handler it serves is called. -/
theorem effect_handed {g g' : Channel B S H E X} {topic : GoString} {h : H} {i : ℕ} {msg msg' : Message}
    (hserv : Serving g topic h i) (hdec : decode msg = some msg')
    (he : Effect decode g (.deliver i msg, none) g') :
    HandedTo g g' i msg h msg'.uuid msg'.payload := by
  obtain ⟨loop, hs, hloop, _, hserved, hmem⟩ := hserv
  cases he with
  | noLoop hnone _ _ =>
      rw [hloop] at hnone
      exact absurd hnone nofun
  | @deliver _ _ _ loop' seg hloop' hseg hh hl =>
      obtain rfl := Option.some.inj (hloop'.symm.trans hloop)
      unfold Appends at hseg
      rw [hserved, hdec] at hseg
      obtain ⟨es, rfl, _, hcall⟩ := hseg
      obtain ⟨err, hhandle⟩ := hcall h hmem
      have hlt : i < g.loops.length := (List.getElem?_eq_some_iff.mp hloop).1
      exact ⟨loop', _, _, err, hloop, by rw [hl, List.getElem?_set_self hlt], rfl,
        List.mem_append_left _ hhandle⟩

end Watermill
end ServiceKit
