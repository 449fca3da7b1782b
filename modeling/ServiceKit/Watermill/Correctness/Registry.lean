import ServiceKit.Watermill.Correctness.Effect

/-!
# `Correctness.Registry` — the registry refines the list of accepted handlers

The abstract registry is the list of `(topic, handler)` pairs accepted so far, in order. `Registered g
acc` says that a Channel realises it: the registry map holds, per topic, the accepted handlers of that
topic, and one dispatch loop runs for each topic that has any. Every effect of a step keeps the relation
(`effect_registered`), with `acc` growing exactly when a `Subscribe` returns nil.
-/

namespace ServiceKit
namespace Watermill

open Lib

variable {B S H E X : Type}

/-! ## The abstract registry -/

/-- The handlers accepted for one topic, in order; `none` before the first. -/
def handlersOf (acc : List (GoString × H)) (topic : GoString) : Option (List H) :=
  match acc.filterMap (fun p => if p.1 = topic then some p.2 else none) with
  | [] => none
  | h :: hs => some (h :: hs)

/-- What one call adds: the pair of a `Subscribe` that returned nil. -/
def accept : Act H × Option (GoErr E) → Option (GoString × H)
  | (.subscribe topic h, none) => some (topic, h)
  | _ => none

def accepted (ls : List (Act H × Option (GoErr E))) : List (GoString × H) := ls.filterMap accept

@[simp] theorem handlersOf_nil (topic : GoString) : handlersOf ([] : List (GoString × H)) topic = none := rfl

theorem handlersOf_concat_self (acc : List (GoString × H)) (topic : GoString) (h : H) :
    handlersOf (acc ++ [(topic, h)]) topic = some ((handlersOf acc topic).getD [] ++ [h]) := by
  unfold handlersOf
  rw [List.filterMap_append]
  cases acc.filterMap (fun p => if p.1 = topic then some p.2 else none) with
  | nil => simp
  | cons h' hs => simp

theorem handlersOf_concat_of_ne (acc : List (GoString × H)) {topic topic' : GoString} (h : H)
    (hne : topic' ≠ topic) : handlersOf (acc ++ [(topic, h)]) topic' = handlersOf acc topic' := by
  unfold handlersOf
  rw [List.filterMap_append]
  simp [Ne.symm hne]

/-! ## The refinement -/

/-- The loop dispatches to the registry of `topic`. -/
def Loop.dispatches (topic : GoString) (loop : Loop S H E X) : Bool :=
  loop.handler.isNone && loop.topic = topic

/-- How many dispatch loops run for `topic`. -/
def Channel.dispatchLoops (g : Channel B S H E X) (topic : GoString) : ℕ :=
  g.loops.countP (Loop.dispatches topic)

structure Registered (g : Channel B S H E X) (acc : List (GoString × H)) : Prop where
  handlers : ∃ m, g.handlers = some m ∧ ∀ topic, m.get topic = handlersOf acc topic
  loops : ∀ topic, g.dispatchLoops topic = if handlersOf acc topic = none then 0 else 1

/-- A Channel as `New` leaves it: an initialised, empty registry and no goroutine. -/
structure Fresh (g : Channel B S H E X) : Prop where
  handlers : g.handlers = some .new
  loops : g.loops = []

theorem Fresh.registered {g : Channel B S H E X} (h : Fresh g) : Registered g [] where
  handlers := ⟨.new, h.handlers, fun _ => ConcurrentMap.get_new _⟩
  loops topic := by simp [Channel.dispatchLoops, h.loops]

theorem Registered.congr {g g' : Channel B S H E X} {acc : List (GoString × H)} (h : Registered g acc)
    (hh : g'.handlers = g.handlers) (hl : ∀ topic, g'.dispatchLoops topic = g.dispatchLoops topic) :
    Registered g' acc where
  handlers := by rw [hh]; exact h.handlers
  loops topic := by rw [hl]; exact h.loops topic

theorem dispatchLoops_set {g : Channel B S H E X} {l : ℕ} {loop : Loop S H E X} {trace : Trace H E X}
    (hloop : g.loops[l]? = some loop) (topic : GoString) :
    (g.loops.set l { loop with trace := trace }).countP (Loop.dispatches topic)
      = g.dispatchLoops topic := by
  have hmap : (g.loops.set l { loop with trace := trace }).map (Loop.dispatches topic)
      = g.loops.map (Loop.dispatches topic) := map_set_trace rfl hloop
  have hcount := congrArg (List.countP id) hmap
  rwa [List.countP_map, List.countP_map] at hcount

/-- The registry after one accepted handler. -/
theorem get_set_handlersOf {m : ConcurrentMap GoString (List H)} {acc : List (GoString × H)}
    (hm : ∀ topic, m.get topic = handlersOf acc topic) {topic : GoString} {h : H} {hs : List H}
    (hhs : hs = (m.get topic).getD [] ++ [h]) (topic' : GoString) :
    (m.set topic hs).get topic' = handlersOf (acc ++ [(topic, h)]) topic' := by
  by_cases ht : topic' = topic
  · subst ht
    rw [ConcurrentMap.get_set_self, handlersOf_concat_self, hhs, hm]
  · rw [ConcurrentMap.get_set_of_ne _ _ ht, handlersOf_concat_of_ne _ _ ht, hm]

variable {decode : Message → Option Message}

/-- **Step lemma.** Every effect keeps the registry refinement. -/
theorem effect_registered {g g' : Channel B S H E X} {acc : List (GoString × H)}
    {l : Act H × Option (GoErr E)} (hr : Registered g acc) (he : Effect decode g l g') :
    Registered g' (acc ++ (accept l).toList) := by
  cases he with
  | other hh hl =>
      simpa [accept] using hr.congr hh (fun _ => by rw [Channel.dispatchLoops, hl]; rfl)
  | @failed _ a err hh hl =>
      have hnone : accept (a, some err) = none := by cases a <;> rfl
      simpa [hnone] using hr.congr hh (fun _ => by rw [Channel.dispatchLoops, hl]; rfl)
  | @append _ topic h handlers old hm hget hh hl =>
      obtain ⟨m, hm', hget'⟩ := hr.handlers
      obtain rfl := Option.some.inj (hm'.symm.trans hm)
      -- the topic had handlers, and so its loop
      have hsome : handlersOf acc topic ≠ none := by rw [← hget', hget]; nofun
      refine ⟨⟨_, hh, get_set_handlersOf hget' (by rw [hget]; rfl)⟩, ?_⟩
      intro topic'
      rw [Channel.dispatchLoops, hl, ← Channel.dispatchLoops, hr.loops]
      show _ = if handlersOf (acc ++ [(topic, h)]) topic' = none then 0 else 1
      by_cases ht : topic' = topic
      · subst ht
        rw [handlersOf_concat_self, if_neg hsome, if_neg nofun]
      · rw [handlersOf_concat_of_ne _ _ ht]
  | @start _ topic h handlers source hm hget hh hl =>
      obtain ⟨m, hm', hget'⟩ := hr.handlers
      obtain rfl := Option.some.inj (hm'.symm.trans hm)
      -- the topic had no handler, and so no loop
      have hnone : handlersOf acc topic = none := by rw [← hget', hget]
      refine ⟨⟨_, hh, get_set_handlersOf hget' (by rw [hget]; rfl)⟩, ?_⟩
      intro topic'
      rw [Channel.dispatchLoops, hl, List.countP_append, ← Channel.dispatchLoops, hr.loops]
      show _ = if handlersOf (acc ++ [(topic, h)]) topic' = none then 0 else 1
      by_cases ht : topic' = topic
      · subst ht
        rw [handlersOf_concat_self, if_pos hnone, if_neg nofun]
        simp [Loop.dispatches]
      · rw [handlersOf_concat_of_ne _ _ ht]
        simp [Loop.dispatches, Ne.symm ht]
  | @startNew _ topic h source hh hl =>
      -- its loop does not dispatch
      have hcount : ∀ t, g'.dispatchLoops t = g.dispatchLoops t := by
        intro t
        rw [Channel.dispatchLoops, hl, List.countP_append]
        simp [Channel.dispatchLoops, Loop.dispatches]
      simpa [accept] using hr.congr hh hcount
  | noLoop _ hh hl =>
      simpa [accept] using hr.congr hh (fun _ => by rw [Channel.dispatchLoops, hl]; rfl)
  | deliver hloop _ hh hl =>
      simpa [accept] using
        hr.congr hh (fun t => by rw [Channel.dispatchLoops, hl, dispatchLoops_set hloop])

/-- **Run lemma.** After every history, the registry holds exactly the accepted handlers. -/
theorem run_registered {g₀ g : Channel B S H E X} (hfresh : Fresh g₀)
    {ls : List (Act H × Option (GoErr E))} (h : Run (Effect decode) g₀ ls g) :
    Registered g (accepted ls) := by
  refine Run.invariant (fun ls g => Registered g (accepted ls)) hfresh.registered ?_ h
  intro ls g l g' _ hr he
  have hstep := effect_registered hr he
  rw [accepted, List.filterMap_append, ← accepted]
  cases hl : accept l with
  | none => simpa [hl] using hstep
  | some p => simpa [hl] using hstep

/-- A call that returns an error leaves registry and loops as they were. -/
theorem effect_failed {g g' : Channel B S H E X} {a : Act H} {err : GoErr E}
    (he : Effect decode g (a, some err) g') : g'.handlers = g.handlers ∧ g'.loops = g.loops := by
  cases he with
  | other hh hl => exact ⟨hh, hl⟩
  | failed hh hl => exact ⟨hh, hl⟩

/-- Without a loop, only a `Subscribe` or `SubscribeNew` changes registry or loops. -/
theorem effect_fresh {g g' : Channel B S H E X} {a : Act H} {err : Option (GoErr E)}
    (hloops : g.loops = []) (hsub : ∀ topic h, a ≠ .subscribe topic h)
    (hnew : ∀ topic h, a ≠ .subscribeNew topic h) (he : Effect decode g (a, err) g') :
    g'.handlers = g.handlers ∧ g'.loops = g.loops := by
  cases he with
  | other hh hl => exact ⟨hh, hl⟩
  | failed hh hl => exact ⟨hh, hl⟩
  | append _ _ _ _ => exact absurd rfl (hsub _ _)
  | start _ _ _ _ => exact absurd rfl (hsub _ _)
  | startNew _ _ => exact absurd rfl (hnew _ _)
  | noLoop _ hh hl => exact ⟨hh, hl⟩
  | deliver hloop _ _ _ =>
      rw [hloops] at hloop
      exact absurd hloop (by simp)

/-! ## Loops and handlers only grow -/

/-- The handlers of a topic only grow. -/
theorem effect_handlers_mono {g g' : Channel B S H E X} {l : Act H × Option (GoErr E)}
    (he : Effect decode g l g') {handlers : ConcurrentMap GoString (List H)} {topic : GoString}
    {hs : List H} (hm : g.handlers = some handlers) (hget : handlers.get topic = some hs) :
    ∃ handlers' hs', g'.handlers = some handlers' ∧ handlers'.get topic = some hs' ∧ hs <+: hs' := by
  have hsame : g'.handlers = g.handlers → ∃ handlers' hs', g'.handlers = some handlers' ∧
      handlers'.get topic = some hs' ∧ hs <+: hs' :=
    fun hh => ⟨handlers, hs, hh.trans hm, hget, List.prefix_refl hs⟩
  cases he with
  | other hh _ => exact hsame hh
  | failed hh _ => exact hsame hh
  | @append _ topic' h m old hm' hget' hh hl =>
      obtain rfl := Option.some.inj (hm'.symm.trans hm)
      by_cases ht : topic = topic'
      · subst ht
        obtain rfl := Option.some.inj (hget'.symm.trans hget)
        exact ⟨_, _, hh, ConcurrentMap.get_set_self _ _ _, List.prefix_append _ _⟩
      · exact ⟨_, hs, hh, by rw [ConcurrentMap.get_set_of_ne _ _ ht]; exact hget, List.prefix_refl hs⟩
  | @start _ topic' h m source hm' hget' hh hl =>
      obtain rfl := Option.some.inj (hm'.symm.trans hm)
      have ht : topic ≠ topic' := by rintro rfl; rw [hget'] at hget; exact absurd hget nofun
      exact ⟨_, hs, hh, by rw [ConcurrentMap.get_set_of_ne _ _ ht]; exact hget, List.prefix_refl hs⟩
  | startNew hh _ => exact hsame hh
  | noLoop _ hh _ => exact hsame hh
  | deliver _ _ hh _ => exact hsame hh

/-- A loop stays, with its subscription, topic and handler. -/
theorem effect_loops_mono {g g' : Channel B S H E X} {l : Act H × Option (GoErr E)}
    (he : Effect decode g l g') {i : ℕ} {loop : Loop S H E X} (hloop : g.loops[i]? = some loop) :
    ∃ trace, g'.loops[i]? = some { loop with trace := trace } := by
  have hsame : g'.loops = g.loops → ∃ trace, g'.loops[i]? = some { loop with trace := trace } :=
    fun hl => ⟨loop.trace, by rw [hl]; exact hloop⟩
  have hgrow : ∀ new, g'.loops = g.loops ++ [new] →
      ∃ trace, g'.loops[i]? = some { loop with trace := trace } := by
    intro new hl
    have hlt : i < g.loops.length := (List.getElem?_eq_some_iff.mp hloop).1
    exact ⟨loop.trace, by rw [hl, List.getElem?_append_left hlt]; exact hloop⟩
  cases he with
  | other _ hl => exact hsame hl
  | failed _ hl => exact hsame hl
  | append _ _ _ hl => exact hsame hl
  | start _ _ _ hl => exact hgrow _ hl
  | startNew _ hl => exact hgrow _ hl
  | noLoop _ _ hl => exact hsame hl
  | @deliver _ j msg loop' seg hloop' _ _ hl =>
      by_cases hij : j = i
      · subst hij
        obtain rfl := Option.some.inj (hloop'.symm.trans hloop)
        have hlt : j < g.loops.length := (List.getElem?_eq_some_iff.mp hloop).1
        exact ⟨_, by rw [hl, List.getElem?_set_self hlt]⟩
      · exact ⟨loop.trace, by rw [hl, List.getElem?_set_ne hij]; exact hloop⟩

theorem run_loops_mono {g g' : Channel B S H E X} {ls : List (Act H × Option (GoErr E))}
    (h : Run (Effect decode) g ls g') {i : ℕ} {loop : Loop S H E X} (hloop : g.loops[i]? = some loop) :
    ∃ trace, g'.loops[i]? = some { loop with trace := trace } := by
  refine Run.preserves
    (P := fun (g : Channel B S H E X) => ∃ trace, g.loops[i]? = some { loop with trace := trace })
    ⟨loop.trace, hloop⟩ ?_ h
  rintro g l g' ⟨trace, htrace⟩ he
  obtain ⟨trace', htrace'⟩ := effect_loops_mono he htrace
  exact ⟨trace', htrace'⟩

/-- A loop that has handlers to serve keeps them. -/
theorem effect_served_mono {g g' : Channel B S H E X} {l : Act H × Option (GoErr E)}
    (he : Effect decode g l g') {loop : Loop S H E X} {hs : List H} (hserved : g.served loop = some hs)
    (trace : Trace H E X) :
    ∃ hs', g'.served { loop with trace := trace } = some hs' ∧ hs <+: hs' := by
  unfold Channel.served at hserved ⊢
  cases hh : loop.handler with
  | some h =>
      rw [hh] at hserved
      exact ⟨hs, hserved, List.prefix_refl hs⟩
  | none =>
      rw [hh] at hserved
      obtain ⟨handlers, hm, hget⟩ := Option.bind_eq_some_iff.mp hserved
      obtain ⟨handlers', hs', hm', hget', hpre⟩ := effect_handlers_mono he hm hget
      exact ⟨hs', Option.bind_eq_some_iff.mpr ⟨handlers', hm', hget'⟩, hpre⟩

/-- Every loop of a Channel that started fresh has handlers to serve. -/
theorem effect_served {g g' : Channel B S H E X} {l : Act H × Option (GoErr E)}
    (hs : ∀ loop ∈ g.loops, ∃ hs, g.served loop = some hs) (he : Effect decode g l g') :
    ∀ loop ∈ g'.loops, ∃ hs, g'.served loop = some hs := by
  have hkeep : ∀ loop ∈ g.loops, ∀ trace, ∃ hs, g'.served { loop with trace := trace } = some hs := by
    intro loop hloop trace
    obtain ⟨hs, hserved⟩ := hs loop hloop
    obtain ⟨hs', hserved', _⟩ := effect_served_mono he hserved trace
    exact ⟨hs', hserved'⟩
  have hold : ∀ loop ∈ g.loops, ∃ hs, g'.served loop = some hs :=
    fun loop hloop => hkeep loop hloop loop.trace
  intro loop hloop
  cases he with
  | other _ hl => exact hold loop (hl ▸ hloop)
  | failed _ hl => exact hold loop (hl ▸ hloop)
  | append _ _ _ hl => exact hold loop (hl ▸ hloop)
  | @start _ topic h m source hm hget hh hl =>
      rw [hl] at hloop
      rcases List.mem_append.mp hloop with hloop | hloop
      · exact hold loop hloop
      · obtain rfl := List.mem_singleton.mp hloop
        exact ⟨[h], by simp [Channel.served, hh]⟩
  | @startNew _ topic h source hh hl =>
      rw [hl] at hloop
      rcases List.mem_append.mp hloop with hloop | hloop
      · exact hold loop hloop
      · obtain rfl := List.mem_singleton.mp hloop
        exact ⟨[h], rfl⟩
  | noLoop _ _ hl => exact hold loop (hl ▸ hloop)
  | @deliver _ j msg loop' seg hloop' _ _ hl =>
      rw [hl] at hloop
      rcases List.mem_or_eq_of_mem_set hloop with hloop | rfl
      · exact hold loop hloop
      · exact hkeep loop' (List.mem_of_getElem? hloop') _

theorem run_served {g₀ g : Channel B S H E X} (hfresh : Fresh g₀)
    {ls : List (Act H × Option (GoErr E))} (h : Run (Effect decode) g₀ ls g) :
    ∀ loop ∈ g.loops, ∃ hs, g.served loop = some hs := by
  refine Run.preserves (P := fun g => ∀ loop ∈ g.loops, ∃ hs, g.served loop = some hs) ?_ ?_ h
  · rw [hfresh.loops]; simp
  · intro g l g' hs he; exact effect_served hs he

end Watermill
end ServiceKit
