import ServiceKit.Watermill.Correctness.Init
import ServiceKit.Watermill.Correctness.Registry

/-!
# `Correctness.Subscribe` — what `Subscribe` leaves behind

For each Channel with its maps made, over every history of calls and deliveries and whatever the external
calls returned: the registry holds the handlers whose `Subscribe` returned nil, one dispatch loop runs per
topic that has any, and a `Subscribe` that fails changes neither, so that the next one can succeed.
-/

namespace ServiceKit
namespace Watermill

open Lib
open Mysqlchannel (Conv plainConv)

variable {B S H E X L : Type}

/-- What holds of a Channel `g` after the steps `ls`; `label` reads a step. -/
structure RegistryExact (Step : Channel B S H E X → L → Channel B S H E X → Prop)
    (label : L → Act H × Option (GoErr E)) (ls : List L) (g : Channel B S H E X) : Prop where
  handlers : ∃ m, g.handlers = some m ∧ ∀ topic, m.get topic = handlersOf (accepted (ls.map label)) topic
  loops : ∀ topic, g.dispatchLoops topic
    = if handlersOf (accepted (ls.map label)) topic = none then 0 else 1
  failed : ∀ l g', Step g l g' → (label l).2 ≠ none → g'.handlers = g.handlers ∧ g'.loops = g.loops
  retry : ∀ l g' topic h, Step g l g' → (label l).1 = .subscribe topic h → (label l).2 ≠ none →
    ∃ l' g'', Step g' l' g'' ∧ label l' = (.subscribe topic h, none)

/-- The registry is exact wherever steps are effects and a `Subscribe` can succeed after any step. -/
theorem registryExact_of_effect {Step : Channel B S H E X → L → Channel B S H E X → Prop}
    {label : L → Act H × Option (GoErr E)} {decode : Message → Option Message} {ls : List L}
    {g₀ g : Channel B S H E X} (hfresh : Fresh g₀) (hrun : Run (Effect decode) g₀ (ls.map label) g)
    (hstep : ∀ l g', Step g l g' → Effect decode g (label l) g')
    (hretry : ∀ l g', Step g l g' → ∀ topic h,
      ∃ l' g'', Step g' l' g'' ∧ label l' = (.subscribe topic h, none)) :
    RegistryExact Step label ls g where
  handlers := (run_registered hfresh hrun).handlers
  loops := (run_registered hfresh hrun).loops
  failed l g' hs herr := by
    have he := hstep l g' hs
    obtain ⟨err, hsome⟩ := Option.ne_none_iff_exists'.mp herr
    -- an effect with an error is `failed` or `other`
    rw [show label l = ((label l).1, some err) from Prod.ext rfl hsome] at he
    exact effect_failed he
  retry l g' topic h hs _ _ := hretry l g' hs topic h

theorem Gochannel.newWithMap_ready : Ready HasClientMap (newWithMap : Chan H E) := ⟨⟨_, rfl⟩, _, rfl⟩

theorem Gochannel.newWithMap_fresh : Fresh (newWithMap : Chan H E) := ⟨rfl, rfl⟩

theorem Grpcchannel.allDispatch_of_fresh {g : Chan H E} (hfresh : Fresh g) : AllDispatch g := by
  intro loop hloop
  rw [hfresh.loops] at hloop
  exact absurd hloop nofun

theorem Mysqlchannel.Bare.withMap_ready {g : Chan H E} (hb : Bare g) :
    Ready HasSubscriberMap (withMap g) :=
  ⟨⟨_, hb.fresh.handlers⟩, hb.sqlDb, _, rfl⟩

theorem Mysqlchannel.Bare.withMap_fresh {g : Chan H E} (hb : Bare g) : Fresh (withMap g) :=
  ⟨hb.fresh.handlers, hb.fresh.loops⟩

/-- **The registry of each Channel is exact** after every history. -/
theorem subscribe_registry_exact {V : Type} (cv : Conv V) :
    (∀ ls (g : Gochannel.Chan H E), Run Gochannel.Step Gochannel.newWithMap ls g →
      RegistryExact Gochannel.Step Gochannel.label ls g) ∧
    (∀ cfg (g₀ : Grpcchannel.Chan H E), Grpcchannel.new cfg = .ok g₀ →
      ∀ ls g, Run Grpcchannel.Step g₀ ls g → RegistryExact Grpcchannel.Step Grpcchannel.label ls g) ∧
    (∀ conf openDB ping (g₀ : Mysqlchannel.Chan H E), Mysqlchannel.new conf openDB ping = .ok g₀ →
      ∀ ls g, Run (Mysqlchannel.Step cv) (Mysqlchannel.withMap g₀) ls g →
        RegistryExact (Mysqlchannel.Step cv) Mysqlchannel.label ls g) := by
  refine ⟨?_, ?_, ?_⟩
  · intro ls g hrun
    have hready : Ready Gochannel.HasClientMap g :=
      hrun.preserves Gochannel.newWithMap_ready (fun _ _ _ => Gochannel.step_keeps_ready)
    refine registryExact_of_effect Gochannel.newWithMap_fresh (Gochannel.run_effect hrun)
      (fun l g' hs => Gochannel.step_effect hs) ?_
    intro l g' hs topic h
    obtain ⟨g'', hsub⟩ := Gochannel.subscribe_ok (E := E) (Gochannel.step_keeps_ready hready hs) topic h
    refine ⟨(.subscribe topic h none, .ofErr none), g'', ?_, rfl⟩
    show Gochannel.step g' (.subscribe topic h none) = _
    rw [Gochannel.step, hsub]
    rfl
  · intro cfg g₀ hnew ls g hrun
    obtain ⟨hready₀, hfresh⟩ := Grpcchannel.new_spec hnew
    have hready : Ready Grpcchannel.HasServerAddress g :=
      hrun.preserves hready₀ (fun _ _ _ => Grpcchannel.step_keeps_ready)
    obtain ⟨hall, heff⟩ := Grpcchannel.run_effect (Grpcchannel.allDispatch_of_fresh hfresh) hrun
    apply registryExact_of_effect hfresh heff (fun l g' hs => Grpcchannel.step_effect hall hs)
    intro l g' hs topic h
    obtain ⟨g'', hsub⟩ := Grpcchannel.subscribe_ok (E := E) (Grpcchannel.step_keeps_ready hready hs) topic h
    refine ⟨(.subscribe topic h .ok, .ofErr none), g'', ?_, rfl⟩
    show Grpcchannel.step g' (.subscribe topic h .ok) = _
    rw [Grpcchannel.step, hsub]
    rfl
  · intro conf openDB ping g₀ hnew ls g hrun
    have hbare := Mysqlchannel.new_bare hnew
    have hready : Ready Mysqlchannel.HasSubscriberMap g :=
      hrun.preserves hbare.withMap_ready (fun _ _ _ => Mysqlchannel.step_keeps_ready)
    refine registryExact_of_effect hbare.withMap_fresh (Mysqlchannel.run_effect hrun)
      (fun l g' hs => Mysqlchannel.step_effect hs) ?_
    intro l g' hs topic h
    obtain ⟨g'', hsub⟩ := Mysqlchannel.subscribe_ok (E := E) (Mysqlchannel.step_keeps_ready hready hs) topic h
    refine ⟨(.subscribe topic h .ok, .ofErr none), g'', ?_, rfl⟩
    show Mysqlchannel.step cv g' (.subscribe topic h .ok) = _
    rw [Mysqlchannel.step, hsub]
    rfl

/-- A `Subscribe` that fails, and its retry. -/
def Gochannel.failThenRetry : List (Op Unit Unit × Ret Unit) :=
  [(.subscribe (str "aaaa") () (some ()), .ofErr (some (.external ()))),
    (.subscribe (str "aaaa") () none, .ofErr none)]

def Grpcchannel.failThenRetry : List (Op Unit Unit × Ret Unit) :=
  [(.subscribe (str "test") () ⟨none, none, some ()⟩,
      .ofErr (some (.wrapped "发送订阅请求失败: %v" (.external ())))),
    (.subscribe (str "test") () .ok, .ofErr none)]

def Mysqlchannel.failThenRetry : List (Op Unit Unit × Ret Unit) :=
  [(.subscribe (str "aaaa") () ⟨some (), none⟩, .ofErr (some (.external ()))),
    (.subscribe (str "aaaa") () .ok, .ofErr none)]

theorem Gochannel.failThenRetry_run : ∃ g, Run Step newWithMap failThenRetry g :=
  ⟨_, .cons rfl (.cons rfl .nil)⟩

theorem Grpcchannel.failThenRetry_run : ∃ g₀ g,
    new ⟨str ":31106", str "127.0.0.1:31106", str "order"⟩ = .ok g₀ ∧ Run Step g₀ failThenRetry g :=
  ⟨_, _, rfl, .cons rfl (.cons rfl .nil)⟩

theorem Mysqlchannel.failThenRetry_run : ∃ g₀ g,
    new ⟨[], str "pubsub"⟩ (fun _ => none) none = .ok g₀ ∧
      Run (Step plainConv) (withMap g₀) failThenRetry g :=
  ⟨_, _, rfl, .cons rfl (.cons rfl .nil)⟩

theorem subscribe_registry_exact_retry :
    (∃ g, RegistryExact Gochannel.Step Gochannel.label Gochannel.failThenRetry g) ∧
    (∃ g, RegistryExact Grpcchannel.Step Grpcchannel.label Grpcchannel.failThenRetry g) ∧
    (∃ g, RegistryExact (Mysqlchannel.Step plainConv) Mysqlchannel.label
      Mysqlchannel.failThenRetry g) := by
  obtain ⟨hgo, hgrpc, hmysql⟩ := subscribe_registry_exact (H := Unit) (E := Unit) plainConv
  obtain ⟨g₁, hrun₁⟩ := Gochannel.failThenRetry_run
  obtain ⟨_, g₂, hnew₂, hrun₂⟩ := Grpcchannel.failThenRetry_run
  obtain ⟨_, g₃, hnew₃, hrun₃⟩ := Mysqlchannel.failThenRetry_run
  exact ⟨⟨g₁, hgo _ _ hrun₁⟩, ⟨g₂, hgrpc _ _ hnew₂ _ _ hrun₂⟩, ⟨g₃, hmysql _ _ _ _ hnew₃ _ _ hrun₃⟩⟩

end Watermill
end ServiceKit
