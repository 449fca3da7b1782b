import ServiceKit.Mq.Rabbitmq
import ServiceKit.Rabbitmq.Consumer

/-!
# `Correctness.Settlement` — the two consumers of RabbitMQ and their deliveries

Both loops run on `Lib.Delivery`. The one of package `mq` settles whatever its handler returns; the one of
`StartConsumer` leaves a delivery unsettled when the handler fails, and with its window of one that is the
last delivery it gets.
-/

namespace ServiceKit
namespace Rabbitmq

open Lib
open Lib.Delivery (Event Label Lawful State)

variable {V H : Type}

/-- The loop of `StartConsumer` runs in the window that `Qos` granted. -/
theorem startConsumer_running {E : Type} {channel : Except E ℕ} {qos : Option E} {ch prefetch : ℕ}
    (h : RabbitClient.startConsumer channel qos = .running ch prefetch) :
    channel = .ok ch ∧ qos = none ∧ prefetch = prefetchCount := by
  cases channel with
  | error err => exact absurd h (by simp [RabbitClient.startConsumer])
  | ok ch' =>
      cases qos with
      | some err => exact absurd h (by simp [RabbitClient.startConsumer])
      | none =>
          obtain ⟨rfl, rfl⟩ := Started.running.inj h
          exact ⟨rfl, rfl, rfl⟩

/-- The loop of `StartConsumer`. -/
abbrev RabbitClient.Loop (H : Type) : State Delivery (Option H) → Label Delivery (Option H) →
    State Delivery (Option H) → Prop :=
  Delivery.Step (some prefetchCount) RabbitClient.settle

/-- The loop of `rabbitMQConsumer.Start`, which asks for no window. -/
abbrev MqLoop (V H : Type) : State (Mq.Rabbitmq.Publishing V) (Option H) →
    Label (Mq.Rabbitmq.Publishing V) (Option H) → State (Mq.Rabbitmq.Publishing V) (Option H) → Prop :=
  Delivery.Step none Mq.Rabbitmq.RabbitMQConsumer.settle

theorem length_settle (d : Delivery) (err : Option H) :
    (RabbitClient.settle d err).length = 1 ↔ err = none := by
  cases err with
  | none => simp [RabbitClient.settle]
  | some err => simp [RabbitClient.settle]

theorem length_mq_settle (d : Mq.Rabbitmq.Publishing V) (err : Option H) :
    (Mq.Rabbitmq.RabbitMQConsumer.settle d err).length = 1 := by
  cases err with
  | none => rfl
  | some err => rfl

/-- **Package `mq` is lawful in every run, `StartConsumer` exactly while every handler call succeeds.** -/
theorem consumers_lawful :
    (∀ (ready : List (Mq.Rabbitmq.Publishing V)) (ls : List (Label (Mq.Rabbitmq.Publishing V) (Option H)))
        (s : State (Mq.Rabbitmq.Publishing V) (Option H)),
        Run (MqLoop V H) (.init ready) ls s → Lawful none s) ∧
      ∀ (ready : List Delivery) (ls : List (Label Delivery (Option H))) (s : State Delivery (Option H)),
        Run (RabbitClient.Loop H) (.init ready) ls s →
        (Lawful (some prefetchCount) s ↔ ∀ tag msg err, .handled tag msg err ∈ s.log → err = none) := by
  refine ⟨?_, ?_⟩
  · intro ready ls s hrun
    apply (Delivery.lawful_iff (by simp) hrun).mpr
    intro tag msg err _
    exact length_mq_settle msg err
  · intro ready ls s hrun
    rw [Delivery.lawful_iff (by simp [prefetchCount]) hrun]
    simp only [length_settle]

/-! ## Two orders -/

def firstOrder : Delivery := ⟨str "1", str "first"⟩
def secondOrder : Delivery := ⟨str "2", str "second"⟩

/-- The first order was pushed. -/
def firstPushed : State Delivery (Option Unit) := ⟨[secondOrder], [(0, firstOrder)], [], 1, []⟩

theorem push_firstOrder :
    RabbitClient.Loop Unit (.init [firstOrder, secondOrder]) .push firstPushed := by
  refine .push rfl ?_
  intro w hw
  obtain rfl := Option.some.inj hw
  decide

/-- After a success the loop is lawful. -/
theorem consumers_lawful_orders :
    ∃ (ls : List (Label Delivery (Option Unit))) (s : State Delivery (Option Unit)),
      Run (RabbitClient.Loop Unit) (.init [firstOrder, secondOrder]) ls s ∧
      s.log = [.taken 0 firstOrder, .handled 0 firstOrder none, .settled 0 .ack] ∧
      Lawful (some prefetchCount) s := by
  have htake : RabbitClient.Loop Unit firstPushed (.take none) _ := .take none rfl
  have hrun := (Run.single push_firstOrder).snoc htake
  refine ⟨_, _, hrun, rfl, ((consumers_lawful (V := Unit) (H := Unit)).2 _ _ _ hrun).mpr ?_⟩
  intro tag msg err hmem
  have hmem' : Event.handled tag msg err ∈
      [Event.taken 0 firstOrder, .handled 0 firstOrder none, .settled 0 .ack] := hmem
  simp at hmem'
  exact hmem'.2.2

/-- After a failure the second order is never pushed, whatever else happens. -/
theorem consumer_stuck :
    ∃ (ls : List (Label Delivery (Option Unit))) (s : State Delivery (Option Unit)),
      Run (RabbitClient.Loop Unit) (.init [firstOrder, secondOrder]) ls s ∧
      ¬ Lawful (some prefetchCount) s ∧
      ∀ ls' t, Run (RabbitClient.Loop Unit) s ls' t →
        t.pushed = [] ∧ t.log = [.taken 0 firstOrder, .handled 0 firstOrder (some ())] := by
  have htake : RabbitClient.Loop Unit firstPushed (.take (some ())) _ := .take (some ()) rfl
  refine ⟨_, _, (Run.single push_firstOrder).snoc htake, ?_, ?_⟩
  · rintro ⟨hsettles, _⟩
    exact hsettles
  · intro ls' t hrun
    obtain ⟨hpushed, _, hlog⟩ := Delivery.stuck_run rfl (by decide) hrun
    exact ⟨hpushed, hlog⟩

end Rabbitmq
end ServiceKit
