import Mathlib.Logic.Function.Basic
import ServiceKit.Lib.Run
import ServiceKit.Mq.Rabbitmq

/-!
# `Mq.System` — publishers and consumers on one broker

Any number of publishers and consumers, each under its own name, and the broker they all use. A step is
one call of `Publish`, `Start` or `Close`, with the outcomes of the broker calls in it; its label has the
error that the call returned.
-/

namespace ServiceKit
namespace Mq
namespace Rabbitmq

open Lib

variable {O V E : Type}

inductive Party (O : Type) where
  | publisher (p : RabbitMQPublisher O)
  | consumer (c : RabbitMQConsumer O)

def Party.client : Party O → RabbitMQClient O
  | .publisher p => p.client
  | .consumer c => c.client

def Party.cfg : Party O → RabbitMQConfig
  | .publisher p => p.cfg
  | .consumer c => c.cfg

/-- The party is one that `NewRabbitMQPublisher` or `NewRabbitMQConsumer` makes with `cfg`. -/
def Party.MadeWith (E : Type) (owner : O) (cfg : RabbitMQConfig) : Party O → Prop
  | .publisher p => newRabbitMQPublisher (E := E) owner cfg = .ok p
  | .consumer c => newRabbitMQConsumer (E := E) owner cfg = .ok c

structure System (O V : Type) where
  party : O → Option (Party O)
  broker : Broker O V

/-- The calls on the party `o`. -/
inductive Call (O E : Type) where
  | publish (o : O) (now : ℤ) (newUUID : GoString) (event : Option Event) (faults : PublishFaults E)
  | start (o : O) (faults : ChannelFaults E)
  | close (o : O)

/-- The error of a result. -/
def errorOf {α ε : Type} : Except ε α → Option ε
  | .ok _ => none
  | .error err => some err

/-- One call, and the error that it returned. -/
inductive Step [DecidableEq O] (cd : Codec V) :
    System O V → Call O E × Option (Err E) → System O V → Prop where
  | publish {s o p} (now : ℤ) (newUUID : GoString) (event : Option Event) (faults : PublishFaults E)
      (hp : s.party o = some (.publisher p)) :
      Step cd s (.publish o now newUUID event faults, (p.publish cd now newUUID event faults s.broker).1.err)
        ⟨Function.update s.party o
            (some (.publisher (p.publish cd now newUUID event faults s.broker).2.1)),
          (p.publish cd now newUUID event faults s.broker).2.2⟩
  | start {s o c} (faults : ChannelFaults E) (hc : s.party o = some (.consumer c)) :
      Step cd s (.start o faults, errorOf (c.start faults s.broker).1)
        ⟨s.party, (c.start faults s.broker).2⟩
  | closePublisher {s o p} (hp : s.party o = some (.publisher p)) :
      Step cd s (.close o, none)
        ⟨Function.update s.party o (some (.publisher (p.close s.broker).1)), (p.close s.broker).2⟩
  | closeConsumer {s o c} (hc : s.party o = some (.consumer c)) :
      Step cd s (.close o, none)
        ⟨Function.update s.party o (some (.consumer (c.close s.broker).1)), (c.close s.broker).2⟩

theorem Party.MadeWith.inv {owner : O} {cfg : RabbitMQConfig} {party : Party O}
    (h : party.MadeWith E owner cfg) : party.client = newRabbitMQClient owner ∧ party.cfg = cfg := by
  cases party with
  | publisher p =>
      have hp : newRabbitMQPublisher (E := E) owner cfg = .ok p := h
      unfold newRabbitMQPublisher at hp
      split at hp
      · exact absurd hp nofun
      · exact (Except.ok.inj hp) ▸ ⟨rfl, rfl⟩
  | consumer c =>
      have hc : newRabbitMQConsumer (E := E) owner cfg = .ok c := h
      unfold newRabbitMQConsumer at hc
      split at hc
      · exact absurd hc nofun
      · exact (Except.ok.inj hc) ▸ ⟨rfl, rfl⟩

/-- What holds of all parties, and of the one that a call replaces. -/
theorem forall_party_update [DecidableEq O] {P : O → Party O → Prop} {parties : O → Option (Party O)}
    (h : ∀ o party, parties o = some party → P o party) {o : O} (party : Party O) (hp : P o party) :
    ∀ o' party', Function.update parties o (some party) o' = some party' → P o' party' := by
  intro o' party' hp'
  by_cases ho : o' = o
  · subst ho
    rw [Function.update_self] at hp'
    exact Option.some.inj hp' ▸ hp
  · rw [Function.update_of_ne ho] at hp'
    exact h o' party' hp'

end Rabbitmq
end Mq
end ServiceKit
