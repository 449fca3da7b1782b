import ServiceKit.Mq.Correctness.GetChannel
import ServiceKit.Mq.Recovery

/-!
# `Correctness.Recovery` — the goroutines of a consumer when its channel is closed

While no channel is closed, the consumer stays on the channel of `Start` (`Goroutines.Settled`). The first
closure ends that whatever `getChannel` answers: a new channel is never watched, and without one `Consume`
is called on nil.
-/

namespace ServiceKit
namespace Mq
namespace Rabbitmq

open Lib

variable {V O E : Type}

/-- A channel from `Start` is open, and the last one on the broker. -/
theorem start_ok {c : RabbitMQConsumer O} {faults : ChannelFaults E} {b b' : Broker O V} {channel : Option ℕ}
    (hstart : c.start faults b = (.ok channel, b')) :
    channel = some b.channels.length ∧
      ∃ b₁ : Broker O V, b₁.channels = b.channels ∧ b' = b₁.opened c.client.owner true := by
  have hgot := getChannel_consumerGot c faults b
  unfold RabbitMQConsumer.start at hstart
  generalize c.getChannel faults b = res at hgot hstart
  obtain ⟨⟨channel', err⟩, b''⟩ := res
  cases hgot with
  | noChannel _ => exact absurd (Prod.mk.inj hstart).1 nofun
  | exchange hgot =>
      obtain ⟨hch, rfl⟩ := Prod.mk.inj hstart
      exact ⟨(Except.ok.inj hch).symm, hgot.ok_inv.2⟩
  | bound _ _ _ _ _ =>
      obtain ⟨hch, rfl⟩ := Prod.mk.inj hstart
      refine ⟨(Except.ok.inj hch).symm, _, ?_, rfl⟩
      rw [Amqp.Broker.addBinding_channels, Amqp.Broker.addQueue_channels]
  | unbound _ _ _ _ => exact absurd (Prod.mk.inj hstart).1 nofun

/-- If the consumer's `getChannel` returns a channel, it is a new one. -/
theorem getChannel_new (c : RabbitMQConsumer O) (faults : ChannelFaults E) (b : Broker O V) :
    (c.getChannel faults b).1.1 = none ∨ (c.getChannel faults b).1.1 = some b.channels.length := by
  have hgot := getChannel_consumerGot c faults b
  generalize c.getChannel faults b = res at hgot ⊢
  obtain ⟨⟨channel, err⟩, b'⟩ := res
  cases hgot with
  | noChannel _ => exact Or.inl rfl
  | exchange _ => exact Or.inr rfl
  | bound _ _ _ _ _ => exact Or.inr rfl
  | unbound _ _ _ _ => exact Or.inr rfl

namespace Goroutines

/-- A step in which `getChannel` meets one of the outcomes in `F`. -/
def StepIn (F : Set (ChannelFaults E)) (s : Goroutines O V) (e : Event E) (t : Goroutines O V) : Prop :=
  Step s e t ∧ ∀ faults, (e = .watch faults ∨ ∃ refused, e = .consume refused faults) → faults ∈ F

/-- What the goroutines should keep, when `Start` was called on broker `b`: `Consume` was not called on a
    nil channel, at most one channel more was opened than closed, and the channel in use is watched. -/
structure Sound [DecidableEq O] (b : Broker O V) (s : Goroutines O V) : Prop where
  alive : s.loop ≠ .panicked
  bounded : s.broker.openOf s.consumer.client.owner ≤ b.openOf s.consumer.client.owner + 1
  watched : ∀ channel, s.channel = some channel → channel = s.watched

/-- The consumer is on its first channel, which is open. -/
structure Settled [DecidableEq O] (b : Broker O V) (s : Goroutines O V) : Prop where
  channel : s.channel = some s.watched
  isOpen : s.broker.isOpen s.watched = true
  quiet : s.closeChan = .quiet
  loop : s.loop = .top ∨ s.loop = .ranging s.watched
  openOf : s.broker.openOf s.consumer.client.owner = b.openOf s.consumer.client.owner + 1

theorem Settled.eq_watched [DecidableEq O] {b : Broker O V} {s : Goroutines O V} (h : s.Settled b)
    {channel : ℕ} (hch : s.channel = some channel) : channel = s.watched := by
  rw [h.channel] at hch
  exact (Option.some.inj hch).symm

theorem Settled.sound [DecidableEq O] {b : Broker O V} {s : Goroutines O V} (h : s.Settled b) :
    s.Sound b where
  alive := by
    rcases h.loop with hl | hl
    · rw [hl]; nofun
    · rw [hl]; nofun
  bounded := h.openOf.le
  watched := fun _ hch => h.eq_watched hch

/-- A step never lowers the number of closures. -/
theorem Step.closures_le {s t : Goroutines O V} {e : Event E} (hstep : Step s e t) :
    s.closures ≤ t.closures := by
  cases hstep with
  | close _ _ => exact Nat.le_succ _
  | watch _ _ => exact le_rfl
  | consumeNil _ _ _ _ => exact le_rfl
  | consume _ _ _ _ _ => exact le_rfl
  | consumeRefused _ _ _ _ _ _ => exact Nat.le_succ _
  | consumeClosed _ _ _ _ _ => exact le_rfl
  | drained _ _ => exact le_rfl

/-- A step without a closure keeps the consumer on its first channel. -/
theorem Settled.step [DecidableEq O] {b : Broker O V} {s t : Goroutines O V} {e : Event E}
    (h : s.Settled b) (hstep : Step s e t) (hcl : t.closures = s.closures) : t.Settled b := by
  cases hstep with
  | close _ _ => exact absurd hcl (Nat.succ_ne_self _)
  | watch _ hready => exact absurd h.quiet hready
  | consumeNil _ _ _ hnil => exact absurd (h.channel.symm.trans hnil) nofun
  | @consume channel _ _ _ hch _ =>
      obtain rfl := h.eq_watched hch
      exact ⟨h.channel, h.isOpen, h.quiet, Or.inr rfl, h.openOf⟩
  | consumeRefused _ _ _ _ _ _ => exact absurd hcl (Nat.succ_ne_self _)
  | @consumeClosed channel _ _ _ hch hclosed =>
      obtain rfl := h.eq_watched hch
      rw [h.isOpen] at hclosed
      exact absurd hclosed nofun
  | @drained channel hloop hclosed =>
      rcases h.loop with hl | hl
      · exact absurd (hl.symm.trans hloop) nofun
      · obtain rfl : s.watched = channel := by
          rw [hl] at hloop
          exact ConsumeLoop.ranging.inj hloop
        rw [h.isOpen] at hclosed
        exact absurd hclosed nofun

section Started

variable {c : RabbitMQConsumer O} {faults : ChannelFaults E} {b b' : Broker O V} {channel : ℕ}
  (hstart : c.start faults b = (.ok (some channel), b'))

include hstart

theorem settled_init [DecidableEq O] : (init c channel b').Settled b := by
  obtain ⟨hch, b₁, hlen, rfl⟩ := start_ok hstart
  obtain rfl : channel = b₁.channels.length := by
    rw [hlen]
    exact Option.some.inj hch
  refine ⟨rfl, Amqp.Broker.isOpen_opened .., rfl, Or.inl rfl, ?_⟩
  show (b₁.opened _ true).openOf _ = _
  rw [Amqp.Broker.openOf_opened, if_pos ⟨rfl, rfl⟩, Amqp.Broker.openOf_congr hlen]

/-- As long as no channel is closed, the consumer is on its first channel. -/
theorem settled_run [DecidableEq O] {F : Set (ChannelFaults E)} {es : List (Event E)} {s : Goroutines O V}
    (hrun : Run (StepIn F) (init c channel b') es s) (hcl : s.closures = 0) : s.Settled b := by
  induction hrun with
  | nil => exact settled_init hstart
  | @snoc es s e t hrun hstep ih =>
      have hle := hstep.1.closures_le
      have hs : s.closures = 0 := by omega
      exact (ih hs).step hstep.1 (by omega)

/-- After one closure, an iteration of each loop breaks what the goroutines should keep. -/
theorem closure_breaks [DecidableEq O] {F : Set (ChannelFaults E)} (f : ChannelFaults E) (hf : f ∈ F) :
    ∃ es s, Run (StepIn F) (init c channel b') es s ∧ s.closures = 1 ∧ ¬ s.Sound b := by
  have hsettled := settled_init hstart
  have hnew : channel < b'.channels.length := by
    obtain ⟨hch, b₁, hlen, rfl⟩ := start_ok hstart
    have hch' : channel = b.channels.length := Option.some.inj hch
    show channel < (b₁.channels ++ _).length
    rw [List.length_append, hlen, hch']
    exact Nat.lt_succ_self _
  let s₁ := (init c channel b').lose channel true
  have hclose : StepIn F (init c channel b') (.close channel true) s₁ :=
    ⟨.close true hsettled.isOpen, fun _ h => by simp at h⟩
  have hready : s₁.closeChan ≠ .quiet := by
    show (if channel = channel then _ else _) ≠ _
    rw [if_pos rfl]
    nofun
  have hwatch : StepIn F s₁ (.watch f) (s₁.received f) := by
    refine ⟨.watch f hready, ?_⟩
    rintro faults (h | ⟨_, h⟩)
    · exact Event.watch.inj h ▸ hf
    · exact absurd h nofun
  have hrun := (Run.single hclose).snoc hwatch
  rcases getChannel_new c f s₁.broker with hnil | hsome
  · -- no channel: the next `Consume` is on nil
    have hconsume : StepIn F (s₁.received f) (.consume none f)
        { s₁.received f with loop := .panicked } := by
      refine ⟨.consumeNil none f rfl hnil, ?_⟩
      rintro faults (h | ⟨_, h⟩)
      · exact absurd h nofun
      · exact (Event.consume.inj h).2 ▸ hf
    exact ⟨_, _, hrun.snoc hconsume, rfl, fun h => h.alive rfl⟩
  · -- a channel, which nobody watches
    refine ⟨_, _, hrun, rfl, fun h => ?_⟩
    have heq : s₁.broker.channels.length = channel := h.watched _ hsome
    have hlen : s₁.broker.channels.length = b'.channels.length := List.length_modify ..
    omega

end Started

/-- **The goroutines keep what they should exactly as long as no channel is closed**: whatever outcomes
    `getChannel` may have, one closure is too many. -/
theorem recovery_iff [DecidableEq O] {c : RabbitMQConsumer O} {faults : ChannelFaults E} {b b' : Broker O V}
    {channel : ℕ} (hstart : c.start faults b = (.ok (some channel), b')) {F : Set (ChannelFaults E)}
    (hF : F.Nonempty) (n : ℕ) :
    (∀ es s, Run (StepIn F) (init c channel b') es s → s.closures ≤ n → s.Sound b) ↔ n = 0 := by
  constructor
  · intro hsound
    obtain ⟨f, hf⟩ := hF
    obtain ⟨es, s, hrun, hcl, hnot⟩ := closure_breaks hstart f hf
    by_contra hn
    exact hnot (hsound es s hrun (by omega))
  · rintro rfl es s hrun hcl
    exact (settled_run hstart hrun (Nat.le_zero.mp hcl)).sound

/-! ## One closure -/

/-- A consumer of the queue `orders`, which is bound to the fanout exchange `events`. -/
def ordersConsumer : RabbitMQConsumer Unit := ⟨newRabbitMQClient (), ordersConfig⟩

/-- The broker after `Start`. -/
def ordersStarted : Broker Unit GoString :=
  (ordersConsumer.start (.ok : ChannelFaults Unit) eventsBroker).2

theorem recovery_orders :
    (∀ es s, Run (StepIn (E := Unit) Set.univ) (init ordersConsumer 0 ordersStarted) es s →
        s.closures ≤ 0 → s.Sound eventsBroker) ∧
      ¬ ∀ es s, Run (StepIn (E := Unit) Set.univ) (init ordersConsumer 0 ordersStarted) es s →
        s.closures ≤ 1 → s.Sound eventsBroker := by
  have hstart : ordersConsumer.start (.ok : ChannelFaults Unit) eventsBroker
      = (.ok (some 0), ordersStarted) := rfl
  have hF : (Set.univ : Set (ChannelFaults Unit)).Nonempty := ⟨.ok, trivial⟩
  exact ⟨(recovery_iff hstart hF 0).mpr rfl, fun h => absurd ((recovery_iff hstart hF 1).mp h) (by decide)⟩

/-- After one closure: three channels were opened, or `Consume` was called on nil. -/
theorem recovery_orders_fails :
    (∃ es s, Run (Step (E := Unit)) (init ordersConsumer 0 ordersStarted) es s ∧
        s.closures = 1 ∧ s.broker.channels.length = 3 ∧ s.channel ≠ some s.watched) ∧
      ∃ es s, Run (Step (E := Unit)) (init ordersConsumer 0 ordersStarted) es s ∧
        s.closures = 1 ∧ s.loop = .panicked := by
  let s₁ := (init ordersConsumer 0 ordersStarted).lose 0 true
  have hclose : Step (E := Unit) (init ordersConsumer 0 ordersStarted) (.close 0 true) s₁ := .close true rfl
  refine ⟨?_, ?_⟩
  · let faults : ChannelFaults Unit := .ok
    have hwatch : Step s₁ (.watch faults) (s₁.received faults) := .watch faults nofun
    have hwatch' : Step (s₁.received faults) (.watch faults) ((s₁.received faults).received faults) :=
      .watch faults nofun
    exact ⟨_, _, ((Run.single hclose).snoc hwatch).snoc hwatch', rfl, rfl, by decide⟩
  · let faults : ChannelFaults Unit := { ChannelFaults.ok with connect := some () }
    have hwatch : Step s₁ (.watch faults) (s₁.received faults) := .watch faults nofun
    have hconsume : Step (s₁.received faults) (.consume none faults)
        { s₁.received faults with loop := .panicked } := .consumeNil none faults rfl rfl
    exact ⟨_, _, ((Run.single hclose).snoc hwatch).snoc hconsume, rfl, rfl⟩

end Goroutines

end Rabbitmq
end Mq
end ServiceKit
