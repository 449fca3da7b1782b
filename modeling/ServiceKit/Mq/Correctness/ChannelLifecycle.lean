import ServiceKit.Mq.Correctness.GetChannel
import ServiceKit.Mq.System

/-!
# `Correctness.ChannelLifecycle` — who closes the channels

Each `Publish` and each `Start` opens a channel of its own, and `Close` closes the channel that the client
keeps, which is never set. So a channel is closed only if the broker closed it when it refused a call: the
calls that leave their channel open (`System.LeavesOpen`) are counted forever (`Step.openOf`).
-/

namespace ServiceKit
namespace Mq
namespace Rabbitmq

open Lib

variable {V O E : Type}

/-! ## Calls that leave their channel open -/

/-- `Publish` opens a channel, and no call on it is refused. -/
def RabbitMQPublisher.LeavesOpen (p : RabbitMQPublisher O) (faults : PublishFaults E) (b : Broker O V) :
    Prop :=
  faults.channel.Opens ∧
    ((p.cfg.queueName ≠ [] ∧ faults.channel.queueDeclare = none ∧ faults.attempt 0 = none ∧
        (b.kindOf p.cfg.exchange).isSome = true) ∨
      (p.cfg.queueName = [] ∧ p.cfg.kind = .unset) ∨
      (p.cfg.queueName = [] ∧ faults.attempt 0 = none ∧
        ∃ kind, DeclaresExchange p.cfg faults.channel b kind))

/-- `Start` opens a channel, and no call on it is refused. -/
def RabbitMQConsumer.LeavesOpen (c : RabbitMQConsumer O) (faults : ChannelFaults E) (b : Broker O V) :
    Prop :=
  faults.Opens ∧
    ((c.cfg.queueName ≠ [] ∧ faults.queueDeclare = none ∧ faults.queueBind = none ∧
        (b.kindOf c.cfg.exchange).isSome = true) ∨
      (c.cfg.queueName = [] ∧ c.cfg.kind = .unset) ∨
      (c.cfg.queueName = [] ∧ ∃ kind, DeclaresExchange c.cfg faults b kind))

/-- The call leaves the channel that it opens open. -/
def System.LeavesOpen (s : System O V) : Call O E → Prop
  | .publish o _ _ event faults =>
      event ≠ none ∧ ∃ p, s.party o = some (.publisher p) ∧ p.LeavesOpen faults s.broker
  | .start o faults => ∃ c, s.party o = some (.consumer c) ∧ c.LeavesOpen faults s.broker
  | .close _ => False

/-- From `b` to `b'`, the owner opened at most one channel, and left it open iff `P`. -/
def OpensOne (owner : O) (P : Prop) (b b' : Broker O V) : Prop :=
  (¬ P ∧ b'.channels = b.channels) ∨
    ∃ isOpen : Bool, (isOpen = true ↔ P) ∧ b'.channels = b.channels ++ [⟨owner, isOpen⟩]

theorem OpensOne.openOf_of_not [DecidableEq O] {owner : O} {P : Prop} {b b' : Broker O V}
    (h : OpensOne owner P b b') (hP : ¬ P) (o : O) : b'.openOf o = b.openOf o := by
  rcases h with ⟨_, hlen⟩ | ⟨isOpen, hiff, hlen⟩
  · exact Amqp.Broker.openOf_congr hlen o
  · rw [Amqp.Broker.openOf_congr (b := b.opened owner isOpen) hlen, Amqp.Broker.openOf_opened,
      if_neg (fun h => hP (hiff.mp h.2))]
    rfl

theorem OpensOne.openOf_of [DecidableEq O] {owner : O} {P : Prop} {b b' : Broker O V}
    (h : OpensOne owner P b b') (hP : P) : b'.openOf owner = b.openOf owner + 1 := by
  rcases h with ⟨hnot, _⟩ | ⟨isOpen, hiff, hlen⟩
  · exact absurd hP hnot
  · rw [Amqp.Broker.openOf_congr (b := b.opened owner isOpen) hlen, Amqp.Broker.openOf_opened,
      if_pos ⟨rfl, hiff.mpr hP⟩]

/-- **The channel of a `Publish`.** -/
theorem publish_opensOne (cd : Codec V) (now : ℤ) (newUUID : GoString) (event : Event)
    (faults : PublishFaults E) (p : RabbitMQPublisher O) (b : Broker O V) :
    OpensOne p.client.owner (p.LeavesOpen faults b) b
      (p.publish cd now newUUID (some event) faults b).2.2 := by
  have hsent := publish_sent cd now newUUID event faults p b
  generalize p.publish cd now newUUID (some event) faults b = res at hsent ⊢
  obtain ⟨ret, p', b'⟩ := res
  cases hsent with
  | noChannel hgot =>
      cases hgot with
      | unopened hopens => exact Or.inl ⟨fun h => hopens h.1, rfl⟩
      | queueRefused hopens hq hd =>
          refine Or.inr ⟨false, ?_, rfl⟩
          simp [RabbitMQPublisher.LeavesOpen, hq, hd]
      | unset hopens hq hk =>
          refine Or.inr ⟨true, ?_, rfl⟩
          simp [RabbitMQPublisher.LeavesOpen, hq, hk, hopens]
      | exchangeRefused hopens hq hk hd =>
          refine Or.inr ⟨false, ?_, rfl⟩
          simp [RabbitMQPublisher.LeavesOpen, hq, hk, hd]
  | @sent queue b₁ hlen hgot hr hx =>
      refine Or.inr ⟨true, iff_of_true rfl ?_, ?_⟩
      · obtain ⟨hopens, ⟨hq, hd, rfl⟩ | ⟨hq, kind, hd, _⟩⟩ := hgot.opened_inv
        · exact ⟨hopens, Or.inl ⟨hq, hd, hr, by rwa [Amqp.Broker.kindOf_addQueue] at hx⟩⟩
        · exact ⟨hopens, Or.inr (Or.inr ⟨hq, hr, kind, hd⟩)⟩
      · show (b₁.route _ _ _).channels ++ _ = _
        rw [Amqp.Broker.route_channels, hlen]
  | @refused queue err b₁ hlen hgot hr =>
      refine Or.inr ⟨false, iff_of_false Bool.false_ne_true ?_, ?_⟩
      · obtain ⟨_, ⟨hq, hd, rfl⟩ | ⟨hq, kind, hd, rfl⟩⟩ := hgot.opened_inv
        · rw [Amqp.Broker.kindOf_addQueue] at hr
          rintro ⟨_, ⟨_, _, hr', hx⟩ | ⟨hq', _⟩ | ⟨hq', _⟩⟩
          · rcases hr with hr | hr
            · exact hr hr'
            · exact absurd hx (by simp [hr])
          · exact hq hq'
          · exact hq hq'
        · -- the exchange was declared, so only the broker's own refusal is left
          rw [Amqp.Broker.kindOf_addExchange] at hr
          rintro ⟨_, ⟨hq', _⟩ | ⟨_, hk⟩ | ⟨_, hr', _⟩⟩
          · exact hq' hq
          · cases hd.known.symm.trans hk
          · rcases hr with hr | hr
            · exact hr hr'
            · cases hr
      · show b₁.channels ++ _ = _
        rw [hlen]

/-- **The channel of a `Start`.** -/
theorem start_opensOne (c : RabbitMQConsumer O) (faults : ChannelFaults E) (b : Broker O V) :
    OpensOne c.client.owner (c.LeavesOpen faults b) b (c.start faults b).2 := by
  have hgot := getChannel_consumerGot c faults b
  have hsnd : (c.start faults b).2 = (c.getChannel faults b).2 := by
    unfold RabbitMQConsumer.start
    split <;> simp [*]
  rw [hsnd]
  generalize c.getChannel faults b = res at hgot ⊢
  obtain ⟨⟨channel, err⟩, b'⟩ := res
  cases hgot with
  | noChannel hgot =>
      cases hgot with
      | unopened hopens => exact Or.inl ⟨fun h => hopens h.1, rfl⟩
      | queueRefused hopens hq hd =>
          refine Or.inr ⟨false, ?_, rfl⟩
          simp [RabbitMQConsumer.LeavesOpen, hq, hd]
      | unset hopens hq hk =>
          refine Or.inr ⟨true, ?_, rfl⟩
          simp [RabbitMQConsumer.LeavesOpen, hq, hk, hopens]
      | exchangeRefused hopens hq hk hd =>
          refine Or.inr ⟨false, ?_, rfl⟩
          simp [RabbitMQConsumer.LeavesOpen, hq, hk, hd]
  | exchange hgot =>
      cases hgot with
      | @exchange kind hopens hq hd =>
          refine Or.inr ⟨true, iff_of_true rfl ⟨hopens, Or.inr (Or.inr ⟨hq, kind, hd⟩)⟩, ?_⟩
          show (b.addExchange _ _).channels ++ _ = _
          rw [Amqp.Broker.addExchange_channels]
  | bound hopens hq hd hr hx =>
      refine Or.inr ⟨true, iff_of_true rfl ⟨hopens, Or.inl ⟨hq, hd, hr, hx⟩⟩, ?_⟩
      show ((b.addQueue _).addBinding _).channels ++ _ = _
      rw [Amqp.Broker.addBinding_channels, Amqp.Broker.addQueue_channels]
  | unbound hopens hq hd hr =>
      refine Or.inr ⟨false, iff_of_false Bool.false_ne_true ?_, ?_⟩
      · rintro ⟨_, ⟨_, _, hr', hx⟩ | ⟨hq', _⟩ | ⟨hq', _⟩⟩
        · rcases hr with hr | hr
          · exact hr hr'
          · exact absurd hx (by simp [hr])
        · exact hq hq'
        · exact hq hq'
      · show (b.addQueue _).channels ++ _ = _
        rw [Amqp.Broker.addQueue_channels]

/-! ## Runs -/

def Call.owner : Call O E → O
  | .publish o _ _ _ _ => o
  | .start o _ => o
  | .close o => o

/-- The clients are as they were made, with no channel. -/
def System.Fresh (s : System O V) : Prop :=
  ∀ o party, s.party o = some party → party.client = newRabbitMQClient o

section Steps

variable [DecidableEq O] {cd : Codec V} {s t : System O V} {l : Call O E × Option (Err E)}

omit [DecidableEq O] in
theorem close_fresh {c : RabbitMQClient O} {o : O} (h : c = newRabbitMQClient o) (b : Broker O V) :
    c.close b = (c, b) := by
  rw [h]
  rfl

/-- No call gives a client its channel. -/
theorem System.Fresh.step (h : s.Fresh) (hstep : Step cd s l t) : t.Fresh := by
  cases hstep with
  | @publish o p now newUUID event faults hp =>
      apply forall_party_update h (.publisher _)
      obtain ⟨n, hn⟩ := publish_keeps cd now newUUID event faults p s.broker
      have hclient : p.client = newRabbitMQClient o := h o _ hp
      rw [hn]
      exact hclient
  | start faults hc => exact h
  | @closePublisher o p hp =>
      have hclient : p.client = newRabbitMQClient o := h o _ hp
      apply forall_party_update h (.publisher _)
      show (p.client.close s.broker).1 = _
      rw [close_fresh hclient]
      exact hclient
  | @closeConsumer o c hc =>
      have hclient : c.client = newRabbitMQClient o := h o _ hc
      apply forall_party_update h (.consumer _)
      show (c.client.close s.broker).1 = _
      rw [close_fresh hclient]
      exact hclient

/-- **What one call does to the channels**: none is closed, and one at most is opened. -/
theorem Step.opensOne (h : s.Fresh) (hstep : Step cd s l t) :
    OpensOne l.1.owner (s.LeavesOpen l.1) s.broker t.broker := by
  cases hstep with
  | @publish o p now newUUID event faults hp =>
      cases event with
      | none => exact Or.inl ⟨fun hleaves => hleaves.1 rfl, rfl⟩
      | some event =>
          have hone := publish_opensOne cd now newUUID event faults p s.broker
          have hleaves : s.LeavesOpen (.publish o now newUUID (some event) faults)
              ↔ p.LeavesOpen faults s.broker := by
            simp [System.LeavesOpen, hp]
          have howner : p.client = newRabbitMQClient o := h o _ hp
          rw [hleaves, show Call.owner _ = p.client.owner by rw [howner]; rfl]
          exact hone
  | @start o c faults hc =>
      have hone := start_opensOne c faults s.broker
      have hleaves : s.LeavesOpen (.start o faults) ↔ c.LeavesOpen faults s.broker := by
        simp [System.LeavesOpen, hc]
      have howner : c.client = newRabbitMQClient o := h o _ hc
      rw [hleaves, show Call.owner _ = c.client.owner by rw [howner]; rfl]
      exact hone
  | @closePublisher o p hp =>
      refine Or.inl ⟨id, ?_⟩
      show (p.client.close s.broker).2.channels = _
      rw [close_fresh (c := p.client) (h o _ hp)]
  | @closeConsumer o c hc =>
      refine Or.inl ⟨id, ?_⟩
      show (c.client.close s.broker).2.channels = _
      rw [close_fresh (c := c.client) (h o _ hc)]

/-- A call that leaves a channel open can be made, and then its owner can call `Close`. -/
theorem System.LeavesOpen.step {call : Call O E} (h : s.LeavesOpen call) (cd : Codec V) :
    ∃ err t u, Step cd s (call, err) t ∧ Step (E := E) cd t (.close call.owner, none) u := by
  cases call with
  | publish o now newUUID event faults =>
      obtain ⟨_, p, hp, _⟩ := h
      exact ⟨_, _, _, .publish now newUUID event faults hp, .closePublisher (Function.update_self ..)⟩
  | start o faults =>
      obtain ⟨c, hc, _⟩ := h
      exact ⟨_, _, _, .start faults hc, .closeConsumer hc⟩
  | close o => exact absurd h id

/-- A step of a history in which `A` says which calls are made, and when. -/
def StepIn (cd : Codec V) (A : System O V → Call O E → Prop) (s : System O V)
    (l : Call O E × Option (Err E)) (t : System O V) : Prop :=
  A s l.1 ∧ Step cd s l t

/-- The law of the channels: a bound on what an owner has open, and nothing open after `Close`. -/
structure ChannelLaw (cd : Codec V) (A : System O V → Call O E → Prop) (s₀ : System O V) : Prop where
  bounded : ∃ B, ∀ ls s, Run (StepIn cd A) s₀ ls s → ∀ o, s.broker.openOf o ≤ B
  closed : ∀ ls s, Run (StepIn cd A) s₀ ls s → ∀ o t, Step (E := E) cd s (.close o, none) t →
    t.broker.openOf o = 0

variable {A : System O V → Call O E → Prop} {s₀ : System O V}

theorem System.Fresh.run (h : s₀.Fresh) {ls : List (Call O E × Option (Err E))}
    (hrun : Run (StepIn cd A) s₀ ls s) : s.Fresh :=
  hrun.preserves h (fun _ _ _ hs hstep => hs.step hstep.2)

/-- As long as no call leaves its channel open, no channel is open. -/
theorem openOf_run (h : s₀.Fresh) (hzero : ∀ o, s₀.broker.openOf o = 0)
    (hA : ∀ ls s, Run (StepIn cd A) s₀ ls s → ∀ call, A s call → ¬ s.LeavesOpen call)
    {ls : List (Call O E × Option (Err E))} (hrun : Run (StepIn cd A) s₀ ls s) (o : O) :
    s.broker.openOf o = 0 := by
  induction hrun with
  | nil => exact hzero o
  | @snoc ls s l t hrun hstep ih =>
      rw [(Step.opensOne (h.run hrun) hstep.2).openOf_of_not (hA ls s hrun l.1 hstep.1) o]
      exact ih

/-- **The law holds of exactly those histories in which no call leaves its channel open.** -/
theorem channelLaw_iff (hmade : ∀ o party, s₀.party o = some party → ∃ cfg, party.MadeWith E o cfg)
    (hnone : s₀.broker.channels = []) :
    ChannelLaw cd A s₀ ↔
      ∀ ls s, Run (StepIn cd A) s₀ ls s → ∀ call, A s call → ¬ s.LeavesOpen call := by
  have hfresh : s₀.Fresh := by
    intro o party hp
    obtain ⟨cfg, hcfg⟩ := hmade o party hp
    exact hcfg.inv.1
  have hzero : ∀ o, s₀.broker.openOf o = 0 := by
    intro o
    unfold Amqp.Broker.openOf
    rw [hnone]
    rfl
  constructor
  · rintro ⟨_, hclosed⟩ ls s hrun call hcall hleaves
    obtain ⟨err, t, u, hstep, hclose⟩ := hleaves.step cd
    have hs : s.Fresh := hfresh.run hrun
    have hopen : t.broker.openOf call.owner = s.broker.openOf call.owner + 1 :=
      (Step.opensOne hs hstep).openOf_of hleaves
    have hafter : u.broker.openOf call.owner = t.broker.openOf call.owner :=
      (Step.opensOne (hs.step hstep) hclose).openOf_of_not id call.owner
    have hnil := hclosed (ls ++ [(call, err)]) t (hrun.snoc ⟨hcall, hstep⟩) call.owner u hclose
    omega
  · intro hA
    refine ⟨⟨0, ?_⟩, ?_⟩
    · intro ls s hrun o
      exact (openOf_run hfresh hzero hA hrun o).le
    · intro ls s hrun o t hclose
      rw [(Step.opensOne (hfresh.run hrun) hclose).openOf_of_not id o]
      exact openOf_run hfresh hzero hA hrun o

end Steps

/-! ## A publisher that publishes on and on -/

def eventsPublisher (pushRetryTimes : ℤ) : RabbitMQPublisher Unit :=
  ⟨newRabbitMQClient (), { eventsConfig with pushRetryTimes := pushRetryTimes }⟩

/-- One publisher, on a broker that has its exchange. -/
def eventsSystem : System Unit GoString :=
  { party := fun _ => some (.publisher (eventsPublisher 0))
    broker := eventsBroker }

/-- A `Publish` whose channel opens, and whose first attempt the broker refuses. -/
def RefusedFirst (_ : System Unit GoString) (call : Call Unit Unit) : Prop :=
  ∃ event attempt, call = .publish () 0 [] event ⟨.ok, attempt⟩ ∧ attempt 0 ≠ none

/-- The configuration stays, but for the number of attempts. -/
theorem eventsSystem_party {cd : Codec GoString} {ls : List (Call Unit Unit × Option (Err Unit))}
    {s : System Unit GoString} (hrun : Run (StepIn cd RefusedFirst) eventsSystem ls s) :
    ∃ n, s.party () = some (.publisher (eventsPublisher n)) := by
  refine hrun.preserves (P := fun s => ∃ n, s.party () = some (.publisher (eventsPublisher n))) ⟨0, rfl⟩ ?_
  rintro s ⟨call, err⟩ t ⟨n, hn⟩ ⟨⟨event, attempt, hcall, _⟩, hstep⟩
  obtain rfl : call = _ := hcall
  cases hstep with
  | publish _ _ _ _ hp =>
      obtain rfl := Party.publisher.inj (Option.some.inj (hn.symm.trans hp))
      obtain ⟨n', hn'⟩ := publish_keeps cd 0 [] event ⟨.ok, attempt⟩ (eventsPublisher n) s.broker
      refine ⟨n', ?_⟩
      show Function.update s.party () _ () = _
      rw [Function.update_self, hn']
      rfl

/-- The law, while the broker refuses the first attempt of every `Publish`: it closes the channel that the
    call has opened. -/
theorem channelLaw_events :
    ChannelLaw (E := Unit) (Codec.strings (fun _ => false)) RefusedFirst eventsSystem ∧
      ((eventsPublisher 0).publish (E := Unit) (Codec.strings (fun _ => false)) 0 [] (some ⟨[], [], 1, none, []⟩)
        ⟨.ok, fun _ => some ()⟩ eventsSystem.broker).2.2.channels = [⟨(), false⟩] := by
  refine ⟨(channelLaw_iff ?_ rfl).mpr ?_, by decide⟩
  · intro o party hp
    obtain rfl := Option.some.inj hp
    exact ⟨eventsConfig, rfl⟩
  · rintro ls s hrun call ⟨event, attempt, rfl, hrefused⟩ ⟨_, p, hp, _, hkept⟩
    obtain ⟨n, hn⟩ := eventsSystem_party hrun
    obtain rfl := Party.publisher.inj (Option.some.inj (hn.symm.trans hp))
    -- without a queue, a call keeps its channel only if its first attempt is not refused
    rcases hkept with ⟨hqueue, _⟩ | ⟨_, hkind⟩ | ⟨_, hattempt, _⟩
    · exact hqueue rfl
    · exact absurd (show ExchangeTypeFanout = .unset from hkind) (by decide)
    · exact hrefused hattempt

/-- As many channels as you like. -/
theorem eventsSystem_openOf (cd : Codec GoString) (event : Event) (B : ℕ) :
    ∃ (ls : List (Call Unit E × Option (Err E))) (s : System Unit GoString) (n : ℤ),
      Run (Step cd) eventsSystem ls s ∧
      s.party () = some (.publisher (eventsPublisher n)) ∧
      s.broker.kindOf (str "events") = some .fanout ∧ s.broker.openOf () = B := by
  induction B with
  | zero => exact ⟨[], eventsSystem, 0, .nil, rfl, rfl, rfl⟩
  | succ B ih =>
      obtain ⟨ls, s, n, hrun, hp, hx, hB⟩ := ih
      have hstep : Step (E := E) cd s (.publish () 0 [] (some event) .ok, _) _ := .publish 0 [] _ .ok hp
      have hleaves : (eventsPublisher n).LeavesOpen (.ok : PublishFaults E) s.broker := by
        refine ⟨⟨rfl, rfl⟩, Or.inr (Or.inr ⟨rfl, rfl, .fanout, rfl, rfl, ?_⟩)⟩
        show (s.broker.kindOf (str "events")).getD .fanout = .fanout
        rw [hx]
        rfl
      obtain ⟨n', hn'⟩ := publish_keeps cd 0 [] (some event) (.ok : PublishFaults E) (eventsPublisher n)
        s.broker
      refine ⟨_, _, n', hrun.snoc hstep, ?_, publish_kindOf cd 0 [] event .ok _ hx, ?_⟩
      · show Function.update s.party () _ () = _
        rw [Function.update_self, hn']
        rfl
      · rw [(publish_opensOne cd 0 [] event .ok _ s.broker).openOf_of hleaves]
        exact congrArg (· + 1) hB

/-- No bound holds for the publisher's open channels, and `Close` leaves them open. -/
theorem channelLaw_events_fails :
    (¬ ∃ B, ∀ ls s, Run (Step (E := Unit) (Codec.strings (fun _ => false))) eventsSystem ls s →
        s.broker.openOf () ≤ B) ∧
      (∃ ls s t, Run (Step (E := Unit) (Codec.strings (fun _ => false))) eventsSystem ls s ∧
        Step (E := Unit) (Codec.strings (fun _ => false)) s (.close (), none) t ∧ t.broker.openOf () = 1) ∧
      ¬ ChannelLaw (E := Unit) (Codec.strings (fun _ => false)) (fun _ _ => True) eventsSystem := by
  have hgrow := eventsSystem_openOf (E := Unit) (Codec.strings (fun _ => false)) ⟨[], [], 1, none, []⟩
  have hunbounded : ¬ ∃ B, ∀ ls s,
      Run (Step (E := Unit) (Codec.strings (fun _ => false))) eventsSystem ls s → s.broker.openOf () ≤ B := by
    rintro ⟨B, hB⟩
    obtain ⟨ls, s, _, hrun, _, _, hopen⟩ := hgrow (B + 1)
    have := hB ls s hrun
    omega
  refine ⟨hunbounded, ?_, ?_⟩
  · obtain ⟨ls, s, n, hrun, hp, _, hopen⟩ := hgrow 1
    exact ⟨ls, s, _, hrun, .closePublisher hp, hopen⟩
  · rintro ⟨⟨B, hB⟩, _⟩
    refine hunbounded ⟨B, fun ls s hrun => ?_⟩
    have hrun' : Run (StepIn (Codec.strings (fun _ => false)) (fun _ _ => True)) eventsSystem (ls.map id) s :=
      hrun.map id (fun _ _ _ hstep => ⟨trivial, hstep⟩)
    exact hB _ s hrun' ()

end Rabbitmq
end Mq
end ServiceKit
