import ServiceKit.Mq.Rabbitmq

/-!
# `Correctness.GetChannel` — what `getChannel` leaves on the broker

`Got` lists every way in which `getChannel` ends: with the queue declared, with the exchange declared, or
with an error; and for each whether the channel it opened is still open. `publish_sent` and
`getChannel_consumerGot` carry this to `Publish` and to the consumer's `getChannel`.
-/

namespace ServiceKit
namespace Mq
namespace Rabbitmq

open Lib
open Lib.Amqp (Kind)

variable {V O E : Type}

/-- A connection and a channel can be had. -/
structure ChannelFaults.Opens (faults : ChannelFaults E) : Prop where
  connect : faults.connect = none
  openChannel : faults.openChannel = none

/-- The broker accepts the exchange that `cfg` declares. -/
structure DeclaresExchange (cfg : RabbitMQConfig) (faults : ChannelFaults E) (b : Broker O V)
    (kind : Kind) : Prop where
  known : cfg.kind = .known kind
  accepted : faults.exchangeDeclare = none
  same : (b.kindOf cfg.exchange).getD kind = kind

/-- How `getChannel` ends, from broker `b`. -/
inductive Got (owner : O) (cfg : RabbitMQConfig) (faults : ChannelFaults E) (b : Broker O V) :
    Except (Err E) (ℕ × Option GoString) → Broker O V → Prop where
  | unopened {err} (hopens : ¬ faults.Opens) : Got owner cfg faults b (.error err) b
  | queue (hopens : faults.Opens) (hq : cfg.queueName ≠ []) (hd : faults.queueDeclare = none) :
      Got owner cfg faults b (.ok (b.channels.length, some cfg.queueName))
        ((b.addQueue cfg.queueName).opened owner true)
  | queueRefused {err} (hopens : faults.Opens) (hq : cfg.queueName ≠ []) (hd : faults.queueDeclare ≠ none) :
      Got owner cfg faults b (.error err) (b.opened owner false)
  | unset {err} (hopens : faults.Opens) (hq : cfg.queueName = []) (hk : cfg.kind = .unset) :
      Got owner cfg faults b (.error err) (b.opened owner true)
  | exchange {kind} (hopens : faults.Opens) (hq : cfg.queueName = [])
      (hd : DeclaresExchange cfg faults b kind) :
      Got owner cfg faults b (.ok (b.channels.length, none))
        ((b.addExchange cfg.exchange kind).opened owner true)
  | exchangeRefused {err} (hopens : faults.Opens) (hq : cfg.queueName = []) (hk : cfg.kind ≠ .unset)
      (hd : ∀ kind, ¬ DeclaresExchange cfg faults b kind) :
      Got owner cfg faults b (.error err) (b.opened owner false)

theorem clientGetChannel_opens {client : RabbitMQClient O} {faults : ChannelFaults E}
    (hopens : faults.Opens) (b : Broker O V) :
    client.getChannel faults b = (.ok b.channels.length, b.opened client.owner true) := by
  unfold RabbitMQClient.getChannel RabbitMQClient.connect Amqp.Broker.openChannel
  rw [hopens.connect, hopens.openChannel]
  rfl

theorem clientGetChannel_not_opens (client : RabbitMQClient O) {faults : ChannelFaults E}
    (hopens : ¬ faults.Opens) (b : Broker O V) : ∃ err, client.getChannel faults b = (.error err, b) := by
  unfold RabbitMQClient.getChannel RabbitMQClient.connect Amqp.Broker.openChannel
  cases hconn : faults.connect with
  | some err => exact ⟨_, rfl⟩
  | none =>
      cases hopen : faults.openChannel with
      | some err => exact ⟨_, rfl⟩
      | none => exact absurd ⟨hconn, hopen⟩ hopens

/-- **What `getChannel` does.** -/
theorem getChannel_got (client : RabbitMQClient O) (cfg : RabbitMQConfig) (faults : ChannelFaults E)
    (b : Broker O V) :
    Got client.owner cfg faults b (getChannel client cfg faults b).1 (getChannel client cfg faults b).2 := by
  by_cases hopens : faults.Opens
  · unfold getChannel
    rw [clientGetChannel_opens hopens]
    dsimp only
    by_cases hq : cfg.queueName = []
    · -- no queue is named: the exchange is declared
      rw [if_pos hq]
      simp only [Bool.false_eq_true, if_false]
      cases hk : cfg.kind with
      | unset => exact .unset hopens hq hk
      | known kind =>
          dsimp only
          unfold Amqp.Broker.exchangeDeclare
          rw [Amqp.Broker.kindOf_opened]
          rcases Amqp.Broker.call_opened client.owner faults.exchangeDeclare
            (if (b.kindOf cfg.exchange).getD kind = kind then none else some .preconditionFailed)
            (Amqp.Broker.addExchange cfg.exchange kind) b with
            ⟨hr, hm, hcall⟩ | ⟨hr, err, hcall⟩
          · rw [hcall, Amqp.Broker.addExchange_opened]
            refine .exchange hopens hq ⟨hk, hr, ?_⟩
            by_contra hne
            rw [if_neg hne] at hm
            exact absurd hm nofun
          · rw [hcall]
            refine .exchangeRefused hopens hq (by rw [hk]; nofun) ?_
            rintro kind' ⟨hk', hacc, hsame⟩
            obtain rfl : kind = kind' := by
              rw [hk] at hk'
              exact ExchangeType.known.inj hk'
            rcases hr with hr | hr
            · exact hr hacc
            · exact hr (if_pos hsame)
      | other name =>
          dsimp only
          rcases Amqp.Broker.call_opened client.owner faults.exchangeDeclare (some .preconditionFailed) id b
            with ⟨_, hm, _⟩ | ⟨_, err, hcall⟩
          · exact absurd hm nofun
          · rw [hcall]
            refine .exchangeRefused hopens hq (by rw [hk]; nofun) ?_
            rintro kind ⟨hk', _, _⟩
            rw [hk] at hk'
            exact absurd hk' nofun
    · rw [if_neg hq]
      unfold Amqp.Broker.queueDeclare
      rcases Amqp.Broker.call_opened client.owner faults.queueDeclare none
        (Amqp.Broker.addQueue cfg.queueName) b with ⟨hd, _, hcall⟩ | ⟨hd, err, hcall⟩
      · rw [hcall, Amqp.Broker.addQueue_opened]
        exact .queue hopens hq hd
      · -- the broker closed the channel, so the exchange cannot be declared on it
        have hd' : faults.queueDeclare ≠ none := hd.resolve_right (fun h => h rfl)
        rw [hcall]
        simp only [Bool.false_eq_true, if_false]
        cases hk : cfg.kind with
        | unset => exact .queueRefused hopens hq hd'
        | known kind =>
            dsimp only
            unfold Amqp.Broker.exchangeDeclare
            rw [Amqp.Broker.call_closed]
            exact .queueRefused hopens hq hd'
        | other name =>
            dsimp only
            rw [Amqp.Broker.call_closed]
            exact .queueRefused hopens hq hd'
  · obtain ⟨err, herr⟩ := clientGetChannel_not_opens client hopens b
    unfold getChannel
    rw [herr]
    exact .unopened hopens

theorem Got.routed {owner : O} {cfg : RabbitMQConfig} {faults : ChannelFaults E} {b b' : Broker O V}
    {res : Except (Err E) (ℕ × Option GoString)} (h : Got owner cfg faults b res b') :
    b'.routed = b.routed := by
  cases h with
  | unopened _ => rfl
  | queue _ _ _ => exact Amqp.Broker.addQueue_routed _ _
  | queueRefused _ _ _ => rfl
  | unset _ _ _ => rfl
  | exchange _ _ _ => exact Amqp.Broker.addExchange_routed _ _ _
  | exchangeRefused _ _ _ _ => rfl

theorem Got.kindOf {owner : O} {cfg : RabbitMQConfig} {faults : ChannelFaults E} {b b' : Broker O V}
    {res : Except (Err E) (ℕ × Option GoString)} (h : Got owner cfg faults b res b') {exchange : GoString}
    {kind : Kind} (hx : b.kindOf exchange = some kind) : b'.kindOf exchange = some kind := by
  cases h with
  | unopened _ => exact hx
  | queue _ _ _ => rwa [Amqp.Broker.kindOf_opened, Amqp.Broker.kindOf_addQueue]
  | queueRefused _ _ _ => exact hx
  | unset _ _ _ => exact hx
  | exchange _ _ _ => exact Amqp.Broker.kindOf_addExchange_of_some hx _ _
  | exchangeRefused _ _ _ _ => exact hx

/-- What was declared with a channel that was got. -/
theorem Got.opened_inv {owner : O} {cfg : RabbitMQConfig} {faults : ChannelFaults E} {b b' : Broker O V}
    {res : ℕ × Option GoString} (h : Got owner cfg faults b (.ok res) (b'.opened owner true)) :
    faults.Opens ∧
      ((cfg.queueName ≠ [] ∧ faults.queueDeclare = none ∧ b' = b.addQueue cfg.queueName) ∨
        (cfg.queueName = [] ∧
          ∃ kind, DeclaresExchange cfg faults b kind ∧ b' = b.addExchange cfg.exchange kind)) := by
  generalize hopened : b'.opened owner true = b'' at h
  cases h with
  | queue hopens hq hd => exact ⟨hopens, Or.inl ⟨hq, hd, Amqp.Broker.opened_inj hopened⟩⟩
  | exchange hopens hq hd => exact ⟨hopens, Or.inr ⟨hq, _, hd, Amqp.Broker.opened_inj hopened⟩⟩

/-! ## Publish -/

/-- On a closed channel every attempt fails. -/
theorem attempts_closed (owner : O) (cfg : RabbitMQConfig) (msg : Publishing V) (refused : ℕ → Option E)
    (n i : ℕ) (b : Broker O V) :
    attempts b.channels.length cfg msg refused n i (b.opened owner false) = (false, b.opened owner false) := by
  induction n generalizing i with
  | zero => rfl
  | succ n ih =>
      rw [attempts, Amqp.Broker.publish, Amqp.Broker.call_closed]
      exact ih (i + 1)

/-- The first attempt decides: a refused one closes the channel. -/
theorem attempts_opened (owner : O) (cfg : RabbitMQConfig) (msg : Publishing V) (refused : ℕ → Option E)
    (n i : ℕ) (b : Broker O V) :
    (refused i = none ∧ (b.kindOf cfg.exchange).isSome = true ∧
        attempts b.channels.length cfg msg refused (n + 1) i (b.opened owner true)
          = (true, (b.route cfg.exchange cfg.routingKey msg).opened owner true)) ∨
      ((refused i ≠ none ∨ b.kindOf cfg.exchange = none) ∧
        attempts b.channels.length cfg msg refused (n + 1) i (b.opened owner true)
          = (false, b.opened owner false)) := by
  rw [attempts, Amqp.Broker.publish, Amqp.Broker.kindOf_opened]
  rcases Amqp.Broker.call_opened owner (refused i)
    (if (b.kindOf cfg.exchange).isSome then none else some .notFound)
    (Amqp.Broker.route cfg.exchange cfg.routingKey msg) b with ⟨hr, hm, hcall⟩ | ⟨hr, err, hcall⟩
  · rw [hcall, Amqp.Broker.route_opened]
    refine Or.inl ⟨hr, ?_, rfl⟩
    by_contra hnone
    rw [if_neg hnone] at hm
    exact absurd hm nofun
  · rw [hcall]
    refine Or.inr ⟨?_, attempts_closed owner cfg msg refused n (i + 1) b⟩
    rcases hr with hr | hr
    · exact Or.inl hr
    · refine Or.inr (Option.not_isSome_iff_eq_none.mp (fun hsome => hr (if_pos hsome)))

/-- How `Publish` of an event ends, from broker `b`, when `msg` is the message made of it. -/
inductive Sent (p : RabbitMQPublisher O) (id : GoString) (msg : Publishing V) (faults : PublishFaults E)
    (b : Broker O V) : Ret E → Broker O V → Prop where
  | noChannel {err err' b'} (hgot : Got p.client.owner p.cfg faults.channel b (.error err) b') :
      Sent p id msg faults b ⟨id, some err'⟩ b'
  | sent {queue} {b' : Broker O V} (hlen : b'.channels = b.channels)
      (hgot : Got p.client.owner p.cfg faults.channel b (.ok (b.channels.length, queue))
        (b'.opened p.client.owner true))
      (hr : faults.attempt 0 = none) (hx : (b'.kindOf p.cfg.exchange).isSome = true) :
      Sent p id msg faults b ⟨msg.messageId, none⟩
        ((b'.route p.cfg.exchange p.cfg.routingKey msg).opened p.client.owner true)
  | refused {queue err} {b' : Broker O V} (hlen : b'.channels = b.channels)
      (hgot : Got p.client.owner p.cfg faults.channel b (.ok (b.channels.length, queue))
        (b'.opened p.client.owner true))
      (hr : faults.attempt 0 ≠ none ∨ b'.kindOf p.cfg.exchange = none) :
      Sent p id msg faults b ⟨msg.messageId, some err⟩ (b'.opened p.client.owner false)

/-- A channel that was got is the one opened last. -/
theorem Got.ok_inv {owner : O} {cfg : RabbitMQConfig} {faults : ChannelFaults E} {b b' : Broker O V}
    {res : ℕ × Option GoString} (h : Got owner cfg faults b (.ok res) b') :
    res.1 = b.channels.length ∧ ∃ b₁ : Broker O V, b₁.channels = b.channels ∧ b' = b₁.opened owner true := by
  cases h with
  | queue _ _ _ => exact ⟨rfl, _, Amqp.Broker.addQueue_channels _ _, rfl⟩
  | exchange _ _ _ => exact ⟨rfl, _, Amqp.Broker.addExchange_channels _ _ _, rfl⟩

/-- There is at least one attempt. -/
theorem withRetryTimes_pos (p : RabbitMQPublisher O) :
    ∃ n, (withRetryTimes p).cfg.pushRetryTimes.toNat = n + 1 := by
  unfold withRetryTimes
  split
  · exact ⟨2, rfl⟩
  · next h => exact ⟨p.cfg.pushRetryTimes.toNat - 1, by omega⟩

theorem withRetryTimes_cfg (p : RabbitMQPublisher O) :
    (withRetryTimes p).cfg.exchange = p.cfg.exchange ∧
      (withRetryTimes p).cfg.routingKey = p.cfg.routingKey := by
  unfold withRetryTimes
  split
  · exact ⟨rfl, rfl⟩
  · exact ⟨rfl, rfl⟩

/-- `Publish` changes nothing of the publisher but its number of retries. -/
theorem publish_keeps (cd : Codec V) (now : ℤ) (newUUID : GoString) (event : Option Event)
    (faults : PublishFaults E) (p : RabbitMQPublisher O) (b : Broker O V) :
    ∃ n, (p.publish cd now newUUID event faults b).2.1 = { p with cfg.pushRetryTimes := n } := by
  have hretry : ∃ n, withRetryTimes p = { p with cfg.pushRetryTimes := n } := by
    unfold withRetryTimes
    split
    · exact ⟨_, rfl⟩
    · exact ⟨p.cfg.pushRetryTimes, rfl⟩
  unfold RabbitMQPublisher.publish
  cases event with
  | none => exact ⟨p.cfg.pushRetryTimes, rfl⟩
  | some event =>
      dsimp only
      split
      · exact ⟨p.cfg.pushRetryTimes, rfl⟩
      · split
        · exact hretry
        · exact hretry

/-- **What `Publish` does.** -/
theorem publish_sent (cd : Codec V) (now : ℤ) (newUUID : GoString) (event : Event)
    (faults : PublishFaults E) (p : RabbitMQPublisher O) (b : Broker O V) :
    Sent p event.id (getPublishMessage cd now newUUID event).1 faults b
      (p.publish cd now newUUID (some event) faults b).1
      (p.publish cd now newUUID (some event) faults b).2.2 := by
  have hgot := getChannel_got p.client p.cfg faults.channel b
  unfold RabbitMQPublisher.publish
  dsimp only
  cases hres : getChannel p.client p.cfg faults.channel b with
  | mk res b' =>
      rw [hres] at hgot
      cases res with
      | error err => exact .noChannel hgot
      | ok res =>
          obtain ⟨channel, queue⟩ := res
          obtain ⟨rfl, b₁, hlen, rfl⟩ := hgot.ok_inv
          obtain ⟨n, hn⟩ := withRetryTimes_pos p
          have hx := withRetryTimes_cfg p
          dsimp only
          rw [hn, ← hlen]
          rcases attempts_opened p.client.owner (withRetryTimes p).cfg
            (getPublishMessage cd now newUUID event).1 faults.attempt n 0 b₁ with
            ⟨hr, hsome, hatt⟩ | ⟨hr, hatt⟩
          · rw [hatt, hx.1, hx.2]
            rw [hx.1] at hsome
            exact .sent hlen hgot hr hsome
          · rw [hatt]
            rw [hx.1] at hr
            exact .refused hlen hgot hr

/-- `Publish` leaves the exchanges that were declared. -/
theorem publish_kindOf (cd : Codec V) (now : ℤ) (newUUID : GoString) (event : Event)
    (faults : PublishFaults E) (p : RabbitMQPublisher O) {b : Broker O V} {exchange : GoString} {kind : Kind}
    (hx : b.kindOf exchange = some kind) :
    (p.publish cd now newUUID (some event) faults b).2.2.kindOf exchange = some kind := by
  have hsent := publish_sent cd now newUUID event faults p b
  generalize p.publish cd now newUUID (some event) faults b = res at hsent ⊢
  obtain ⟨ret, p', b'⟩ := res
  cases hsent with
  | noChannel hgot => exact hgot.kindOf hx
  | sent _ hgot _ _ => exact (Amqp.Broker.kindOf_route _ _ _ _ _).trans (hgot.kindOf hx)
  | refused _ hgot _ => exact hgot.kindOf hx

/-! ## The consumer -/

/-- How the consumer's `getChannel` ends, from broker `b`. A channel comes with the error of the binding. -/
inductive ConsumerGot (c : RabbitMQConsumer O) (faults : ChannelFaults E) (b : Broker O V) :
    Option ℕ × Option (Err E) → Broker O V → Prop where
  | noChannel {err b'} (hgot : Got c.client.owner c.cfg faults b (.error err) b') :
      ConsumerGot c faults b (none, some err) b'
  | exchange {b'} (hgot : Got c.client.owner c.cfg faults b (.ok (b.channels.length, none)) b') :
      ConsumerGot c faults b (some b.channels.length, none) b'
  | bound (hopens : faults.Opens) (hq : c.cfg.queueName ≠ []) (hd : faults.queueDeclare = none)
      (hr : faults.queueBind = none) (hx : (b.kindOf c.cfg.exchange).isSome = true) :
      ConsumerGot c faults b (some b.channels.length, none)
        (((b.addQueue c.cfg.queueName).addBinding ⟨c.cfg.queueName, c.cfg.routingKey, c.cfg.exchange⟩).opened
          c.client.owner true)
  | unbound {err} (hopens : faults.Opens) (hq : c.cfg.queueName ≠ []) (hd : faults.queueDeclare = none)
      (hr : faults.queueBind ≠ none ∨ b.kindOf c.cfg.exchange = none) :
      ConsumerGot c faults b (some b.channels.length, some err)
        ((b.addQueue c.cfg.queueName).opened c.client.owner false)

/-- **What the consumer's `getChannel` does.** -/
theorem getChannel_consumerGot (c : RabbitMQConsumer O) (faults : ChannelFaults E) (b : Broker O V) :
    ConsumerGot c faults b (c.getChannel faults b).1 (c.getChannel faults b).2 := by
  have hgot := getChannel_got c.client c.cfg faults b
  unfold RabbitMQConsumer.getChannel
  cases hres : getChannel c.client c.cfg faults b with
  | mk res b' =>
      rw [hres] at hgot
      cases res with
      | error err => exact .noChannel hgot
      | ok res =>
          obtain ⟨channel, queue⟩ := res
          dsimp only at hgot ⊢
          cases hgot with
          | exchange hopens hq hd => exact .exchange (.exchange hopens hq hd)
          | queue hopens hq hd =>
              unfold Amqp.Broker.queueBind
              rw [← Amqp.Broker.addQueue_channels c.cfg.queueName b]
              dsimp only
              rw [Amqp.Broker.kindOf_opened, Amqp.Broker.kindOf_addQueue]
              have hmem : c.cfg.queueName ∈ ((b.addQueue c.cfg.queueName).opened c.client.owner true).queues :=
                Amqp.Broker.mem_addQueue _ _
              rcases Amqp.Broker.call_opened c.client.owner faults.queueBind
                (if (b.kindOf c.cfg.exchange).isSome ∧
                    c.cfg.queueName ∈ ((b.addQueue c.cfg.queueName).opened c.client.owner true).queues
                  then none else some .notFound)
                (Amqp.Broker.addBinding ⟨c.cfg.queueName, c.cfg.routingKey, c.cfg.exchange⟩)
                (b.addQueue c.cfg.queueName) with ⟨hr, hm, hcall⟩ | ⟨hr, err, hcall⟩
              · rw [hcall, Amqp.Broker.addBinding_opened, Amqp.Broker.addQueue_channels]
                refine .bound hopens hq hd hr ?_
                by_contra hnone
                rw [if_neg (fun h => hnone h.1)] at hm
                exact absurd hm nofun
              · rw [hcall, Amqp.Broker.addQueue_channels]
                refine .unbound hopens hq hd (hr.imp_right fun hm => ?_)
                exact Option.not_isSome_iff_eq_none.mp (fun hsome => hm (if_pos ⟨hsome, hmem⟩))

/-! ## Orders -/

/-- The fanout exchange `events`, and no queue. -/
def eventsConfig : RabbitMQConfig :=
  { pushRetryTimes := 0
    queueName := []
    exchange := str "events"
    kind := ExchangeTypeFanout
    routingKey := [] }

/-- The queue `orders` and the fanout exchange `events`. -/
def ordersConfig : RabbitMQConfig := { eventsConfig with queueName := str "orders" }

/-- A broker that has the exchange. -/
def eventsBroker : Broker Unit GoString :=
  { Amqp.Broker.empty with exchanges := [(str "events", .fanout)] }

end Rabbitmq
end Mq
end ServiceKit
