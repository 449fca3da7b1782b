import ServiceKit.Mq.Correctness.GetChannel
import ServiceKit.Mq.System

/-!
# `Correctness.Topology` — publishers and consumers that share a configuration with a queue

With a queue name, `getChannel` returns as soon as the queue is declared, and nobody declares the exchange.
So on a fresh broker the consumer cannot bind its queue, and whatever is published goes nowhere.
-/

namespace ServiceKit
namespace Mq
namespace Rabbitmq

open Lib

variable {V O E : Type}

/-! ## What the configuration is for -/

/-- No broker call fails for a reason of its own. -/
def Call.Accepted : Call O E → Prop
  | .publish _ _ _ _ faults => faults = .ok
  | .start _ faults => faults = .ok
  | .close _ => True

/-- A call with no fault. -/
def AcceptedStep [DecidableEq O] (cd : Codec V) (s : System O V) (l : Call O E × Option (Err E))
    (t : System O V) : Prop :=
  l.1.Accepted ∧ Step cd s l t

/-- The new messages in `queue` are `msg`, once. -/
def RoutedOnce (queue : GoString) (msg : Publishing V) (b b' : Broker O V) : Prop :=
  b'.routed.filter (fun d => d.1 = queue) = b.routed.filter (fun d => d.1 = queue) ++ [(queue, msg)]

/-- All parties have the configuration `cfg`. -/
def System.Shares (E : Type) (cfg : RabbitMQConfig) (s : System O V) : Prop :=
  ∀ o party, s.party o = some party → party.MadeWith E o cfg

/-- A consumer starts, and from then on each published event reaches the queue, once. -/
structure Topology [DecidableEq O] (E : Type) (cd : Codec V) (cfg : RabbitMQConfig) (s₀ : System O V) :
    Prop where
  started : ∀ (o : O) (err : Option (Err E)) (s : System O V), Step cd s₀ (.start o .ok, err) s → err = none
  routed : ∀ (o : O) (err : Option (Err E)) (s : System O V), Step cd s₀ (.start o .ok, err) s →
    ∀ (ls : List (Call O E × Option (Err E))) (t : System O V), Run (AcceptedStep cd) s ls t →
    ∀ (p : O) (now : ℤ) (newUUID : GoString) (event : Event) (u : System O V),
      Step (E := E) cd t (.publish p now newUUID (some event) .ok, none) u →
      RoutedOnce cfg.queueName (getPublishMessage cd now newUUID event).1 t.broker u.broker

/-! ## Calls without the exchange -/

theorem ChannelFaults.ok_opens : (ChannelFaults.ok : ChannelFaults E).Opens := ⟨rfl, rfl⟩

/-- With a queue name and no fault, `getChannel` declares the queue and nothing else. -/
theorem Got.queue_inv {owner : O} {cfg : RabbitMQConfig} {b b' : Broker O V}
    {res : Except (Err E) (ℕ × Option GoString)} (hq : cfg.queueName ≠ [])
    (h : Got owner cfg (.ok : ChannelFaults E) b res b') :
    res = .ok (b.channels.length, some cfg.queueName) ∧
      b' = (b.addQueue cfg.queueName).opened owner true := by
  cases h with
  | unopened hopens => exact absurd ChannelFaults.ok_opens hopens
  | queue _ _ _ => exact ⟨rfl, rfl⟩
  | queueRefused _ _ hd => exact absurd rfl hd
  | unset _ hq' _ => exact absurd hq' hq
  | exchange _ hq' _ => exact absurd hq' hq
  | exchangeRefused _ hq' _ _ => exact absurd hq' hq

/-- The broker cannot bind the queue. -/
theorem start_no_exchange {c : RabbitMQConsumer O} {b : Broker O V} (hq : c.cfg.queueName ≠ [])
    (hx : b.kindOf c.cfg.exchange = none) :
    errorOf (c.start (E := E) .ok b).1 ≠ none ∧
      (c.start (E := E) .ok b).2 = (b.addQueue c.cfg.queueName).opened c.client.owner false := by
  have hgot := getChannel_consumerGot c (.ok : ChannelFaults E) b
  unfold RabbitMQConsumer.start
  generalize c.getChannel (.ok : ChannelFaults E) b = res at hgot ⊢
  obtain ⟨⟨channel, err⟩, b'⟩ := res
  cases hgot with
  | noChannel hgot => exact absurd (hgot.queue_inv hq).1 nofun
  | exchange hgot => exact absurd (hgot.queue_inv hq).1 (by simp)
  | bound _ _ _ _ hx' =>
      rw [hx] at hx'
      exact absurd hx' nofun
  | unbound _ _ _ _ => exact ⟨nofun, rfl⟩

/-- The broker cannot route the message. -/
theorem publish_no_exchange (cd : Codec V) (now : ℤ) (newUUID : GoString) (event : Event)
    {p : RabbitMQPublisher O} {b : Broker O V} (hq : p.cfg.queueName ≠ [])
    (hx : b.kindOf p.cfg.exchange = none) :
    (p.publish (E := E) cd now newUUID (some event) .ok b).1.err ≠ none ∧
      (p.publish (E := E) cd now newUUID (some event) .ok b).2.2
        = (b.addQueue p.cfg.queueName).opened p.client.owner false := by
  have hsent := publish_sent cd now newUUID event (.ok : PublishFaults E) p b
  generalize p.publish cd now newUUID (some event) (.ok : PublishFaults E) b = res at hsent ⊢
  obtain ⟨ret, p', b'⟩ := res
  cases hsent with
  | noChannel hgot => exact absurd (hgot.queue_inv hq).1 nofun
  | sent _ hgot _ hx' =>
      rw [Amqp.Broker.opened_inj (hgot.queue_inv hq).2, Amqp.Broker.kindOf_addQueue, hx] at hx'
      exact absurd hx' nofun
  | refused _ hgot _ =>
      rw [Amqp.Broker.opened_inj (hgot.queue_inv hq).2]
      exact ⟨nofun, rfl⟩

/-! ## Runs from a broker without exchanges -/

theorem closeClient_broker (c : RabbitMQClient O) (b : Broker O V) :
    (c.close b).2.exchanges = b.exchanges ∧ (c.close b).2.routed = b.routed := by
  unfold RabbitMQClient.close
  cases c.channel with
  | none => exact ⟨rfl, rfl⟩
  | some channel => exact ⟨rfl, rfl⟩

/-- No exchange was declared and nothing was routed, and every party names a queue. -/
structure Unrouted (s : System O V) : Prop where
  exchanges : s.broker.exchanges = []
  routed : s.broker.routed = []
  queueName : ∀ o party, s.party o = some party → party.cfg.queueName ≠ []

theorem Unrouted.kindOf {s : System O V} (h : Unrouted s) (exchange : GoString) :
    s.broker.kindOf exchange = none := by
  unfold Amqp.Broker.kindOf
  rw [h.exchanges]
  rfl

theorem addQueue_exchanges (name : GoString) (b : Broker O V) : (b.addQueue name).exchanges = b.exchanges := by
  unfold Amqp.Broker.addQueue
  split
  · rfl
  · rfl

/-- A queue and a closed channel more leave a system without exchanges. -/
theorem Unrouted.addQueue {s : System O V} (h : Unrouted s) (party : O → Option (Party O))
    (hparty : ∀ o party', party o = some party' → party'.cfg.queueName ≠ []) (owner : O) (name : GoString)
    {b : Broker O V} (hb : b = (s.broker.addQueue name).opened owner false) : Unrouted ⟨party, b⟩ where
  exchanges := by
    rw [hb]
    exact (addQueue_exchanges name s.broker).trans h.exchanges
  routed := by
    rw [hb]
    exact (Amqp.Broker.addQueue_routed name s.broker).trans h.routed
  queueName := hparty

/-- What a call does without exchanges: it leaves none, and `Publish` and `Start` return an error. -/
theorem Unrouted.step [DecidableEq O] {cd : Codec V} {s t : System O V} {l : Call O E × Option (Err E)}
    (h : Unrouted s) (hstep : AcceptedStep cd s l t) :
    Unrouted t ∧ ((∀ o, l.1 ≠ .close o) → l.2 ≠ none) := by
  obtain ⟨hacc, hs⟩ := hstep
  cases hs with
  | @publish o p now newUUID event faults hp =>
      obtain rfl : faults = .ok := hacc
      have hq : p.cfg.queueName ≠ [] := h.queueName o _ hp
      have hq' : (p.publish (E := E) cd now newUUID event .ok s.broker).2.1.cfg.queueName ≠ [] := by
        obtain ⟨n, hn⟩ := publish_keeps cd now newUUID event (.ok : PublishFaults E) p s.broker
        rw [hn]
        exact hq
      cases event with
      | none =>
          exact ⟨⟨h.exchanges, h.routed, forall_party_update h.queueName (.publisher _) hq'⟩, fun _ => nofun⟩
      | some event =>
          obtain ⟨herr, hb⟩ := publish_no_exchange (E := E) cd now newUUID event hq (h.kindOf p.cfg.exchange)
          exact ⟨h.addQueue _ (forall_party_update h.queueName (.publisher _) hq') _ _ hb, fun _ => herr⟩
  | @start o c faults hc =>
      obtain rfl : faults = .ok := hacc
      obtain ⟨herr, hb⟩ := start_no_exchange (E := E) (h.queueName o _ hc) (h.kindOf c.cfg.exchange)
      exact ⟨h.addQueue _ h.queueName _ _ hb, fun _ => herr⟩
  | @closePublisher o p hp =>
      obtain ⟨hx, hr⟩ := closeClient_broker p.client s.broker
      have hq : p.cfg.queueName ≠ [] := h.queueName o _ hp
      exact ⟨⟨hx.trans h.exchanges, hr.trans h.routed,
        forall_party_update h.queueName (.publisher (p.close s.broker).1) hq⟩, fun hne => absurd rfl (hne o)⟩
  | @closeConsumer o c hc =>
      obtain ⟨hx, hr⟩ := closeClient_broker c.client s.broker
      have hq : c.cfg.queueName ≠ [] := h.queueName o _ hc
      exact ⟨⟨hx.trans h.exchanges, hr.trans h.routed,
        forall_party_update h.queueName (.consumer (c.close s.broker).1) hq⟩, fun hne => absurd rfl (hne o)⟩

theorem Unrouted.init {s₀ : System O V} {cfg : RabbitMQConfig} (hb : s₀.broker = .empty)
    (hshare : s₀.Shares E cfg) (hq : cfg.queueName ≠ []) : Unrouted s₀ where
  exchanges := by rw [hb]; rfl
  routed := by rw [hb]; rfl
  queueName := by
    intro o party hp
    rw [(hshare o party hp).inv.2]
    exact hq

theorem Unrouted.run [DecidableEq O] {cd : Codec V} {s₀ s : System O V} (h : Unrouted s₀)
    {ls : List (Call O E × Option (Err E))} (hrun : Run (AcceptedStep cd) s₀ ls s) : Unrouted s :=
  hrun.preserves h (fun _ _ _ hs hstep => (hs.step hstep).1)

/-- **On a fresh broker no consumer starts, and in every history no event is published or routed.** -/
theorem topology_never [DecidableEq O] (cd : Codec V) {cfg : RabbitMQConfig} {s₀ : System O V}
    (hb : s₀.broker = .empty) (hshare : s₀.Shares E cfg) (hq : cfg.queueName ≠ []) {o : O}
    {c : RabbitMQConsumer O} (hc : s₀.party o = some (.consumer c)) :
    ¬ Topology E cd cfg s₀ ∧
      ∀ (ls : List (Call O E × Option (Err E))) (s : System O V), Run (AcceptedStep cd) s₀ ls s →
        s.broker.exchanges = [] ∧ s.broker.routed = [] ∧
          ∀ l ∈ ls, (∀ o, l.1 ≠ .close o) → l.2 ≠ none := by
  have hinit : Unrouted s₀ := .init hb hshare hq
  refine ⟨?_, ?_⟩
  · intro htop
    have hstep : Step (E := E) cd s₀ (.start o .ok, _) _ := .start .ok hc
    have hacc : AcceptedStep (E := E) cd s₀ (.start o .ok, _) _ := ⟨rfl, hstep⟩
    exact (hinit.step hacc).2 (fun o => nofun) (htop.started _ _ _ hstep)
  · intro ls s hrun
    have h := hinit.run hrun
    refine ⟨h.exchanges, h.routed, ?_⟩
    apply hrun.invariant (fun ls _ => ∀ l ∈ ls, (∀ o, l.1 ≠ .close o) → l.2 ≠ none) (by simp)
    intro ls s l t hrun hls hstep l' hl'
    rcases List.mem_append.mp hl' with hl' | hl'
    · exact hls l' hl'
    · obtain rfl := List.mem_singleton.mp hl'
      exact ((hinit.run hrun).step hstep).2

/-- A consumer (`true`) and a publisher (`false`) of the orders, on a fresh broker. -/
def ordersSystem : System Bool GoString :=
  { party := fun o =>
      if o then some (.consumer ⟨newRabbitMQClient true, ordersConfig⟩)
      else some (.publisher ⟨newRabbitMQClient false, ordersConfig⟩)
    broker := .empty }

theorem ordersSystem_shares : ordersSystem.Shares Unit ordersConfig := by
  rintro (_ | _) party hp
  · obtain rfl := Option.some.inj hp
    rfl
  · obtain rfl := Option.some.inj hp
    rfl

theorem topology_never_orders :
    ¬ Topology Unit (Codec.strings (fun _ => false)) ordersConfig ordersSystem :=
  (topology_never (Codec.strings (fun _ => false)) rfl ordersSystem_shares (by decide) (o := true) rfl).1

/-- The consumer of the orders does not start: the exchange is missing when its queue is to be bound. -/
theorem topology_orders_start :
    (∃ err s, Step (E := Unit) (Codec.strings (fun _ => false)) ordersSystem (.start true .ok, some err) s) ∧
      ¬ Topology Unit (Codec.strings (fun _ => false)) ordersConfig ordersSystem := by
  have hstep : Step (E := Unit) (Codec.strings (fun _ => false)) ordersSystem (.start true .ok, _) _ :=
    .start .ok rfl
  exact ⟨⟨_, _, hstep⟩, fun htop => absurd (htop.started true _ _ hstep) nofun⟩

end Rabbitmq
end Mq
end ServiceKit
