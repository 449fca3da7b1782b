import ServiceKit.Lib.Amqp
import ServiceKit.Lib.Delivery
import ServiceKit.Mq.Basic

/-!
# `Mq.Rabbitmq` — `mq/rabbitmq.go`

Publisher and consumer over AMQP. Both get their channel from `getChannel`, which declares the queue or, if
there is none or that failed, the exchange. The connection comes from a pool; it and the broker's refusals
are inputs (`ChannelFaults`). The broker is `Lib.Amqp.Broker`, the channels on it owned by the client that
opened them.
-/

namespace ServiceKit
namespace Mq
namespace Rabbitmq

open Lib

/-- `ExchangeType`, a string: empty, one of the four constants, or any other text. -/
inductive ExchangeType where
  | unset
  | known (kind : Amqp.Kind)
  | other (name : String)
  deriving DecidableEq

def ExchangeTypeDirect : ExchangeType := .known .direct
def ExchangeTypeFanout : ExchangeType := .known .fanout
def ExchangeTypeTopic : ExchangeType := .known .topic
def ExchangeTypeHeaders : ExchangeType := .known .headers

/-- The text of an exchange type. -/
def ExchangeType.text : ExchangeType → String
  | .unset => ""
  | .known .direct => "direct"
  | .known .fanout => "fanout"
  | .known .topic => "topic"
  | .known .headers => "headers"
  | .other name => name

/-- `RabbitMQConfig`, but for the address. -/
structure RabbitMQConfig where
  pushRetryTimes : ℤ
  queueName : GoString
  exchange : GoString
  kind : ExchangeType
  routingKey : GoString
  deriving DecidableEq

/-- An error of the broker, or one made from a text or by wrapping. -/
abbrev Err (E : Type) := GoErr (Amqp.CallErr E)

variable {V O E : Type}

/-- `checkConfig`, on a config that may be nil. -/
def checkConfig (cfg : Option RabbitMQConfig) : Option (Err E) :=
  match cfg with
  | none => some (.text "config is empty")
  | some cfg =>
      if cfg.exchange = [] then some (.text "exchange is empty")
      else if cfg.kind ≠ .unset ∧ cfg.kind ≠ ExchangeTypeFanout ∧ cfg.kind ≠ ExchangeTypeDirect ∧
          cfg.kind ≠ ExchangeTypeTopic ∧ cfg.kind ≠ ExchangeTypeHeaders then
        some (.text ("kind: " ++ cfg.kind.text ++ " not support"))
      else if cfg.kind ≠ .unset ∧ cfg.kind ≠ ExchangeTypeFanout ∧ cfg.routingKey = [] then
        some (.text "routingKey is empty")
      else none

/-! ## Messages -/

/-- What the code relies on of packages outside: values of type `any` that hold strings, which
    `conv.String` gives back, and `cond.IsJson`. -/
structure Codec (V : Type) where
  ofString : GoString → V
  string : V → GoString
  isJson : GoString → Bool
  string_ofString : ∀ s, string (ofString s) = s

/-- Tables that hold strings as they are. -/
def Codec.strings (isJson : GoString → Bool) : Codec GoString where
  ofString := id
  string := id
  isJson := isJson
  string_ofString := fun _ => rfl

/-- `amqp.Publishing`, but for its constant `DeliveryMode`. -/
structure Publishing (V : Type) where
  contentType : GoString
  messageId : GoString
  body : GoString
  headers : AList (fun _ : GoString => V)
  timestamp : ℤ

/-- `"text/plain"`, or `"application/json"` for a payload that is JSON. -/
def contentType (cd : Codec V) (payload : GoString) : GoString :=
  if cd.isJson payload then str "application/json" else str "text/plain"

/-- `for k, _ := range event.Headers`: the value of each key, as `Get` finds it. -/
def tableOf (cd : Codec V) (h : Header) : AList (fun _ : GoString => V) :=
  h.entries.foldl (fun headers e => headers.insert e.1 (cd.ofString (h.get e.1))) ∅

/-- `getPublishMessage`, at time `now`, with the id `newUUID` for an event that has none. Nil headers of
    the event are replaced. -/
def getPublishMessage (cd : Codec V) (now : ℤ) (newUUID : GoString) (event : Event) :
    Publishing V × Event :=
  let event := { event with headers := some event.fields }
  let headers := tableOf cd event.fields
  let t := if event.timestamp > 0 then event.timestamp else now
  let messageId := if event.id = [] then newUUID else event.id
  let ct := contentType cd event.payload
  ({ contentType := ct
     messageId := messageId
     body := event.payload
     -- last, over a header of the event with this key
     headers := headers.insert (str "Content-Type") (cd.ofString ct)
     timestamp := t },
    event)

/-- The event that the loop of `Start` makes of a delivery; `fields` are the delivery's headers in the
    order in which the loop ranges over them. -/
def receiveEvent (cd : Codec V) (d : Publishing V) (fields : List (GoString × V)) : Event :=
  let headers : Option Header :=
    if fields.length > 0 then some (Header.setAll ∅ (fields.map (fun e => (e.1, cd.string e.2)))) else none
  { id := d.messageId, topic := [], timestamp := d.timestamp, headers := headers, payload := d.body }

/-! ## Channels -/

/-- The errors of the calls behind one channel; `queueBind` is the consumer's. -/
structure ChannelFaults (E : Type) where
  connect : Option E
  openChannel : Option E
  queueDeclare : Option E
  exchangeDeclare : Option E
  queueBind : Option E

def ChannelFaults.ok : ChannelFaults E := ⟨none, none, none, none, none⟩

abbrev Broker (O V : Type) := Amqp.Broker O (Publishing V)

/-- `RabbitMQClient`: its owner name, and the field `channel`. -/
structure RabbitMQClient (O : Type) where
  owner : O
  channel : Option ℕ

/-- `newRabbitMQClient` leaves `channel` unset. -/
def newRabbitMQClient (owner : O) : RabbitMQClient O := ⟨owner, none⟩

namespace RabbitMQClient

/-- `connect`: a connection from the pool. The pool's `New` opens a probe channel on each connection it makes and
    nobody closes it; that channel is the pool's, so it is not among those of a client. -/
def connect (fault : Option E) : Except (Err E) Unit :=
  match fault with
  | some err => .error (.wrapped "failed to get rabbitmq connection: %w" (.external (.refused err)))
  | none => .ok ()

/-- `getChannel` of the client. The channel is not kept in the client. -/
def getChannel (c : RabbitMQClient O) (faults : ChannelFaults E) (b : Broker O V) :
    Except (Err E) ℕ × Broker O V :=
  match connect faults.connect with
  | .error err => (.error (.wrapped "failed to get rabbitmq connection: %w" err), b)
  | .ok () =>
      match b.openChannel c.owner faults.openChannel with
      | (.error err, b) => (.error (.wrapped "failed to open a channel: %w" (.external (.refused err))), b)
      | (.ok channel, b) => (.ok channel, b)

/-- `Close`. -/
def close (c : RabbitMQClient O) (b : Broker O V) : RabbitMQClient O × Broker O V :=
  match c.channel with
  | some channel => ({ c with channel := none }, b.closeChannel channel)
  | none => (c, b)

end RabbitMQClient

/-- `getChannel`: a channel with the queue declared, or with the exchange. A channel is left open on the way
    out with an error, unless the broker closed it. -/
def getChannel (client : RabbitMQClient O) (cfg : RabbitMQConfig) (faults : ChannelFaults E)
    (b : Broker O V) : Except (Err E) (ℕ × Option GoString) × Broker O V :=
  match client.getChannel faults b with
  | (.error err, b) => (.error err, b)
  | (.ok channel, b) =>
      let (declared, b) :=
        if cfg.queueName = [] then (false, b)
        else
          match b.queueDeclare channel cfg.queueName faults.queueDeclare with
          | (none, b) => (true, b)
          | (some _, b) => (false, b)
      -- with a queue, the exchange is not declared
      if declared then (.ok (channel, some cfg.queueName), b)
      else
        let failed := "failed " ++ cfg.kind.text ++ " to declare an exchange: %w"
        match cfg.kind with
        | .unset => (.error (.text "kind is empty"), b)
        | .known kind =>
            match b.exchangeDeclare channel cfg.exchange kind faults.exchangeDeclare with
            | (some err, b) => (.error (.wrapped failed (.external err)), b)
            | (none, b) => (.ok (channel, none), b)
        | .other _ =>
            -- the broker knows no such kind
            match Amqp.Broker.call channel faults.exchangeDeclare (some .preconditionFailed) id b with
            | (some err, b) => (.error (.wrapped failed (.external err)), b)
            | (none, b) => (.ok (channel, none), b)

/-! ## Publisher -/

def maxRetries : ℤ := 3

structure RabbitMQPublisher (O : Type) where
  client : RabbitMQClient O
  cfg : RabbitMQConfig

/-- `NewRabbitMQPublisher`, when the client can be made. -/
def newRabbitMQPublisher (owner : O) (cfg : RabbitMQConfig) : Except (Err E) (RabbitMQPublisher O) :=
  match checkConfig (E := E) (some cfg) with
  | some err => .error err
  | none => .ok ⟨newRabbitMQClient owner, cfg⟩

/-- The errors of one `Publish`: of its channel, and of each attempt. -/
structure PublishFaults (E : Type) where
  channel : ChannelFaults E
  attempt : ℕ → Option E

def PublishFaults.ok : PublishFaults E := ⟨.ok, fun _ => none⟩

/-- What a call returns. -/
structure Ret (E : Type) where
  id : GoString
  err : Option (Err E)

/-- The loop over the attempts, from attempt `i`: whether one succeeded. -/
def attempts (channel : ℕ) (cfg : RabbitMQConfig) (msg : Publishing V) (refused : ℕ → Option E) :
    ℕ → ℕ → Broker O V → Bool × Broker O V
  | 0, _, b => (false, b)
  | n + 1, i, b =>
      match b.publish channel cfg.exchange cfg.routingKey msg (refused i) with
      | (none, b) => (true, b)
      | (some _, b) => attempts channel cfg msg refused n (i + 1) b

/-- `if p.cfg.PushRetryTimes <= 0 { p.cfg.PushRetryTimes = maxRetries }`. -/
def withRetryTimes (p : RabbitMQPublisher O) : RabbitMQPublisher O :=
  if p.cfg.pushRetryTimes ≤ 0 then { p with cfg.pushRetryTimes := maxRetries } else p

namespace RabbitMQPublisher

/-- `Publish`. -/
def publish (cd : Codec V) (now : ℤ) (newUUID : GoString) (event : Option Event)
    (faults : PublishFaults E) (p : RabbitMQPublisher O) (b : Broker O V) :
    Ret E × RabbitMQPublisher O × Broker O V :=
  match event with
  | none => (⟨[], some (.text "event is empty")⟩, p, b)
  | some event =>
      match Rabbitmq.getChannel p.client p.cfg faults.channel b with
      | (.error err, b) => (⟨event.id, some (.wrapped "failed to declare an exchange: %w" err)⟩, p, b)
      | (.ok (channel, _), b) =>
          let (msg, _) := getPublishMessage cd now newUUID event
          let p := withRetryTimes p
          match attempts channel p.cfg msg faults.attempt p.cfg.pushRetryTimes.toNat 0 b with
          | (true, b) => (⟨msg.messageId, none⟩, p, b)
          | (false, b) =>
              (⟨msg.messageId, some (.text "failed to publish message after 3 retries")⟩, p, b)

def close (p : RabbitMQPublisher O) (b : Broker O V) : RabbitMQPublisher O × Broker O V :=
  let (client, b) := p.client.close b
  ({ p with client := client }, b)

end RabbitMQPublisher

/-! ## Consumer -/

structure RabbitMQConsumer (O : Type) where
  client : RabbitMQClient O
  cfg : RabbitMQConfig

/-- `NewRabbitMQConsumer`, when the client can be made. -/
def newRabbitMQConsumer (owner : O) (cfg : RabbitMQConfig) : Except (Err E) (RabbitMQConsumer O) :=
  match checkConfig (E := E) (some cfg) with
  | some err => .error err
  | none => .ok ⟨newRabbitMQClient owner, cfg⟩

namespace RabbitMQConsumer

/-- `getChannel` of the consumer: the channel, nil or not, and the error. -/
def getChannel (c : RabbitMQConsumer O) (faults : ChannelFaults E) (b : Broker O V) :
    (Option ℕ × Option (Err E)) × Broker O V :=
  match Rabbitmq.getChannel c.client c.cfg faults b with
  | (.error err, b) => ((none, some err), b)
  | (.ok (channel, none), b) => ((some channel, none), b)
  | (.ok (channel, some queue), b) =>
      match b.queueBind channel ⟨queue, c.cfg.routingKey, c.cfg.exchange⟩ faults.queueBind with
      | (some err, b) => ((some channel, some (.wrapped "failed to bind a queue: %w" (.external err))), b)
      | (none, b) => ((some channel, none), b)

/-- `Start`, up to the two goroutines it starts: they get the channel. -/
def start (c : RabbitMQConsumer O) (faults : ChannelFaults E) (b : Broker O V) :
    Except (Err E) (Option ℕ) × Broker O V :=
  match c.getChannel faults b with
  | ((_, some err), b) => (.error err, b)
  | ((channel, none), b) => (.ok channel, b)

/-- How the loop of `Start` settles a delivery for which the handler returned `err`. -/
def settle {H : Type} (_ : Publishing V) (err : Option H) : List Delivery.Settlement :=
  match err with
  | none => [.ack]
  -- `Nack(false, true)`: back into the queue
  | some _ => [.nack true]

def close (c : RabbitMQConsumer O) (b : Broker O V) : RabbitMQConsumer O × Broker O V :=
  let (client, b) := c.client.close b
  ({ c with client := client }, b)

end RabbitMQConsumer

end Rabbitmq
end Mq
end ServiceKit
