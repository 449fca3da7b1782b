import ServiceKit.Lib.Interaction
import ServiceKit.Rabbitmq.Consumer

/-!
# `Rabbitmq.Producer` — `rabbitmq/producer.go`

`commPushMessage` opens a channel, declares an exchange or a queue on it and publishes one message; the channel is
closed by a deferred call. The calls on the broker are those of a `Program`, so that what is called is said beside what
is returned; `startConsumer` is given in the same form. A `*amqp.Channel` is a `Chan`, whose `none` is nil.
-/

namespace ServiceKit
namespace Rabbitmq

open Lib

abbrev Chan := Option ℕ

/-- The fields of `amqp.Publishing` that are set. -/
structure Publishing where
  contentType : GoString
  deliveryMode : ℕ
  messageId : GoString
  body : GoString
  deriving DecidableEq

/-- The methods of the amqp library that the package calls. -/
inductive Call where
  | channel
  | qos (ch : Chan) (prefetchCount prefetchSize : ℕ) (isGlobal : Bool)
  | exchangeDeclare (ch : Chan) (name kind : GoString) (durable autoDelete internal noWait : Bool)
  | queueDeclare (ch : Chan) (name : GoString) (durable autoDelete exclusive noWait : Bool)
  | publish (ch : Chan) (exchange key : GoString) (mandatory immediate : Bool) (msg : Publishing)
  | close (ch : Chan)
  deriving DecidableEq

variable {E : Type}

/-- What a method returns: a channel or an error, or an error alone. -/
abbrev Reply (E : Type) : Call → Type
  | .channel => Except E ℕ
  | .qos .. => Option E
  | .exchangeDeclare .. => Option E
  | .queueDeclare .. => Option E
  | .publish .. => Option E
  | .close _ => Option E

abbrev Calls (E α : Type) := Program Call (Reply E) α

/-! ## The library's methods -/

abbrev openChannel : Calls E (Except E ℕ) := Program.perform Call.channel

abbrev qos (ch : Chan) (prefetchCount prefetchSize : ℕ) (isGlobal : Bool) : Calls E (Option E) :=
  Program.perform (Call.qos ch prefetchCount prefetchSize isGlobal)

abbrev exchangeDeclare (ch : Chan) (name kind : GoString) (durable autoDelete internal noWait : Bool) :
    Calls E (Option E) :=
  Program.perform (Call.exchangeDeclare ch name kind durable autoDelete internal noWait)

abbrev queueDeclare (ch : Chan) (name : GoString) (durable autoDelete exclusive noWait : Bool) : Calls E (Option E) :=
  Program.perform (Call.queueDeclare ch name durable autoDelete exclusive noWait)

abbrev publish (ch : Chan) (exchange key : GoString) (mandatory immediate : Bool) (msg : Publishing) :
    Calls E (Option E) :=
  Program.perform (Call.publish ch exchange key mandatory immediate msg)

abbrev close (ch : Chan) : Calls E (Option E) := Program.perform (Call.close ch)

/-! ## `producer.go` -/

structure ProducerOption where
  queueName : GoString
  messageId : GoString
  content : GoString
  exchange : GoString
  kind : GoString

/-- How a call that pushes a message ends. -/
inductive Pushed (E : Type) where
  /-- A method was called on a nil channel. -/
  | panicked
  | returned (messageId : GoString) (err : Option (GoErr E))

/-- `amqp.Persistent`. -/
def persistent : ℕ := 2

namespace RabbitClient

/-- `return ret`, past a deferred `ch.Close()`. -/
def closing (ch : Chan) (ret : Pushed E) : Calls E (Pushed E) := do
  let _ ← close ch
  match ch with
  | some _ => pure ret
  | none => pure .panicked

/-- The message that is published. -/
def publishing (isJson : GoString → Bool) (newUUID : GoString) (opt : ProducerOption) : Publishing :=
  { contentType := if isJson opt.content then str "application/json" else str "text/plain"
    deliveryMode := persistent
    messageId := if opt.messageId = [] then newUUID else opt.messageId
    body := opt.content }

/-- The exchange is declared where one is named with its kind, the queue elsewhere. -/
def declare (ch : Chan) (opt : ProducerOption) : Calls E (Option E) :=
  if opt.kind ≠ [] ∧ opt.exchange ≠ [] then
    exchangeDeclare ch opt.exchange opt.kind true false false false
  else queueDeclare ch opt.queueName true false false false

/-- `commPushMessage`, once the queue is declared. -/
def publishOn (isJson : GoString → Bool) (newUUID : GoString) (opt : ProducerOption) (ch : Chan) :
    Calls E (Pushed E) := do
  let config := publishing isJson newUUID opt
  match ← publish ch opt.exchange opt.queueName false false config with
  | some err => closing ch (.returned [] (some (.external err)))
  | none => closing ch (.returned config.messageId none)

/-- `commPushMessage`, once the declaration has returned. -/
def declared (isJson : GoString → Bool) (newUUID : GoString) (opt : ProducerOption) (ch : Chan) :
    Option E → Calls E (Pushed E)
  | some err => closing ch (.returned [] (some (.wrapped "producer无法声明队列: %w" (.external err))))
  | none => publishOn isJson newUUID opt ch

/-- `commPushMessage`, once the channel is open. -/
def pushOn (isJson : GoString → Bool) (newUUID : GoString) (opt : ProducerOption) (ch : Chan) :
    Calls E (Pushed E) := do
  let err ← declare ch opt
  declared isJson newUUID opt ch err

/-- `commPushMessage`; `connected` is whether `r.client` is set, `isJson` is `cond.IsJson` and `newUUID` what
    `uuid.NewString` returns. -/
def commPushMessage (isJson : GoString → Bool) (newUUID : GoString) (connected : Bool) (opt : ProducerOption) :
    Calls E (Pushed E) :=
  if opt.queueName = [] then pure (.returned [] (some (.text "ProduceMessage param error")))
  else if opt.content = [] then pure (.returned [] none)
  else if !connected then pure (.returned [] (some (.text "r.client is nil")))
  else do
    match ← openChannel with
    -- the close is deferred before the error is looked at
    | .error err => closing none (.returned [] (some (.external err)))
    | .ok ch => pushOn isJson newUUID opt (some ch)

def produceMessage (isJson : GoString → Bool) (newUUID : GoString) (connected : Bool) :
    Option ProducerOption → Calls E (Pushed E)
  | none => pure (.returned [] (some (.text "opt param error")))
  | some opt => commPushMessage isJson newUUID connected { opt with exchange := [], kind := [] }

def produceMessageWithExchange (isJson : GoString → Bool) (newUUID : GoString) (connected : Bool) :
    Option ProducerOption → Calls E (Pushed E)
  | none => pure (.returned [] (some (.text "opt param error")))
  | some opt =>
      commPushMessage isJson newUUID connected (if opt.kind = [] then { opt with kind := str "direct" } else opt)

/-- The calls of `StartConsumer`, up to its goroutine. -/
def startConsumerCalls : Calls E (Started E) := do
  match ← openChannel with
  | .error _ =>
      let _ ← close none
      pure .panicked
  | .ok ch =>
      match ← qos (some ch) prefetchCount 0 false with
      | some err =>
          let _ ← close (some ch)
          pure (.failed ch (.wrapped "设置 QoS 失败, %w" (.external err)))
      | none => pure (.running ch prefetchCount)

end RabbitClient

end Rabbitmq
end ServiceKit
