import ServiceKit.Lib.Delivery
import ServiceKit.Lib.GoError

/-!
# `Rabbitmq.Consumer` — `rabbitmq/consumer.go`

`StartConsumer` opens a channel, asks for a window of one delivery, and starts the loop that hands the
deliveries to the handler.
-/

namespace ServiceKit
namespace Rabbitmq

open Lib

/-- What the loop reads of a delivery, and hands to the handler. -/
structure Delivery where
  messageId : GoString
  body : GoString
  deriving DecidableEq

/-- How `StartConsumer` ends. -/
inductive Started (E : Type) where
  /-- `Close` was called on a nil channel. -/
  | panicked
  /-- An error was returned, and the channel closed. -/
  | failed (channel : ℕ) (err : GoErr E)
  /-- The loop was started, with a window of `prefetch` deliveries. -/
  | running (channel : ℕ) (prefetch : ℕ)

/-- The window that `Qos` asks for. -/
def prefetchCount : ℕ := 1

namespace RabbitClient

variable {E H : Type}

/-- `StartConsumer`, up to its goroutine; `channel` is what `client.Channel()` returns, `qos` the error of
    `Qos`. -/
def startConsumer (channel : Except E ℕ) (qos : Option E) : Started E :=
  match channel with
  -- the deferred call is made with the nil channel of the error
  | .error _ => .panicked
  | .ok ch =>
      match qos with
      | some err => .failed ch (.wrapped "设置 QoS 失败, %w" (.external err))
      | none => .running ch prefetchCount

/-- How the loop settles a delivery for which the handler returned `err`: only a success is acknowledged. -/
def settle (_ : Delivery) (err : Option H) : List Delivery.Settlement :=
  match err with
  | none => [.ack]
  | some _ => []

/-- What `ch.Consume` gives the loop: an error, or the deliveries up to the close of their channel with what the handler
    returned for each. Where a handler panics, or the deliveries never end, they are not `closed`. -/
inductive Consumed (E H : Type) where
  | failed (err : E)
  | deliveries (handled : List (Delivery × Option H)) (closed : Bool)

/-- The goroutine of `StartConsumer`: its channel, and what it settled. -/
structure Consumer where
  ch : ℕ
  settled : List (Delivery × Delivery.Settlement)

/-- One iteration of the goroutine; `none` where it gets no further. -/
def consume (consumed : Consumed E H) (c : Consumer) : Option Consumer :=
  match consumed with
  | .failed _ => some c
  | .deliveries handled closed =>
      if closed then
        some { c with settled := c.settled ++ handled.flatMap fun (d, err) => (settle d err).map fun s => (d, s) }
      else none

end RabbitClient

end Rabbitmq
end ServiceKit
