import ServiceKit.Mq.Basic

/-!
# `Mq.Rocketmq` — `mq/rocketmq.go`

The id of an event travels as the tag of a RocketMQ message, its headers, with the timestamp among them, as
the one key of the message.
-/

namespace ServiceKit
namespace Mq
namespace Rocketmq

open Lib

/-- What the code relies on of package `conv`: integers and headers come back from their texts. -/
structure Conv where
  ofInt : ℤ → GoString
  toInt : GoString → ℤ
  string : Header → GoString
  unmarshal : GoString → Header
  ofInt_ne_nil : ∀ n, ofInt n ≠ []
  toInt_ofInt : ∀ n, toInt (ofInt n) = n
  lookup_unmarshal : ∀ h key, (unmarshal (string h)).lookup key = h.lookup key

/-- `golang.Message`, and what a consumer gets of it. -/
structure Message where
  body : GoString
  tag : GoString
  topic : GoString
  keys : List GoString
  deriving DecidableEq

/-- The ids of a valid span context. -/
structure Span where
  traceId : GoString
  spanId : GoString
  deriving DecidableEq

variable {E : Type}

/-- What `Publish` returns, the event as it leaves it, and the message that was sent. -/
structure Published (E : Type) where
  id : GoString
  err : Option (GoErr E)
  event : Option Event
  sent : Option Message

/-- The headers with the ids of a valid span. -/
def traced (span : Option Span) (h : Header) : Header :=
  match span with
  | some span => (h.set (str "Trace-Id") span.traceId).set (str "Span-Id") span.spanId
  | none => h

/-- `Publish`, at time `now`, under the span of the context; `none` is a panic. -/
def publish (cv : Conv) (now : ℤ) (newUUID : GoString) (span : Option Span) (send : Option E)
    (event : Option Event) : Option (Published E) :=
  match event with
  | none => some ⟨[], some (.text "event is empty"), none, none⟩
  | some event =>
      if event.topic = [] then some ⟨[], some (.text "topic is empty"), some event, none⟩
      else
        let event :=
          { event with
            id := if event.id = [] then newUUID else event.id
            timestamp := if event.timestamp = 0 then now else event.timestamp }
        match event.headers with
        -- `Set` on a nil map
        | none => none
        | some h =>
            let h := h.set (str "Timestamp") (cv.ofInt event.timestamp)
            let msg : Message :=
              { body := event.payload, tag := event.id, topic := event.topic, keys := [cv.string h] }
            -- the message has its keys already
            let event := { event with headers := some (traced span h) }
            match send with
            | some err =>
                some ⟨[], some (.wrapped "failed to publish message %v" (.external err)), some event, none⟩
            | none => some ⟨event.id, none, some event, some msg⟩

/-- The event that the listener of `Start` hands to the handler. -/
def receive (cv : Conv) (mv : Message) : Event :=
  let header : Header :=
    match mv.keys with
    | [key] => cv.unmarshal key
    | _ => ∅
  let timestamp : ℤ :=
    match mv.keys with
    | [_] => if header.get (str "Timestamp") ≠ [] then cv.toInt (header.get (str "Timestamp")) else 0
    | _ => 0
  { id := mv.tag, topic := mv.topic, timestamp := timestamp, headers := some header, payload := mv.body }

end Rocketmq
end Mq
end ServiceKit
