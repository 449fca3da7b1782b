import ServiceKit.Lib.Run
import ServiceKit.Mq.Rabbitmq

/-!
# `Mq.Recovery` — the two goroutines of `rabbitMQConsumer.Start`

One goroutine receives from the Go channel that `NotifyClose` registered on the first channel, the other
asks for the messages of the queue and ranges over them. Both set the variable `channel` to what
`getChannel` returns, and drop its error. An iteration of a loop is one step; the channel may be closed
between any two.
-/

namespace ServiceKit
namespace Mq
namespace Rabbitmq

open Lib

variable {O V E : Type}

/-- What a receive from the Go channel `closeChan` meets. -/
inductive CloseChan where
  /-- It blocks. -/
  | quiet
  /-- It gets the error, and the Go channel is closed after it. -/
  | sent
  /-- It gets nil, again and again. -/
  | closed
  deriving DecidableEq

/-- Where the second goroutine is: before `Consume`, in the range over the messages of a channel, or gone
    with a nil channel. -/
inductive ConsumeLoop where
  | top
  | ranging (channel : ℕ)
  | panicked
  deriving DecidableEq

/-- The state of the goroutines, and the number of channel closures so far. -/
structure Goroutines (O V : Type) where
  consumer : RabbitMQConsumer O
  broker : Broker O V
  /-- The variable `channel`. -/
  channel : Option ℕ
  /-- The channel on which `NotifyClose` was called. -/
  watched : ℕ
  closeChan : CloseChan
  loop : ConsumeLoop
  closures : ℕ

/-- The state in which `Start` returns, with channel `channel`. -/
def Goroutines.init (c : RabbitMQConsumer O) (channel : ℕ) (b : Broker O V) : Goroutines O V :=
  { consumer := c
    broker := b
    channel := some channel
    watched := channel
    closeChan := .quiet
    loop := .top
    closures := 0 }

namespace Goroutines

/-- An open channel is closed; its owner may get an error over `closeChan`. -/
def lose (s : Goroutines O V) (channel : ℕ) (sends : Bool) : Goroutines O V :=
  { s with
    broker := s.broker.closeChannel channel
    closeChan := if channel = s.watched then (if sends then .sent else .closed) else s.closeChan
    closures := s.closures + 1 }

/-- `channel, _ = c.getChannel()`. -/
def reopen (s : Goroutines O V) (faults : ChannelFaults E) : Goroutines O V :=
  { s with
    channel := (s.consumer.getChannel faults s.broker).1.1
    broker := (s.consumer.getChannel faults s.broker).2 }

/-- `case err := <-closeChan`. -/
def received (s : Goroutines O V) (faults : ChannelFaults E) : Goroutines O V :=
  { s.reopen faults with closeChan := .closed }

/-- An event: a channel is closed, or an iteration of one of the loops. -/
inductive Event (E : Type) where
  | close (channel : ℕ) (sends : Bool)
  | watch (faults : ChannelFaults E)
  | consume (refused : Option E) (faults : ChannelFaults E)
  | drained

inductive Step : Goroutines O V → Event E → Goroutines O V → Prop where
  | close {s channel} (sends : Bool) (hopen : s.broker.isOpen channel = true) :
      Step s (.close channel sends) (s.lose channel sends)
  | watch {s} (faults : ChannelFaults E) (hready : s.closeChan ≠ .quiet) :
      Step s (.watch faults) (s.received faults)
  | consumeNil {s} (refused : Option E) (faults : ChannelFaults E) (htop : s.loop = .top)
      (hnil : s.channel = none) :
      Step s (.consume refused faults) { s with loop := .panicked }
  | consume {s channel} (refused : Option E) (faults : ChannelFaults E) (htop : s.loop = .top)
      (hch : s.channel = some channel)
      (hok : (s.broker.consume channel s.consumer.cfg.queueName refused).1 = none) :
      Step s (.consume refused faults) { s with loop := .ranging channel }
  /-- The broker refuses, and closes the channel with it. -/
  | consumeRefused {s channel err} (refused : Option E) (faults : ChannelFaults E) (htop : s.loop = .top)
      (hch : s.channel = some channel) (hopen : s.broker.isOpen channel = true)
      (herr : (s.broker.consume channel s.consumer.cfg.queueName refused).1 = some err) :
      Step s (.consume refused faults) ((s.lose channel true).reopen faults)
  | consumeClosed {s channel} (refused : Option E) (faults : ChannelFaults E) (htop : s.loop = .top)
      (hch : s.channel = some channel) (hclosed : s.broker.isOpen channel = false) :
      Step s (.consume refused faults) (s.reopen faults)
  /-- The messages of a closed channel come to an end. -/
  | drained {s channel} (hloop : s.loop = .ranging channel) (hclosed : s.broker.isOpen channel = false) :
      Step s .drained { s with loop := .top }

end Goroutines

end Rabbitmq
end Mq
end ServiceKit
