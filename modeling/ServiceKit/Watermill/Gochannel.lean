import ServiceKit.Watermill.Basic

/-!
# `Watermill.Gochannel` — `gochannel/pubsub.go`

A Channel over in-process `GoChannel`s, one per namespace, made on first use by `getClient`. A `GoChannel`
is watermill's: here it is the number of its creation, and what the Channel relies on is only which one a
call uses. `returned` lists what `getClient` returned so far.

A step of the Channel is one call on it, or one message taken by one of its goroutines (`Op`). The
outcome of a call on the `GoChannel` is part of the step: `fault` is the error it returned.
-/

namespace ServiceKit
namespace Watermill
namespace Gochannel

open Lib

/-- watermill's `gochannel.Config`. -/
structure Config where
  persistent : Bool
  blockPublishUntilSubscriberAck : Bool
  preserveContext : Bool
  outputChannelBuffer : ℤ
  deriving DecidableEq

structure Backend where
  clientMap : Option (ConcurrentMap GoString ℕ)
  nameSpace : GoString
  outputChannelBuffer : ℤ
  consumerGroup : GoString
  clients : List Config
  returned : List ℕ

variable {H E : Type}

abbrev Chan (H E : Type) := Channel Backend ℕ H E Empty

/-- `New`. It makes no `clientMap`. -/
def new : Chan H E where
  backend :=
    { clientMap := none, nameSpace := [], outputChannelBuffer := 0, consumerGroup := [], clients := [],
      returned := [] }
  handlers := some .new
  retryTimes := 3
  errorHandler := none
  loops := []

/-- `New`, with the `clientMap` it leaves out. -/
def newWithMap : Chan H E := { new with backend.clientMap := some .new }

/-- `if g.namespace == "" { g.namespace = "default" }`. -/
def defaultNamespace (g : Backend) : Backend :=
  if g.nameSpace = [] then { g with nameSpace := str "default" } else g

/-- `if g.outputChannelBuffer <= 0 { g.outputChannelBuffer = 100 }`. -/
def defaultBuffer (g : Backend) : Backend :=
  if g.outputChannelBuffer ≤ 0 then { g with outputChannelBuffer := 100 } else g

/-- `getClient`. The argument was read from `g.namespace` before the body rewrites that field. -/
def getClient (nameSpace : GoString) (g : Backend) : Except Stop (ℕ × Backend) := do
  let g := defaultNamespace g
  let nameSpace := if nameSpace = [] then g.consumerGroup else nameSpace
  let clientMap ← useMap g.clientMap
  match clientMap.get nameSpace with
  | some sub => return (sub, { g with returned := g.returned ++ [sub] })
  | none =>
      -- only the buffer size of a new client is defaulted
      let g := defaultBuffer g
      let client := g.clients.length
      return (client, { g with
        clients := g.clients ++ [⟨false, false, true, g.outputChannelBuffer⟩]
        clientMap := some (clientMap.set nameSpace client)
        returned := g.returned ++ [client] })

/-- `g.getClient(g.namespace).Subscribe(..)`. -/
def openSource (fault : Option E) (g : Backend) : Except Stop (Except (GoErr E) ℕ × Backend) := do
  let (client, g) ← getClient g.nameSpace g
  match fault with
  | some err => return (.error (.external err), g)
  | none => return (.ok client, g)

/-- What a call returns; `sent` is a publication that was made: the `GoChannel`, topic and message. -/
structure Ret (E : Type) where
  id : GoString
  err : Option (GoErr E)
  sent : Option (ℕ × GoString × Message)

def Ret.ofErr (err : Option (GoErr E)) : Ret E := ⟨[], err, none⟩

def publish (topic : GoString) (msg : Option Message) (newUUID : GoString) (fault : Option E)
    (g : Chan H E) : Except Stop (Ret E × Chan H E) :=
  match msg with
  | none => return (.ofErr none, g)
  | some msg => do
      let msg := msg.withUUID newUUID
      let (client, backend) ← getClient g.backend.nameSpace g.backend
      let g := { g with backend := backend }
      match fault with
      | some err => return (.ofErr (some (.external err)), g)
      | none => return (⟨msg.uuid, none, some (client, topic, msg)⟩, g)

def subscribe (topic : GoString) (handler : H) (fault : Option E) (g : Chan H E) :
    Except Stop (Option (GoErr E) × Chan H E) :=
  Channel.subscribeWith (openSource fault) topic handler g

def subscribeNew (topic : GoString) (handler : H) (fault : Option E) (g : Chan H E) :
    Except Stop (Option (GoErr E) × Chan H E) :=
  Channel.subscribeNewWith (openSource fault) topic handler g

/-- `Close` closes every client of the map. -/
def close (g : Chan H E) : Except Stop (Chan H E) := do
  let _ ← useMap g.backend.clientMap
  return g

/-- `retryMessage`: when all failed, the errors of the retries. -/
def retryMessage (g : Chan H E) (env : Env H E Empty) (msg : Message) (handler : H)
    (oldError : MultiErr E) (p : Progress Backend H E Empty) :
    Option (MultiErr E) × Progress Backend H E Empty :=
  retryMessageWith (fun retError p => (some retError, p)) g.retryTimes g.errorHandler env msg handler
    oldError p

def dispatchMessages (g : Chan H E) (env : Env H E Empty) (topic : GoString) (msg : Message)
    (p : Progress Backend H E Empty) : Except Stop (Progress Backend H E Empty) := do
  let handlers ← useMap g.handlers
  match handlers.get topic with
  | none => return p
  | some allHandlers =>
      -- the errors of the handlers are only logged
      let (_, p) := handleAll (retryMessage g env msg) env msg allHandlers none p
      return p.log (.ack msg.ptr)

/-- The body of the loops that `Subscribe` and `SubscribeNew` start. -/
def loopBody (env : Env H E Empty) (msg : Message) (g : Chan H E) (loop : Loop ℕ H E Empty)
    (p : Progress Backend H E Empty) : Except Stop (Progress Backend H E Empty) :=
  match loop.handler with
  | none => dispatchMessages g env loop.topic msg p
  | some handler => return handleNew (retryMessage g env msg) env msg handler p

inductive Op (H E : Type) where
  | withNamespace (ns : GoString)
  | withChannelBuffer (outputChannelBuffer : ℤ)
  | withRetryTimes (retryTimes : ℤ)
  | withErrorHandler (handler : Option ℕ)
  | publish (topic : GoString) (msg : Option Message) (newUUID : GoString) (fault : Option E)
  | subscribe (topic : GoString) (handler : H) (fault : Option E)
  | subscribeNew (topic : GoString) (handler : H) (fault : Option E)
  | close
  | deliver (l : ℕ) (msg : Message) (env : Env H E Empty)

def step (g : Chan H E) : Op H E → Except Stop (Ret E × Chan H E)
  | .withNamespace ns => return (.ofErr none, { g with backend.nameSpace := ns })
  | .withChannelBuffer n => return (.ofErr none, { g with backend.outputChannelBuffer := n })
  | .withRetryTimes n => return (.ofErr none, { g with retryTimes := n })
  | .withErrorHandler handler => return (.ofErr none, { g with errorHandler := handler })
  | .publish topic msg newUUID fault => publish topic msg newUUID fault g
  | .subscribe topic handler fault => do
      let (err, g) ← subscribe topic handler fault g
      return (.ofErr err, g)
  | .subscribeNew topic handler fault => do
      let (err, g) ← subscribeNew topic handler fault g
      return (.ofErr err, g)
  | .close => do
      let g ← close g
      return (.ofErr none, g)
  | .deliver l msg env => do
      let g ← Channel.deliverWith (loopBody env msg) l msg g
      return (.ofErr none, g)

/-- A step, labelled with the call and what it returns. -/
def Step (g : Chan H E) (l : Op H E × Ret E) (g' : Chan H E) : Prop := step g l.1 = .ok (l.2, g')

end Gochannel
end Watermill
end ServiceKit
