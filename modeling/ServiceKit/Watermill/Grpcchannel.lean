import ServiceKit.Watermill.PubSubServer

/-!
# `Watermill.Grpcchannel` — `grpcchannel/pubsub.go`

The client side: a Channel over one gRPC connection, with a stream of its own for the first handler of
each topic. A stream is the number of its opening; `streams` lists, per stream, the requests whose `Send`
returned nil. Outcomes of the gRPC library are part of a step (`SubscribeFaults`, `publish`'s `fault`): a
subscribe request that cannot be marshalled is one whose `Send` fails. In `publish` the model makes that
check itself: a proto3 string must be valid UTF-8.
-/

namespace ServiceKit
namespace Watermill
namespace Grpcchannel

open Lib

/-- `utf8.Valid`. -/
def validUTF8 (s : GoString) : Bool := decide (ByteArray.IsValidUTF8 ⟨⟨s⟩⟩)

/-- The string fields of a message can be marshalled. -/
def PbMessage.marshals (m : PbMessage) : Bool :=
  validUTF8 m.nameSpace && validUTF8 m.topic && validUTF8 m.messageId && validUTF8 m.messageContent

structure Backend where
  hostAddress : GoString
  server : Bool
  serverAddress : GoString
  connServer : Bool
  nameSpace : GoString
  streams : List (List SubscribeRequest)

variable {H E : Type}

abbrev Chan (H E : Type) := Channel Backend ℕ H E Empty

/-- The exported fields of the `*Channel` that `New` reads. -/
structure NewConfig where
  hostAddress : GoString
  serverAddress : GoString
  nameSpace : GoString

/-- What `New` sets. -/
def newWith (cfg : NewConfig) : Chan H E :=
  { backend :=
      { hostAddress := cfg.hostAddress, server := false, serverAddress := cfg.serverAddress,
        connServer := false, nameSpace := cfg.nameSpace, streams := [] }
    handlers := some .new
    retryTimes := 3
    errorHandler := none
    loops := [] }

def new (cfg : NewConfig) : Except (GoErr E) (Chan H E) :=
  if cfg.hostAddress = [] ∨ cfg.serverAddress = [] then
    .error (.text "hostAddress or serverAddress error")
  else .ok (newWith cfg)

/-- `StartServe`; `fault` is the error of `startService`, which exits the process on one. -/
def startServe (fault : Option E) (g : Chan H E) : Except Stop (Option (GoErr E) × Chan H E) :=
  if g.backend.hostAddress = [] then return (some (.text "HostAddress error"), g)
  else if g.backend.server then return (none, g)
  else
    match fault with
    | some _ => .error .fatal
    | none => return (none, { g with backend.server := true })

/-- `getConnServer`; `fault` is the error of `grpc.NewClient`, if any: it is logged with
    `log.Fatalf`, which exits. -/
def getConnServer (fault : Option E) (g : Backend) : Except Stop (Except (GoErr E) Unit × Backend) :=
  if g.serverAddress = [] then return (.error (.text "ServerAddress error"), g)
  else if g.connServer then return (.ok (), g)
  else
    match fault with
    | some _ => .error .fatal
    | none => return (.ok (), { g with connServer := true })

/-- `getClient`. A connection that `getConnServer` returns without an error is not nil. -/
def getClient (fault : Option E) (g : Backend) : Except Stop (Except (GoErr E) Unit × Backend) :=
  getConnServer fault g

/-- The errors of `grpc.NewClient`, `client.Subscribe` and `stream.Send` in one `Subscribe` call. -/
structure SubscribeFaults (E : Type) where
  newClient : Option E
  subscribe : Option E
  send : Option E

def SubscribeFaults.ok : SubscribeFaults E := ⟨none, none, none⟩

/-- Open a stream and send the subscribe request for the topic on it. -/
def openSource (topic : GoString) (faults : SubscribeFaults E) (g : Backend) :
    Except Stop (Except (GoErr E) ℕ × Backend) := do
  let (client, g) ← getClient faults.newClient g
  match client with
  | .error err => return (.error err, g)
  | .ok () =>
      match faults.subscribe with
      | some err => return (.error (.wrapped "订阅失败: %v" (.external err)), g)
      | none =>
          -- the stream stays open, also when the request does not get out
          let stream := g.streams.length
          match faults.send with
          | some err =>
              return (.error (.wrapped "发送订阅请求失败: %v" (.external err)),
                { g with streams := g.streams ++ [[]] })
          | none =>
              return (.ok stream, { g with streams := g.streams ++ [[⟨g.nameSpace, topic⟩]] })

def subscribe (topic : GoString) (handler : H) (faults : SubscribeFaults E) (g : Chan H E) :
    Except Stop (Option (GoErr E) × Chan H E) :=
  Channel.subscribeWith (openSource topic faults) topic handler g

/-- What a call returns; `sent` is the request that the server received. -/
structure Ret (E : Type) where
  id : GoString
  err : Option (GoErr E)
  sent : Option PbMessage

def Ret.ofErr (err : Option (GoErr E)) : Ret E := ⟨[], err, none⟩

/-- `Publish`; `fault` is the error of the call for any reason but marshalling. -/
def publish (topic : GoString) (msg : Option Message) (newUUID : GoString) (newClient fault : Option E)
    (g : Chan H E) : Except Stop (Ret E × Chan H E) :=
  match msg with
  | none => return (.ofErr none, g)
  | some msg => do
      let (client, backend) ← getClient newClient g.backend
      let g := { g with backend := backend }
      match client with
      | .error err => return (.ofErr (some err), g)
      | .ok () =>
          let msg := msg.withUUID newUUID
          let req : PbMessage :=
            { nameSpace := g.backend.nameSpace, topic := topic, messageId := msg.uuid,
              messageContent := msg.payload }
          if req.marshals then
            match fault with
            | some err => return (.ofErr (some (.external err)), g)
            | none => return (⟨msg.uuid, none, some req⟩, g)
          else return (.ofErr (some (.text "string field contains invalid UTF-8")), g)

/-- The message that the receive loop makes of a `SubscribeResponse`. -/
def recvMessage (ptr : ℕ) (res : PbMessage) : Message := ⟨ptr, res.messageId, res.messageContent⟩

/-- `retryMessage`: when all failed, the errors of the retries. -/
def retryMessage (g : Chan H E) (env : Env H E Empty) (msg : Message) (handler : H)
    (oldError : MultiErr E) (p : Progress Backend H E Empty) :
    Option (MultiErr E) × Progress Backend H E Empty :=
  retryMessageWith (fun retError p => (some retError, p)) g.retryTimes g.errorHandler env msg handler
    oldError p

def dispatchMessages (g : Chan H E) (env : Env H E Empty) (topic : GoString) (msg : Message)
    (p : Progress Backend H E Empty) : Except Stop (Progress Backend H E Empty) := do
  let handlers ← useMap g.handlers
  match handlers.get topic with
  | none => return p
  | some allHandlers =>
      match handleAll (retryMessage g env msg) env msg allHandlers none p with
      | (some _, p) => return p.log (.ack msg.ptr)
      | (none, p) => return p.log (.ack msg.ptr)

/-- The body of the receive loop once `stream.Recv` returned a message. A `Recv` error is logged and the
    loop goes on, which changes nothing here. There is no `SubscribeNew`. -/
def loopBody (env : Env H E Empty) (msg : Message) (g : Chan H E) (loop : Loop ℕ H E Empty)
    (p : Progress Backend H E Empty) : Except Stop (Progress Backend H E Empty) :=
  dispatchMessages g env loop.topic msg p

/-- What `stream.Recv` returns; a message comes with the answers of the handlers, and with none where one of them panics
    or never returns. -/
inductive Recv (H E : Type) where
  | failed (err : E)
  | message (ptr : ℕ) (res : PbMessage) (env : Option (Env H E Empty))

/-- One iteration of the receive loop on the Channel as it is then; `none` where the goroutine gets no further. -/
def receive (g : Chan H E) (recv : Recv H E) (loop : Loop ℕ H E Empty) : Option (Loop ℕ H E Empty) :=
  match recv with
  | .failed _ => some loop
  | .message _ _ none => none
  | .message ptr res (some env) =>
      let msg := recvMessage ptr res
      match loopBody env msg g loop ⟨g.backend, loop.trace ++ [.take msg]⟩ with
      | .error _ => none
      | .ok p => some { loop with trace := p.trace }

inductive Op (H E : Type) where
  | withRetryTimes (retryTimes : ℤ)
  | withNamespace (ns : GoString)
  | withErrorHandler (handler : Option ℕ)
  | startServe (fault : Option E)
  | publish (topic : GoString) (msg : Option Message) (newUUID : GoString) (newClient fault : Option E)
  | subscribe (topic : GoString) (handler : H) (faults : SubscribeFaults E)
  | close
  | deliver (l : ℕ) (msg : Message) (env : Env H E Empty)

/-- `Close` stops the server and closes the connection if there are any; the fields stay set. -/
def step (g : Chan H E) : Op H E → Except Stop (Ret E × Chan H E)
  | .withRetryTimes n => return (.ofErr none, { g with retryTimes := n })
  | .withNamespace ns => return (.ofErr none, { g with backend.nameSpace := ns })
  | .withErrorHandler handler => return (.ofErr none, { g with errorHandler := handler })
  | .startServe fault => do
      let (err, g) ← startServe fault g
      return (.ofErr err, g)
  | .publish topic msg newUUID newClient fault => publish topic msg newUUID newClient fault g
  | .subscribe topic handler faults => do
      let (err, g) ← subscribe topic handler faults g
      return (.ofErr err, g)
  | .close => return (.ofErr none, g)
  | .deliver l msg env => do
      let g ← Channel.deliverWith (loopBody env msg) l msg g
      return (.ofErr none, g)

/-- A step, labelled with the call and what it returns. -/
def Step (g : Chan H E) (l : Op H E × Ret E) (g' : Chan H E) : Prop := step g l.1 = .ok (l.2, g')

end Grpcchannel
end Watermill
end ServiceKit
