import ServiceKit.Lib.ConcurrentMap
import ServiceKit.Lib.GoError
import ServiceKit.Lib.Run

/-!
# `Watermill.Basic` — what the three Channels share

`gochannel.Channel`, `grpcchannel.Channel` and `mysqlchannel.Channel` are near-copies: a registry of
handlers per topic, a retry count, an optional error handler, and one goroutine per subscription that
takes messages and hands them to the handlers. This file holds that common part. What a Channel keeps
beside it (its clients, connection, database) is its `backend`, a type parameter; so a function that
only touches the backend cannot touch the registry.

A handler is a name of type `H`: what it does is up to the environment (`Env`), whose answer may depend
on everything that happened on the subscription before. What a goroutine does is recorded as a trace of
`Event`s.
-/

namespace ServiceKit
namespace Watermill

open Lib

/-- A `*message.Message`: `ptr` is the pointer, the same before and after the payload is rewritten. -/
structure Message where
  ptr : ℕ
  uuid : GoString
  payload : GoString
  deriving DecidableEq

/-- `if msg.UUID == "" { msg.UUID = watermill.NewUUID() }`. -/
def Message.withUUID (newUUID : GoString) (msg : Message) : Message :=
  if msg.uuid = [] then { msg with uuid := newUUID } else msg

/-- What ends an operation without a return: the panics of a zero-value map and of a nil publisher,
    and the exit of the process by `log.Fatalf`. -/
inductive Stop where
  | nilShards
  | nilPublisher
  | fatal
  deriving DecidableEq

def Stop.isPanic : Stop → Bool
  | .nilShards | .nilPublisher => true
  | .fatal => false

/-- Use a map field: its zero value panics. -/
def useMap {κ ν : Type} : Option (ConcurrentMap κ ν) → Except Stop (ConcurrentMap κ ν)
  | some m => .ok m
  | none => .error .nilShards

@[simp] theorem useMap_some {κ ν : Type} (m : ConcurrentMap κ ν) : useMap (some m) = .ok m := rfl

theorem useMap_eq_ok {κ ν : Type} {f : Option (ConcurrentMap κ ν)} {m : ConcurrentMap κ ν} :
    useMap f = .ok m ↔ f = some m := by
  cases f with
  | none => exact ⟨nofun, nofun⟩
  | some m' =>
      constructor
      · intro h; exact congrArg some (Except.ok.inj h)
      · intro h; exact congrArg Except.ok (Option.some.inj h)

variable {B S H E X : Type}

/-! ## Events and the environment -/

/-- What a dispatch loop does. `X` is what its backend does on its behalf. -/
inductive Event (H E X : Type) where
  | take (msg : Message)
  | handle (handler : H) (messageId messageData : GoString) (err : Option E)
  | errorHandler (handler : ℕ) (msg : Message) (err : Option E)
  | backend (x : X)
  | ack (ptr : ℕ)
  deriving DecidableEq

abbrev Trace (H E X : Type) := List (Event H E X)

/-- The outcome of each call a loop makes, given all that the loop did before. A handler gets an id and data, and the
    error handler the message: neither changes the message, nor settles it. -/
structure Env (H E X : Type) where
  handler : Trace H E X → H → GoString → GoString → Option E
  errorHandler : Trace H E X → ℕ → Message → Option E

/-- Where a loop stands: its Channel's backend and the trace so far. -/
structure Progress (B H E X : Type) where
  backend : B
  trace : Trace H E X

def Progress.log (p : Progress B H E X) (e : Event H E X) : Progress B H E X :=
  { p with trace := p.trace ++ [e] }

@[simp] theorem Progress.log_backend (p : Progress B H E X) (e : Event H E X) :
    (p.log e).backend = p.backend := rfl
@[simp] theorem Progress.log_trace (p : Progress B H E X) (e : Event H E X) :
    (p.log e).trace = p.trace ++ [e] := rfl

/-- `handler(msg.UUID, string(msg.Payload))`. -/
def invoke (env : Env H E X) (handler : H) (msg : Message) (p : Progress B H E X) :
    Option E × Progress B H E X :=
  let err := env.handler p.trace handler msg.uuid msg.payload
  (err, p.log (.handle handler msg.uuid msg.payload err))

/-! ## Retrying and dispatching -/

/-- A `multierror`: the errors appended so far, flattened. -/
abbrev MultiErr (E : Type) := List E

/-- `multierror.Append(retError, err)`. -/
def appendErr (retError : Option (MultiErr E)) (err : MultiErr E) : Option (MultiErr E) :=
  some (retError.getD [] ++ err)

/-- The loop `for i := retryTimes; i > 0; i--`: `none` is the `return nil` of an attempt that succeeds,
    `some retError` the fall-through with the errors collected. -/
def retryLoop (env : Env H E X) (handler : H) (msg : Message) :
    ℕ → Option (MultiErr E) → Progress B H E X → Option (Option (MultiErr E)) × Progress B H E X
  | 0, retError, p => (some retError, p)
  | i + 1, retError, p =>
      match invoke env handler msg p with
      | (some err, p) => retryLoop env handler msg i (appendErr retError [err]) p
      -- the attempt succeeded
      | (none, p) => (none, p)

/-- `retryMessage`. `giveUp` is its last line: what becomes of the error when every retry failed and no
    error handler took the message. -/
def retryMessageWith (giveUp : MultiErr E → Progress B H E X → Option (MultiErr E) × Progress B H E X)
    (retryTimes : ℤ) (errorHandler : Option ℕ) (env : Env H E X) (msg : Message) (handler : H)
    (oldError : MultiErr E) (p : Progress B H E X) : Option (MultiErr E) × Progress B H E X :=
  -- without retries the error handler is not asked either
  if retryTimes ≤ 0 then (some oldError, p)
  else
    match retryLoop env handler msg retryTimes.toNat none p with
    | (none, p) => (none, p)
    -- `if retError == nil { return nil }`, which `retryTimes > 0` excludes
    | (some none, p) => (none, p)
    | (some (some retError), p) =>
        match errorHandler with
        | none => giveUp retError p
        | some eh =>
            let err := env.errorHandler p.trace eh msg
            let p := p.log (.errorHandler eh msg err)
            match err with
            | none => (none, p)
            | some _ => giveUp retError p

/-- `for _, handler := range allHandlers`: call each, retry the ones that fail, collect the errors. -/
def handleAll (retryMessage : H → MultiErr E → Progress B H E X → Option (MultiErr E) × Progress B H E X)
    (env : Env H E X) (msg : Message) :
    List H → Option (MultiErr E) → Progress B H E X → Option (MultiErr E) × Progress B H E X
  | [], retError, p => (retError, p)
  | handler :: rest, retError, p =>
      match invoke env handler msg p with
      | (none, p) => handleAll retryMessage env msg rest retError p
      | (some err, p) =>
          match retryMessage handler [err] p with
          | (none, p) => handleAll retryMessage env msg rest retError p
          | (some err, p) => handleAll retryMessage env msg rest (appendErr retError err) p

/-- The body of a `SubscribeNew` loop: one handler, retried, then `Ack` on every path. -/
def handleNew (retryMessage : H → MultiErr E → Progress B H E X → Option (MultiErr E) × Progress B H E X)
    (env : Env H E X) (msg : Message) (handler : H) (p : Progress B H E X) : Progress B H E X :=
  match invoke env handler msg p with
  | (none, p) => p.log (.ack msg.ptr)
  | (some err, p) =>
      match retryMessage handler [err] p with
      | (none, p) => p.log (.ack msg.ptr)
      | (some _, p) => p.log (.ack msg.ptr)

/-! ## Channels -/

/-- A goroutine started by `Subscribe` (`handler = none`: it dispatches to the registry of its topic) or
    by `SubscribeNew` (`handler = some h`), with the subscription it reads and what it did so far. -/
structure Loop (S H E X : Type) where
  source : S
  topic : GoString
  handler : Option H
  trace : Trace H E X
  deriving DecidableEq

/-- The fields the three `Channel` structs share, the rest of the struct as `backend`, and the
    goroutines started so far. -/
structure Channel (B S H E X : Type) where
  backend : B
  handlers : Option (ConcurrentMap GoString (List H))
  retryTimes : ℤ
  errorHandler : Option ℕ
  loops : List (Loop S H E X)

namespace Channel

/-- `Subscribe`, between `subsMu.Lock` and `Unlock`. `openSource` gets the subscription for the first
    handler of a topic. -/
def subscribeWith (openSource : B → Except Stop (Except (GoErr E) S × B)) (topic : GoString)
    (handler : H) (g : Channel B S H E X) : Except Stop (Option (GoErr E) × Channel B S H E X) := do
  let handlers ← useMap g.handlers
  match handlers.get topic with
  | some oldHandlers =>
      return (none, { g with handlers := some (handlers.set topic (oldHandlers ++ [handler])) })
  | none =>
      let (messages, backend) ← openSource g.backend
      match messages with
      | .error err => return (some err, { g with backend := backend })
      -- the registry is written only now
      | .ok messages =>
          return (none, { g with
            backend := backend
            handlers := some (handlers.set topic [handler])
            loops := g.loops ++ [⟨messages, topic, none, []⟩] })

/-- `SubscribeNew`: a subscription and a goroutine of its own, past the registry. -/
def subscribeNewWith (openSource : B → Except Stop (Except (GoErr E) S × B)) (topic : GoString)
    (handler : H) (g : Channel B S H E X) : Except Stop (Option (GoErr E) × Channel B S H E X) := do
  let (messages, backend) ← openSource g.backend
  match messages with
  | .error err => return (some err, { g with backend := backend })
  | .ok messages =>
      return (none, { g with
        backend := backend
        loops := g.loops ++ [⟨messages, topic, some handler, []⟩] })

/-- Loop `l` takes `msg` off its subscription and runs its body. -/
def deliverWith
    (body : Channel B S H E X → Loop S H E X → Progress B H E X → Except Stop (Progress B H E X))
    (l : ℕ) (msg : Message) (g : Channel B S H E X) : Except Stop (Channel B S H E X) :=
  match g.loops[l]? with
  | none => return g
  | some loop => do
      let p ← body g loop ⟨g.backend, loop.trace ++ [.take msg]⟩
      return { g with backend := p.backend, loops := g.loops.set l { loop with trace := p.trace } }

end Channel

end Watermill
end ServiceKit
