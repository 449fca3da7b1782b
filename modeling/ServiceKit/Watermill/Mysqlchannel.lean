import ServiceKit.Lib.Base64
import ServiceKit.Watermill.Basic

/-!
# `Watermill.Mysqlchannel` — `mysqlchannel/pubsub.go`

A Channel over watermill's SQL publisher and subscribers, with a table per namespace and topic. The
payload is stored as the JSON of a `CommResponse` whose `Data` is the base64 of the bytes; a message that
exhausts its retries goes to the `mysqlretry` service.

Outside this repository are the SQL library, `mysqlretry` and the `conv` codec. The outcomes of the
first two are part of a step; the codec is a parameter (`Conv`).
-/

namespace ServiceKit
namespace Watermill
namespace Mysqlchannel

open Lib

/-! ## The payload -/

/-- The fields of `httputil.CommResponse` used here. `V` is what an `interface{}` holds. -/
structure CommResponse (V : Type) where
  message : GoString
  data : V

/-- The `conv` codec: a string as an interface value, `conv.String` of an interface value and of a
    `CommResponse`, and what `conv.Unmarshal` leaves in a new `CommResponse`, whatever it returns. -/
structure Conv (V : Type) where
  ofString : GoString → V
  string : V → GoString
  respString : CommResponse V → GoString
  unmarshal : GoString → CommResponse V

variable {V H E : Type}

/-- The stored payload that `Publish` makes. -/
def encodePayload (cv : Conv V) (topic payload : GoString) : GoString :=
  let base64Str := Base64.encode payload
  let resp : CommResponse V := { message := topic, data := cv.ofString base64Str }
  cv.respString resp

/-- `getDataFromMsg`; `none` where it returns the error of the base64 decoder. -/
def getDataFromMsg (cv : Conv V) (msg : Message) : Option Message :=
  let resp := cv.unmarshal msg.payload
  match Base64.decode (cv.string resp.data) with
  | none => none
  | some originData => some { msg with payload := originData }

theorem getDataFromMsg_eq (cv : Conv V) (msg : Message) :
    getDataFromMsg cv msg = (Base64.decode (cv.string (cv.unmarshal msg.payload).data)).map
      (fun originData => { msg with payload := originData }) := by
  unfold getDataFromMsg
  cases hdec : Base64.decode (cv.string (cv.unmarshal msg.payload).data) with
  | none => simp [hdec]
  | some originData => simp [hdec]

/-- The codec gives back what `Publish` puts into `Data`. -/
def Conv.Inverts (cv : Conv V) : Prop :=
  ∀ topic payload : GoString,
    cv.string (cv.unmarshal (cv.respString ⟨topic, cv.ofString (Base64.encode payload)⟩)).data
      = Base64.encode payload

/-- What follows the first occurrence of `pat`. -/
def afterInfix (pat : GoString) : GoString → Option GoString
  | [] => none
  | c :: cs => if pat.isPrefixOf (c :: cs) then some ((c :: cs).drop pat.length) else afterInfix pat cs

/-- The string that a text starts with, up to the closing quote. -/
def unquote (s : GoString) : GoString := s.takeWhile (fun c => c ≠ 34)

/-- The codec on texts that need no escapes: an interface value is nil or a string. -/
def plainConv : Conv (Option GoString) where
  ofString := some
  string v := v.getD []
  respString resp :=
    str "\x7b\"data\":\"" ++ resp.data.getD [] ++ str "\",\"message\":\"" ++ resp.message ++ str "\"\x7d"
  unmarshal s :=
    { message := ((afterInfix (str "\"message\":\"") s).map unquote).getD []
      data := (afterInfix (str "\"data\":\"") s).map unquote }

theorem plainConv_inverts : plainConv.Inverts := by
  intro topic payload
  have hquote : ∀ c ∈ Base64.encode payload, decide (c ≠ 34) = true :=
    Base64.encode_forall (by decide) (fun v hv => by interval_cases v <;> decide) payload
  show unquote (Base64.encode payload ++ str "\",\"message\":\"" ++ topic ++ str "\"\x7d") = _
  rw [unquote, List.append_assoc, List.append_assoc, List.takeWhile_append_of_pos hquote]
  exact List.append_nil _

/-! ## The Channel -/

/-- The fields of `mysqlretry.RetryConfig`, but for the database handle. -/
structure RetryConfig where
  nameSpace : GoString
  tableName : GoString
  deriving DecidableEq

/-- The record handed to `DoAsync`: `RetryType` and the two entries of `Param`. -/
structure RetryRecord where
  retryType : GoString
  msgId : GoString
  msgData : GoString
  deriving DecidableEq

/-- The closure that `mysqlRetryMessage` registers: it holds the handler and the message. -/
structure Callback (H : Type) where
  handler : H
  msg : Message
  deriving DecidableEq

/-- Run the closure on a stored `Param`: the handler call it makes, if any. -/
def Callback.call (cb : Callback H) (msgId msgData : GoString) : Option (H × GoString × GoString) :=
  -- the entries of `Param` are only tested
  if msgId ≠ [] ∧ msgData ≠ [] then some (cb.handler, cb.msg.uuid, cb.msg.payload) else none

/-- What a dispatch loop does to the retry service. -/
inductive RetryEvent (H E : Type) where
  | newMysqlRetry (conf : RetryConfig) (err : Option E)
  | start
  | register (nameSpace retryType : GoString) (cb : Callback H)
  | doAsync (rec : RetryRecord) (err : Option E)
  deriving DecidableEq

abbrev MTrace (H E : Type) := Trace H E (RetryEvent H E)

structure RetryEnv (H E : Type) extends Env H E (RetryEvent H E) where
  newMysqlRetry : MTrace H E → Option E
  doAsync : MTrace H E → Option E

structure Backend where
  sqlDb : Bool
  subscriberMap : Option (ConcurrentMap GoString ℕ)
  nameSpace : GoString
  consumerGroup : GoString
  publisher : Bool
  retryService : Option RetryConfig
  subscribers : List GoString

/-- A subscription: the `sql.Subscriber` and the tables of messages and offsets it reads. -/
structure Source where
  subscriber : ℕ
  table : GoString
  offsetsTable : GoString
  deriving DecidableEq

abbrev Chan (H E : Type) := Channel Backend Source H E (RetryEvent H E)

/-- The fields of the driver's `Config` that `initMysqlDB` reads. -/
structure DriverConfig where
  net : GoString
  dbName : GoString

/-- `initMysqlDB`; `openDB` and `ping` are the errors of `sql.Open` and `db.Ping`. -/
def initMysqlDB (conf : DriverConfig) (openDB : DriverConfig → Option E) (ping : Option E)
    (g : Backend) : Except (GoErr E) Backend :=
  if g.sqlDb then .ok g
  else
    let conf := if conf.net = [] then { conf with net := str "tcp" } else conf
    if conf.dbName = [] then .error (.text "数据库连接失败, 数据库名称不能为空")
    else
      match openDB conf with
      | some err => .error (.external err)
      | none =>
          match ping with
          | some err => .error (.external err)
          | none => .ok { g with sqlDb := true }

/-- The other fields of `new(Channel)`. -/
def zeroBackend : Backend :=
  { sqlDb := false, subscriberMap := none, nameSpace := [], consumerGroup := [], publisher := false,
    retryService := none, subscribers := [] }

/-- What `New` sets once the database is open: no `subscriberMap` and no publisher. -/
def newWith (backend : Backend) : Chan H E :=
  { backend := backend, handlers := some .new, retryTimes := 3, errorHandler := none, loops := [] }

def new (conf : DriverConfig) (openDB : DriverConfig → Option E) (ping : Option E) :
    Except (GoErr E) (Chan H E) := do
  let backend ← initMysqlDB conf openDB ping zeroBackend
  return newWith backend

/-- The Channel that `New` returns. -/
def opened : Chan H E := newWith { zeroBackend with sqlDb := true }

/-- The Channel, with the `subscriberMap` that `New` leaves out. -/
def withMap (g : Chan H E) : Chan H E := { g with backend.subscriberMap := some .new }

/-- `getSubscriber`; `fault` is the error of `sql.NewSubscriber`. -/
def getSubscriber (consumerGroup : GoString) (fault : Option E) (g : Backend) :
    Except Stop (Except (GoErr E) ℕ × Backend) :=
  if g.sqlDb = false then return (.error (.text "db error"), g)
  else do
    -- the Channel keeps its default, whatever comes of the call
    let g := if g.consumerGroup = [] then { g with consumerGroup := str "default" } else g
    let consumerGroup := if consumerGroup = [] then g.consumerGroup else consumerGroup
    let subscriberMap ← useMap g.subscriberMap
    match subscriberMap.get consumerGroup with
    | some sub => return (.ok sub, g)
    | none =>
        match fault with
        | some err => return (.error (.external err), g)
        | none =>
            let subscriber := g.subscribers.length
            return (.ok subscriber, { g with
              subscribers := g.subscribers ++ [consumerGroup]
              subscriberMap := some (subscriberMap.set consumerGroup subscriber) })

/-- Both table-name functions first give the Channel its default namespace. -/
def defaultNamespace (g : Backend) : Backend :=
  if g.nameSpace = [] then { g with nameSpace := str "default" } else g

def getTableFromNamespace (topic : GoString) (g : Backend) : GoString × Backend :=
  let g := defaultNamespace g
  (str "`" ++ g.nameSpace ++ str "_" ++ topic ++ str "`", g)

def getOffsetsTableFromNamespace (topic : GoString) (g : Backend) : GoString × Backend :=
  let g := defaultNamespace g
  (str "`" ++ g.nameSpace ++ str "_offsets_" ++ topic ++ str "`", g)

/-- `getPublisher`; `fault` is the error of `sql.NewPublisher`. -/
def getPublisher (fault : Option E) (g : Backend) : Except (GoErr E) Unit × Backend :=
  if g.sqlDb = false then (.error (.text "db error"), g)
  else if g.publisher then (.ok (), g)
  else
    match fault with
    | some err => (.error (.external err), g)
    | none => (.ok (), { g with publisher := true })

/-- The errors of `sql.NewSubscriber` and of the subscriber's `Subscribe` in one call. -/
structure SubscribeFaults (E : Type) where
  newSubscriber : Option E
  subscribe : Option E

def SubscribeFaults.ok : SubscribeFaults E := ⟨none, none⟩

/-- `g.getSubscriber(consumerGroup)` and its `Subscribe`, which asks the schema for the table names. -/
def openSource (topic consumerGroup : GoString) (faults : SubscribeFaults E) (g : Backend) :
    Except Stop (Except (GoErr E) Source × Backend) := do
  let (subscribe, g) ← getSubscriber consumerGroup faults.newSubscriber g
  match subscribe with
  | .error err => return (.error err, g)
  | .ok subscriber =>
      let (table, g) := getTableFromNamespace topic g
      let (offsetsTable, g) := getOffsetsTableFromNamespace topic g
      -- by then the subscriber is in the map, for a retry to find
      match faults.subscribe with
      | some err => return (.error (.external err), g)
      | none => return (.ok ⟨subscriber, table, offsetsTable⟩, g)

def subscribe (topic : GoString) (handler : H) (faults : SubscribeFaults E) (g : Chan H E) :
    Except Stop (Option (GoErr E) × Chan H E) :=
  Channel.subscribeWith (fun b => openSource topic b.consumerGroup faults b) topic handler g

def subscribeNew (topic consumerGroup : GoString) (handler : H) (faults : SubscribeFaults E) (g : Chan H E) :
    Except Stop (Option (GoErr E) × Chan H E) :=
  Channel.subscribeNewWith (openSource topic consumerGroup faults) topic handler g

/-- What a call returns; `sent` is a row that was inserted: the table, and the message as stored. -/
structure Ret (E : Type) where
  id : GoString
  err : Option (GoErr E)
  sent : Option (GoString × Message)

def Ret.ofErr (err : Option (GoErr E)) : Ret E := ⟨[], err, none⟩

/-- `Publish`; `newPublisher` and `fault` are the errors of `sql.NewPublisher` and of the insert. -/
def publish (cv : Conv V) (topic : GoString) (msg : Option Message) (newUUID : GoString)
    (newPublisher fault : Option E) (g : Chan H E) : Ret E × Chan H E :=
  match msg with
  | none => (.ofErr none, g)
  | some msg =>
      let (publisher, backend) := getPublisher newPublisher g.backend
      let g := { g with backend := backend }
      match publisher with
      | .error err => (.ofErr (some err), g)
      | .ok () =>
          let msg := msg.withUUID newUUID
          let msg := { msg with payload := encodePayload cv topic msg.payload }
          let (table, backend) := getTableFromNamespace topic g.backend
          let g := { g with backend := backend }
          match fault with
          | some err => (.ofErr (some (.external err)), g)
          | none => (⟨msg.uuid, none, some (table, msg)⟩, g)

/-- `Close` closes every subscriber of the map, then the publisher, then the database. -/
def close (g : Chan H E) : Except Stop (Chan H E) := do
  let _ ← useMap g.backend.subscriberMap
  if g.backend.publisher then return g else .error .nilPublisher

/-! ## Retrying -/

/-- The configuration that `mysqlRetryMessage` makes its service with. -/
def retryConfig (g : Backend) : RetryConfig :=
  { nameSpace := g.consumerGroup, tableName := g.nameSpace ++ str "_retry_table" }

/-- The first part of `mysqlRetryMessage`: make and start the retry service if there is none. -/
def ensureRetryService (env : RetryEnv H E) (p : Progress Backend H E (RetryEvent H E)) :
    Option E × Progress Backend H E (RetryEvent H E) :=
  match p.backend.retryService with
  | some _ => (none, p)
  | none =>
      let conf := retryConfig p.backend
      let err := env.newMysqlRetry p.trace
      let p := p.log (.backend (.newMysqlRetry conf err))
      match err with
      | some err => (some err, p)
      | none =>
          let p := p.log (.backend .start)
          (none, { p with backend.retryService := some conf })

/-- `mysqlRetryMessage`. The error of `Register` is dropped. -/
def mysqlRetryMessage (env : RetryEnv H E) (msg : Message) (handler : H) (retError : MultiErr E)
    (p : Progress Backend H E (RetryEvent H E)) :
    Option (MultiErr E) × Progress Backend H E (RetryEvent H E) :=
  match ensureRetryService env p with
  | (some _, p) => (some retError, p)
  | (none, p) =>
      let p := p.log (.backend (.register p.backend.nameSpace p.backend.consumerGroup ⟨handler, msg⟩))
      let err := env.doAsync p.trace
      let p := p.log (.backend (.doAsync ⟨p.backend.consumerGroup, msg.uuid, msg.payload⟩ err))
      match err with
      | some _ => (some retError, p)
      | none => (none, p)

/-- `retryMessage`: when all failed, the message goes to the retry service. -/
def retryMessage (g : Chan H E) (env : RetryEnv H E) (msg : Message) (handler : H)
    (oldError : MultiErr E) (p : Progress Backend H E (RetryEvent H E)) :
    Option (MultiErr E) × Progress Backend H E (RetryEvent H E) :=
  retryMessageWith (mysqlRetryMessage env msg handler) g.retryTimes g.errorHandler env.toEnv msg handler
    oldError p

def dispatchMessages (cv : Conv V) (g : Chan H E) (env : RetryEnv H E) (topic : GoString)
    (msg : Message) (p : Progress Backend H E (RetryEvent H E)) :
    Except Stop (Progress Backend H E (RetryEvent H E)) := do
  let handlers ← useMap g.handlers
  match handlers.get topic with
  | none => return p
  | some allHandlers =>
      match getDataFromMsg cv msg with
      -- `return`: the message is not acknowledged
      | none => return p
      | some msg =>
          match handleAll (retryMessage g env msg) env.toEnv msg allHandlers none p with
          | (some _, p) => return p.log (.ack msg.ptr)
          | (none, p) => return p.log (.ack msg.ptr)

/-- The body of the loops that `Subscribe` and `SubscribeNew` start. -/
def loopBody (cv : Conv V) (env : RetryEnv H E) (msg : Message) (g : Chan H E)
    (loop : Loop Source H E (RetryEvent H E)) (p : Progress Backend H E (RetryEvent H E)) :
    Except Stop (Progress Backend H E (RetryEvent H E)) :=
  match loop.handler with
  | none => dispatchMessages cv g env loop.topic msg p
  | some handler =>
      match getDataFromMsg cv msg with
      -- `continue`: the message is not acknowledged
      | none => return p
      | some msg => return handleNew (retryMessage g env msg) env.toEnv msg handler p

inductive Op (H E : Type) where
  | withRetryTimes (retryTimes : ℤ)
  | withNamespace (ns : GoString)
  | withConsumerGroup (consumerGroup : GoString)
  | withErrorHandler (handler : Option ℕ)
  | publish (topic : GoString) (msg : Option Message) (newUUID : GoString) (newPublisher fault : Option E)
  | subscribe (topic : GoString) (handler : H) (faults : SubscribeFaults E)
  | subscribeNew (topic consumerGroup : GoString) (handler : H) (faults : SubscribeFaults E)
  | close
  | deliver (l : ℕ) (msg : Message) (env : RetryEnv H E)

def step (cv : Conv V) (g : Chan H E) : Op H E → Except Stop (Ret E × Chan H E)
  | .withRetryTimes n => return (.ofErr none, { g with retryTimes := n })
  | .withNamespace ns => return (.ofErr none, { g with backend.nameSpace := ns })
  | .withConsumerGroup cg => return (.ofErr none, { g with backend.consumerGroup := cg })
  | .withErrorHandler handler => return (.ofErr none, { g with errorHandler := handler })
  | .publish topic msg newUUID newPublisher fault => return publish cv topic msg newUUID newPublisher fault g
  | .subscribe topic handler faults => do
      let (err, g) ← subscribe topic handler faults g
      return (.ofErr err, g)
  | .subscribeNew topic consumerGroup handler faults => do
      let (err, g) ← subscribeNew topic consumerGroup handler faults g
      return (.ofErr err, g)
  | .close => do
      let g ← close g
      return (.ofErr none, g)
  | .deliver l msg env => do
      let g ← Channel.deliverWith (loopBody cv env msg) l msg g
      return (.ofErr none, g)

/-- A step, labelled with the call and what it returns. -/
def Step (cv : Conv V) (g : Chan H E) (l : Op H E × Ret E) (g' : Chan H E) : Prop :=
  step cv g l.1 = .ok (l.2, g')

end Mysqlchannel
end Watermill
end ServiceKit
