import ServiceKit.Lib.ConcurrentMap
import ServiceKit.Lib.GoError
import ServiceKit.Lib.Run

/-!
# `Consul.Client` — `consul/client.go`, its watch

`StartWatchService` registers a callback for a key and starts the one poll loop. A round of the loop visits
every registered key: it loads the key, and if the index is not the one recorded, records it and calls the
callback. The store is Consul's: every change gives the key a new index, larger than all before.
-/

namespace ServiceKit
namespace Consul

open Lib

variable {Q C V E : Type}

/-- `consulClient`, but for the connection; `C` are the callbacks, `Q` the query options. -/
structure ConsulClient (Q C : Type) where
  once : Bool
  queryVersion : ConcurrentMap String ℕ
  queryOption : ConcurrentMap String Q
  watchCallback : ConcurrentMap String C

/-- `NewConsulClient`. -/
def newConsulClient : ConsulClient Q C := ⟨false, .new, .new, .new⟩

/-- A call of a callback, and what it returned. -/
structure Invocation (C V E : Type) where
  key : String
  callback : C
  value : V
  index : ℕ
  err : Option E
  deriving DecidableEq

/-- What comes of the visit of a key. -/
inductive Visit (C V E : Type) where
  | notLoaded (err : GoErr E)
  | unchanged
  | invoked (call : Invocation C V E)

namespace ConsulClient

/-- `loadOneData`; `get` is `KV().Get` of the key. -/
def loadOneData (key : String) (qo : Option Q) (get : Option Q → Except E (Option (V × ℕ)))
    (cu : ConsulClient Q C) : Except (GoErr E) (V × ℕ) × ConsulClient Q C :=
  let qoParam :=
    match qo with
    | none => cu.queryOption.get key
    | some qo => some qo
  match get qoParam with
  | .error err => (.error (.external err), cu)
  | .ok pair =>
      let cu :=
        match qo with
        | none => cu
        | some qo => { cu with queryOption := cu.queryOption.set key qo }
      match pair with
      | none => (.error (.text ("key " ++ key ++ " not found")), cu)
      | some pair => (.ok pair, cu)

/-- `StartWatchService`; `watchConfig` starts the loop once. -/
def startWatchService (key : String) (f : Option C) (qo : Option Q) (cu : ConsulClient Q C) :
    Option (GoErr E) × ConsulClient Q C :=
  if key = "" then (some (.text "key is empty"), cu)
  else
    match f with
    | none => (some (.text "callback function is nil"), cu)
    | some f =>
        let cu := { cu with watchCallback := cu.watchCallback.set key f }
        let cu :=
          match qo with
          | none => cu
          | some qo => { cu with queryOption := cu.queryOption.set key qo }
        (none, { cu with once := true })

/-- The loop's visit of a key; `result` is what the callback returns, if it is called. -/
def visit (key : String) (callback : C) (get : Option Q → Except E (Option (V × ℕ))) (result : Option E)
    (cu : ConsulClient Q C) : Visit C V E × ConsulClient Q C :=
  match cu.loadOneData key (cu.queryOption.get key) get with
  | (.error err, cu) => (.notLoaded err, cu)
  | (.ok (data, index), cu) =>
      if cu.queryVersion.get key = some index then (.unchanged, cu)
      else
        -- the index is recorded before the callback is called
        (.invoked ⟨key, callback, data, index, result⟩,
          { cu with queryVersion := cu.queryVersion.set key index })

end ConsulClient

/-! ## The watch -/

/-- A round: the keys registered when it began, and those it has visited. -/
structure Round where
  due : List String
  visited : List String

/-- A client, its loop and the store; `loaded` are the keys loaded in the last round. -/
structure Watch (Q C V E : Type) where
  client : ConsulClient Q C
  store : String → Option (V × ℕ)
  lastIndex : ℕ
  round : Option Round
  loaded : List String
  invocations : List (Invocation C V E)

/-- A new client, and nothing in the store. -/
def Watch.init : Watch Q C V E := ⟨newConsulClient, fun _ => none, 0, none, [], []⟩

/-- A key changes, a call of `StartWatchService`, or a step of the loop. -/
inductive Event (Q C V E : Type) where
  | put (key : String) (value : V)
  | delete (key : String)
  | start (key : String) (f : Option C) (qo : Option Q)
  | begin
  | visit (key : String) (fault : Option E) (result : Option E)
  | finish

/-- `KV().Get`, that fails with `fault`. -/
def Watch.get (s : Watch Q C V E) (key : String) (fault : Option E) (_ : Option Q) :
    Except E (Option (V × ℕ)) :=
  match fault with
  | some err => .error err
  | none => .ok (s.store key)

/-- The state after the visit of a key with callback `cb`, in the round `r`. -/
def Watch.visited (s : Watch Q C V E) (r : Round) (key : String) (cb : C) (fault result : Option E) :
    Watch Q C V E :=
  let res := s.client.visit key cb (s.get key fault) result
  { s with
    client := res.2
    round := some { r with visited := key :: r.visited }
    loaded :=
      match res.1 with
      | .notLoaded _ => s.loaded
      | .unchanged => key :: s.loaded
      | .invoked _ => key :: s.loaded
    invocations :=
      match res.1 with
      | .invoked call => s.invocations ++ [call]
      | _ => s.invocations }

/-- The state when a round begins: every registered key is due. -/
def Watch.begun (s : Watch Q C V E) : Watch Q C V E :=
  { s with round := some ⟨s.client.watchCallback.items.map Prod.fst, []⟩, loaded := [] }

inductive Step : Watch Q C V E → Event Q C V E → Watch Q C V E → Prop where
  | put {s} (key : String) (value : V) :
      Step s (.put key value)
        { s with
          store := Function.update s.store key (some (value, s.lastIndex + 1))
          lastIndex := s.lastIndex + 1 }
  | delete {s} (key : String) :
      Step s (.delete key)
        { s with store := Function.update s.store key none, lastIndex := s.lastIndex + 1 }
  | start {s} (key : String) (f : Option C) (qo : Option Q) :
      Step s (.start key f qo) { s with client := (s.client.startWatchService (E := E) key f qo).2 }
  | begin {s} (honce : s.client.once = true) (hsleep : s.round = none) :
      Step s .begin s.begun
  /-- Also a key registered during the round may be visited. -/
  | visit {s r key cb} (fault result : Option E) (hround : s.round = some r)
      (hcb : s.client.watchCallback.get key = some cb) (hnew : key ∉ r.visited) :
      Step s (.visit key fault result) (s.visited r key cb fault result)
  | finish {s r} (hround : s.round = some r) (hall : ∀ key ∈ r.due, key ∈ r.visited) :
      Step s .finish { s with round := none }

end Consul
end ServiceKit
