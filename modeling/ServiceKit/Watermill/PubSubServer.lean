import ServiceKit.Watermill.Basic

/-!
# `Watermill.PubSubServer` — the server of `grpcchannel`

`pubSubServer` keeps, under one mutex, a list of subscribers per cache key. The three bodies that hold
the mutex are functions on the server: `addSubscriber` (the locked part of `Subscribe`), `publishTo`
(`Publish`) and `removeSubscriber`. Around them stands the world: each stream has one goroutine in
`Subscribe`, which is waiting in `Recv`, about to lock with a request or with an error, or gone (`Pc`).
A step of the world is a return of `Recv` or one locked section, so runs are all interleavings.

The world also records what was published, in the order of the locked sections, and every `Send`.
-/

namespace ServiceKit
namespace Watermill
namespace Grpcchannel

open Lib

/-- The generated `pubsub.Message`. -/
@[ext] structure PbMessage where
  nameSpace : GoString
  topic : GoString
  messageId : GoString
  messageContent : GoString
  deriving DecidableEq

/-- The generated `pubsub.SubscribeRequest`; nothing reads its `consumer_group`. -/
structure SubscribeRequest where
  nameSpace : GoString
  topic : GoString
  deriving DecidableEq

structure Subscriber (S : Type) where
  stream : S
  deriving DecidableEq

structure PubSubServer (S : Type) where
  subscribers : ConcurrentMap GoString (List (Subscriber S))

namespace PubSubServer

variable {S : Type}

def newPubSubServer : PubSubServer S := ⟨.new⟩

def orDefault (s : GoString) : GoString := if s = [] then str "default" else s

/-- `fmt.Sprintf("%s/%s", namespace, topic)`, both defaulted. -/
def getCacheKey (nameSpace topic : GoString) : GoString :=
  orDefault nameSpace ++ str "/" ++ orDefault topic

/-- The locked section of `Subscribe`. `append` never returns nil, so `list` is nil only on a miss. -/
def addSubscriber (srv : PubSubServer S) (cacheKey : GoString) (stream : S) : PubSubServer S :=
  let list := match srv.subscribers.get cacheKey with
    | some list => list ++ [⟨stream⟩]
    | none => [⟨stream⟩]
  { srv with subscribers := srv.subscribers.set cacheKey list }

/-- One `Send` of a publication: its number among the publications, and whether it succeeded. -/
structure Send (S : Type) where
  seq : ℕ
  cacheKey : GoString
  stream : S
  msg : PbMessage
  ok : Bool
  deriving DecidableEq

/-- `lo.ForEach(list, ..)`: send to every subscriber; an error is logged and the loop goes on. The
    outcome of the `i`-th `Send` is `ok i`. -/
def sendAll (seq : ℕ) (cacheKey : GoString) (msg : PbMessage) (ok : ℕ → Bool) :
    ℕ → List (Subscriber S) → List (Send S)
  | _, [] => []
  | i, sub :: rest =>
      ⟨seq, cacheKey, sub.stream, msg, ok i⟩ :: sendAll seq cacheKey msg ok (i + 1) rest

/-- The locked section of `Publish`: the `Send`s it makes. -/
def publishTo (srv : PubSubServer S) (seq : ℕ) (msg : PbMessage) (ok : ℕ → Bool) : List (Send S) :=
  let cacheKey := getCacheKey msg.nameSpace msg.topic
  match srv.subscribers.get cacheKey with
  | some list => sendAll seq cacheKey msg ok 0 list
  | none => []

variable [DecidableEq S]

/-- The inner loop of `removeSubscriber`: `newSubs` and `isRemoved`. -/
def withoutStream (stream : S) (subs : List (Subscriber S)) : List (Subscriber S) × Bool :=
  subs.foldl (fun (newSubs, isRemoved) sub =>
    if sub.stream ≠ stream then (newSubs ++ [sub], isRemoved) else (newSubs, true)) ([], false)

/-- `removeSubscriber`, ranging over the items in the order of `items`. -/
def removeSubscriber (srv : PubSubServer S) (items : List (GoString × List (Subscriber S)))
    (stream : S) : PubSubServer S :=
  { srv with
    subscribers := srv.subscribers.rewrite
      (fun _ subs =>
        let (newSubs, isRemoved) := withoutStream stream subs
        if isRemoved then some newSubs else none)
      items }

end PubSubServer

/-! ## The world around the server -/

/-- Where the goroutine in `Subscribe` of one stream stands. -/
inductive Pc where
  | recv
  | subscribing (cacheKey : GoString)
  | removing
  | returned
  deriving DecidableEq

structure World (S : Type) where
  server : PubSubServer S
  pc : S → Pc
  published : List (GoString × PbMessage)
  sends : List (PubSubServer.Send S)

namespace World

variable {S : Type} [DecidableEq S]

def init : World S := ⟨PubSubServer.newPubSubServer, fun _ => .recv, [], []⟩

def goto (w : World S) (s : S) (pc : Pc) : World S := { w with pc := Function.update w.pc s pc }

theorem goto_pc_self (w : World S) (s : S) (pc : Pc) : (w.goto s pc).pc s = pc :=
  Function.update_self _ _ _

theorem goto_pc_of_ne (w : World S) {s t : S} (pc : Pc) (h : t ≠ s) : (w.goto s pc).pc t = w.pc t :=
  Function.update_of_ne h _ _

inductive Label (S : Type) where
  | request (s : S) (req : SubscribeRequest)
  | subscribe (s : S) (cacheKey : GoString)
  | recvErr (s : S)
  | remove (s : S)
  | publish (msg : PbMessage) (ok : ℕ → Bool)

/-- `request`, `recvErr`: `Recv` returns. `subscribe`, `remove`, `publish`: a locked section runs. The
    order in which `removeSubscriber` ranges over the items is any. -/
inductive Step : World S → Label S → World S → Prop where
  | request {w s req} (hpc : w.pc s = .recv) :
      Step w (.request s req)
        (w.goto s (.subscribing (PubSubServer.getCacheKey req.nameSpace req.topic)))
  | subscribe {w s cacheKey} (hpc : w.pc s = .subscribing cacheKey) :
      Step w (.subscribe s cacheKey)
        ({ w with server := w.server.addSubscriber cacheKey s }.goto s .recv)
  | recvErr {w s} (hpc : w.pc s = .recv) : Step w (.recvErr s) (w.goto s .removing)
  | remove {w s items} (hpc : w.pc s = .removing) (hitems : items.Perm w.server.subscribers.items) :
      Step w (.remove s) ({ w with server := w.server.removeSubscriber items s }.goto s .returned)
  | publish {w msg ok} :
      Step w (.publish msg ok)
        { w with
          published := w.published ++ [(PubSubServer.getCacheKey msg.nameSpace msg.topic, msg)]
          sends := w.sends ++ w.server.publishTo w.published.length msg ok }

abbrev Reach (ls : List (Label S)) (w : World S) : Prop := Run Step init ls w

end World

end Grpcchannel
end Watermill
end ServiceKit
