import ServiceKit.Watermill.Grpcchannel

/-!
# `Watermill.StreamNetwork` — a `grpcchannel` client, the server, and the streams between them

One Channel and the world of `pubSubServer`, joined. `Sum.inl s` is the stream that the Channel opened as
its `s`-th, `Sum.inr o` a stream of another client. What gRPC does is kept to what the code relies on: the
two ends of a stream see what the other sent, in order; a `Send` succeeds on a stream that has not failed,
and on no other; and a stream that failed, alone or with its connection, stays failed. Once its `Recv` has
returned what arrived before, or at any time, it returns the error, and again at every call.
-/

namespace ServiceKit
namespace Watermill
namespace Grpcchannel

open Lib

variable {H E O : Type}

/-- The requests sent on a stream. -/
def Backend.requests (g : Backend) (s : ℕ) : List SubscribeRequest := (g.streams[s]?).getD []

structure Network (H E O : Type) where
  client : Chan H E
  server : World (ℕ ⊕ O)
  /-- The Channel's streams that failed. -/
  failed : List ℕ
  /-- How many requests of each stream the server's `Recv` returned. -/
  received : ℕ → ℕ
  /-- How many messages of each stream the client's `Recv` returned. -/
  taken : ℕ → ℕ

/-- One stream fails, or the connection and all streams with it. -/
inductive Failure where
  | stream (s : ℕ)
  | connection

/-- The streams that fail, when `opened` streams have been opened. -/
def Failure.hits (opened : ℕ) : Failure → List ℕ
  | .stream s => [s]
  | .connection => List.range opened

namespace Network

def start [DecidableEq O] (client : Chan H E) : Network H E O :=
  ⟨client, World.init, [], fun _ => 0, fun _ => 0⟩

/-- How many streams the Channel opened. -/
def opened (net : Network H E O) : ℕ := net.client.backend.streams.length

/-- The messages that arrive on a stream of the Channel. -/
def inbox [DecidableEq O] (net : Network H E O) (s : ℕ) : List (PubSubServer.Send (ℕ ⊕ O)) :=
  net.server.sends.filter (fun x => x.stream = .inl s ∧ x.ok)

/-- What the network lets the server see: the next request of a stream, the error of a failed one, and
    which `Send`s fail. Other clients may do anything. -/
def Permits (net : Network H E O) : World.Label (ℕ ⊕ O) → Prop
  | .request (.inl s) req => (net.client.backend.requests s)[net.received s]? = some req
  | .recvErr (.inl s) => s ∈ net.failed
  | .publish msg ok => ∀ x ∈ net.server.server.publishTo net.server.published.length msg ok,
      ∀ s, x.stream = .inl s → (x.ok = true ↔ s ∉ net.failed)
  | _ => True

def receive (net : Network H E O) : World.Label (ℕ ⊕ O) → ℕ → ℕ
  | .request (.inl s) _ => Function.update net.received s (net.received s + 1)
  | _ => net.received

inductive Label (H E O : Type) where
  | subscribe (topic : GoString) (handler : H) (faults : SubscribeFaults E) (err : Option (GoErr E))
  | recv (i n : ℕ) (msg : Message) (env : Env H E Empty)
  | recvErr (i : ℕ)
  | serve (l : World.Label (ℕ ⊕ O))
  | fail (failure : Failure)

/-- `subscribe`: a call of the Channel. `recv`: `Recv` of loop `i` returns message `n` of its stream, which
    is dispatched. `recvErr`: it returns the error of its stream, and the loop goes on. `serve`: a step
    of the server. `fail`: streams fail. -/
inductive Step [DecidableEq O] : Network H E O → Label H E O → Network H E O → Prop where
  | subscribe {net topic handler faults err client}
      (hcall : Grpcchannel.Step net.client (.subscribe topic handler faults, .ofErr err) client) :
      Step net (.subscribe topic handler faults err) { net with client := client }
  | recv {net i loop x ptr env client} (hloop : net.client.loops[i]? = some loop)
      (hnext : (net.inbox loop.source)[net.taken loop.source]? = some x)
      (hdeliver : Grpcchannel.Step net.client (.deliver i (recvMessage ptr x.msg) env, .ofErr none) client) :
      Step net (.recv i (net.taken loop.source) (recvMessage ptr x.msg) env)
        { net with
          client := client
          taken := Function.update net.taken loop.source (net.taken loop.source + 1) }
  | recvErr {net i loop} (hloop : net.client.loops[i]? = some loop) (hfailed : loop.source ∈ net.failed) :
      Step net (.recvErr i) net
  | serve {net l server} (hpermits : net.Permits l) (hserve : World.Step net.server l server) :
      Step net (.serve l) { net with server := server, received := net.receive l }
  | fail {net failure} (hopened : ∀ s ∈ failure.hits net.opened, s < net.opened) :
      Step net (.fail failure) { net with failed := failure.hits net.opened ++ net.failed }

end Network

end Grpcchannel
end Watermill
end ServiceKit
