import ServiceKit.Lib.Unordered
import ServiceKit.Lib.Run
import Mathlib.Logic.Function.Basic

/-!
# `Syncx.SingleFlight` — concurrent calls of one key share a flight

`singleflight.go`. A `call` is a cell that the group and its callers point to. What `createCall` and the deferred
function of `makeCall` do under the lock is one step each; the wait, the function that is called and the release of the
waiters are steps of their own, so that the calls of different threads mix in any order. The events carry the cell, by
which a run says what became of a flight.
-/

namespace ServiceKit
namespace Syncx

open Lib

/-- The address of a `call`. -/
abbrev Addr := Nat

/-- `call`: `val` and `err` together, and whether `wg.Done` was called. -/
structure Call (ρ : Type) where
  result : ρ
  done : Bool
deriving DecidableEq

/-- `flightGroup`, with the cells that were allocated. -/
structure FlightGroup (κ ρ : Type) where
  calls : GoMap κ Addr
  cells : List (Call ρ)

/-- Where a thread is in `DoEx`. -/
inductive Pc (κ : Type) where
  /-- not in a call -/
  | idle
  /-- at `c.wg.Wait()` -/
  | waiting (c : Addr)
  /-- in `fn()` -/
  | calling (c : Addr) (key : κ)
  /-- in the deferred function, before the lock; `panicked` when `fn` did not return -/
  | deferred (c : Addr) (key : κ) (panicked : Bool)
  /-- before `c.wg.Done()` -/
  | deleted (c : Addr) (panicked : Bool)
deriving DecidableEq

/-- A group and the threads that call it. -/
structure State (τ κ ρ : Type) where
  group : FlightGroup κ ρ
  pc : τ → Pc κ

/-- What a thread does. -/
inductive Event (τ κ ρ : Type) where
  /-- `createCall` finds no call of the key -/
  | create (t : τ) (key : κ) (c : Addr)
  /-- `createCall` finds one -/
  | join (t : τ) (key : κ) (c : Addr)
  /-- `c.val, c.err = fn()` -/
  | fn (t : τ) (c : Addr) (r : ρ)
  /-- `fn` panics -/
  | panic (t : τ) (c : Addr)
  /-- `delete(g.calls, key)` -/
  | delete (t : τ) (c : Addr)
  /-- `c.wg.Done()`, and the call returns, with `fresh` -/
  | done (t : τ) (c : Addr)
  /-- `c.wg.Wait()` is over, and the call returns, without `fresh` -/
  | wake (t : τ) (c : Addr)
deriving DecidableEq

/-- The thread of an event. -/
def Event.thread {τ κ ρ : Type} : Event τ κ ρ → τ
  | .create t _ _ | .join t _ _ | .fn t _ _ | .panic t _ | .delete t _ | .done t _ | .wake t _ => t

section

variable {τ κ ρ : Type} [DecidableEq τ] [DecidableEq κ] [Inhabited ρ]

/-- `NewSingleFlight` -/
def NewSingleFlight : FlightGroup κ ρ := ⟨∅, []⟩

/-- `createCall` up to the wait: the call of the key, and whether it was there. -/
def FlightGroup.createCall (g : FlightGroup κ ρ) (key : κ) : Addr × Bool × FlightGroup κ ρ :=
  match g.calls.lookup key with
  | some c => (c, true, g)
  | none =>
      let c := g.cells.length
      (c, false, { calls := g.calls.insert key c, cells := g.cells ++ [⟨default, false⟩] })

/-- `c.val, c.err = r` -/
def FlightGroup.setResult (g : FlightGroup κ ρ) (c : Addr) (r : ρ) : FlightGroup κ ρ :=
  { g with cells := g.cells.modify c fun call => { call with result := r } }

/-- `delete(g.calls, key)` -/
def FlightGroup.delete (g : FlightGroup κ ρ) (key : κ) : FlightGroup κ ρ := { g with calls := g.calls.erase key }

/-- `c.wg.Done()` -/
def FlightGroup.wgDone (g : FlightGroup κ ρ) (c : Addr) : FlightGroup κ ρ :=
  { g with cells := g.cells.modify c fun call => { call with done := true } }

/-- Thread `t` goes to `p`. -/
def State.goto (s : State τ κ ρ) (t : τ) (p : Pc κ) (g : FlightGroup κ ρ) : State τ κ ρ :=
  { group := g, pc := Function.update s.pc t p }

/-- One step of `DoEx`: an event happens where its thread is at the statement that it stands for. -/
def State.step (s : State τ κ ρ) : Event τ κ ρ → Option (State τ κ ρ)
  | .create t key c =>
      match s.pc t, s.group.createCall key with
      | .idle, (c', false, g) => if c = c' then some (s.goto t (.calling c key) g) else none
      | _, _ => none
  | .join t key c =>
      match s.pc t, s.group.createCall key with
      | .idle, (c', true, g) => if c = c' then some (s.goto t (.waiting c) g) else none
      | _, _ => none
  | .fn t c r =>
      match s.pc t with
      | .calling c' key => if c = c' then some (s.goto t (.deferred c key false) (s.group.setResult c r)) else none
      | _ => none
  | .panic t c =>
      match s.pc t with
      | .calling c' key => if c = c' then some (s.goto t (.deferred c key true) s.group) else none
      | _ => none
  | .delete t c =>
      match s.pc t with
      | .deferred c' key panicked => if c = c' then some (s.goto t (.deleted c panicked) (s.group.delete key)) else none
      | _ => none
  | .done t c =>
      match s.pc t with
      | .deleted c' _ => if c = c' then some (s.goto t .idle (s.group.wgDone c)) else none
      | _ => none
  | .wake t c =>
      match s.pc t, s.group.cells[c]? with
      | .waiting c', some call => if c = c' ∧ call.done then some (s.goto t .idle s.group) else none
      | _, _ => none

/-- What the call of `DoEx` returns that ends with an event: `val` and `err`, and `fresh`. -/
def State.returned (s : State τ κ ρ) : Event τ κ ρ → Option (ρ × Bool)
  | .done t c =>
      match s.pc t with
      | .deleted _ false => (s.group.cells[c]?).map fun call => (call.result, true)
      | _ => none
  | .wake _ c => (s.group.cells[c]?).map fun call => (call.result, false)
  | _ => none

/-- All threads out of calls. -/
def State.init : State τ κ ρ := ⟨NewSingleFlight, fun _ => .idle⟩

/-- The step relation. -/
def State.Step (s : State τ κ ρ) (e : Event τ κ ρ) (s' : State τ κ ρ) : Prop := s.step e = some s'

end

end Syncx
end ServiceKit
