import ServiceKit.Lib.Unordered
import Mathlib.Data.Fin.Basic
import Mathlib.Data.ZMod.Defs
import Mathlib.Logic.Function.Basic

/-!
# `Collection.TimingWheel` — the timing wheel

`timingwheel.go`. Entries live behind pointers: a slot lists them, the map `timers` names the entry of a key and the
slot where it waits, and an entry that is moved is changed in place, whatever lists it. So entries are cells of a
heap (`items`), known by their address. All operations run one after the other in the loop `run`; a step is one
of its cases, with the tasks it executes.
-/

namespace ServiceKit
namespace Collection

open Lib

/-- The address of an entry. -/
abbrev Addr := Nat

/-- `timingEntry`, without its delay, that nothing reads once the entry is in a slot. -/
structure TimingEntry (n : Nat) (κ ν : Type) where
  key : κ
  value : ν
  circle : Nat
  diff : Fin n
  removed : Bool

/-- `positionEntry` -/
structure PositionEntry (n : Nat) where
  pos : Fin n
  item : Addr
deriving DecidableEq

/-- `timingTask` -/
structure TimingTask (κ ν : Type) where
  key : κ
  value : ν
deriving DecidableEq

/-- `TimingWheel`, with `n` slots. -/
structure TimingWheel (n : Nat) (κ ν : Type) where
  interval : Nat
  interval_pos : 0 < interval
  tickedPos : Fin n
  items : List (TimingEntry n κ ν)
  slots : Fin n → List Addr
  timers : GoMap κ (PositionEntry n)

/-- `ErrArgument` -/
inductive TimerError where
  | argument
deriving DecidableEq

namespace TimingWheel

variable {n : Nat} [NeZero n] {κ ν : Type} [DecidableEq κ]

/-- `NewTimingWheelWithTicker`; the hand starts "at previous virtual circle". -/
def new (interval : Nat) (h : 0 < interval) : TimingWheel n κ ν where
  interval := interval
  interval_pos := h
  tickedPos := Fin.ofNat n (n - 1)
  items := []
  slots := fun _ => []
  timers := ∅

/-! ## Pointers and lists -/

/-- `l.Remove(e)`, for the list under the hand -/
def unlink (tw : TimingWheel n κ ν) (a : Addr) : TimingWheel n κ ν :=
  { tw with slots := Function.update tw.slots tw.tickedPos ((tw.slots tw.tickedPos).erase a) }

/-- `tw.slots[pos].PushBack(task)` -/
def pushBack (tw : TimingWheel n κ ν) (pos : Fin n) (a : Addr) : TimingWheel n κ ν :=
  { tw with slots := Function.update tw.slots pos (tw.slots pos ++ [a]) }

/-- An assignment to fields of the entry at `a`. -/
def modifyItem (tw : TimingWheel n κ ν) (a : Addr) (f : TimingEntry n κ ν → TimingEntry n κ ν) :
    TimingWheel n κ ν :=
  { tw with items := tw.items.modify a f }

/-- `&timingEntry{…}` -/
def alloc (tw : TimingWheel n κ ν) (e : TimingEntry n κ ν) : TimingWheel n κ ν :=
  { tw with items := tw.items ++ [e] }

/-- `setTimerPosition`; it finds the key by the entry. -/
def setTimerPosition (tw : TimingWheel n κ ν) (pos : Fin n) (a : Addr) : TimingWheel n κ ν :=
  match tw.items[a]? with
  | none => tw
  | some task => { tw with timers := tw.timers.insert task.key ⟨pos, a⟩ }

/-- `tw.timers.Del(key)` -/
def delTimer (tw : TimingWheel n κ ν) (key : κ) : TimingWheel n κ ν :=
  { tw with timers := tw.timers.erase key }

/-! ## The operations -/

/-- `steps := int(d / tw.interval)` -/
def steps (tw : TimingWheel n κ ν) (d : Nat) : Nat := d / tw.interval

/-- `getPositionAndCircle` -/
def getPositionAndCircle (tw : TimingWheel n κ ν) (d : Nat) : Fin n × Nat :=
  (Fin.ofNat n (tw.tickedPos + tw.steps d), (tw.steps d - 1) / n)

/-- `moveTask`, with what it executes at once. -/
def moveTask (tw : TimingWheel n κ ν) (key : κ) (delay : Nat) : List (TimingTask κ ν) × TimingWheel n κ ν :=
  match tw.timers.lookup key with
  | none => ([], tw)
  | some timer =>
      match tw.items[timer.item]? with
      | none => ([], tw)
      | some item =>
          if delay < tw.interval then ([⟨item.key, item.value⟩], tw)
          else
            let (pos, circle) := tw.getPositionAndCircle delay
            if h : timer.pos ≤ pos then
              ([], tw.modifyItem timer.item fun e => { e with circle := circle, diff := ⟨pos - timer.pos, by omega⟩ })
            else if 0 < circle then
              ([], tw.modifyItem timer.item fun e =>
                { e with circle := circle - 1, diff := ⟨n + pos - timer.pos, by omega⟩ })
            else
              let newItem : TimingEntry n κ ν := ⟨key, item.value, 0, 0, false⟩
              let a := tw.items.length
              let tw := tw.modifyItem timer.item fun e => { e with removed := true }
              ([], ((tw.alloc newItem).pushBack pos a).setTimerPosition pos a)

/-- `setTask` -/
def setTask (tw : TimingWheel n κ ν) (key : κ) (value : ν) (delay : Nat) :
    List (TimingTask κ ν) × TimingWheel n κ ν :=
  let delay := if delay < tw.interval then tw.interval else delay
  match tw.timers.lookup key with
  | some entry => (tw.modifyItem entry.item fun e => { e with value := value }).moveTask key delay
  | none =>
      let (pos, circle) := tw.getPositionAndCircle delay
      let a := tw.items.length
      ([], ((tw.alloc ⟨key, value, circle, 0, false⟩).pushBack pos a).setTimerPosition pos a)

/-- `removeTask` -/
def removeTask (tw : TimingWheel n κ ν) (key : κ) : TimingWheel n κ ν :=
  match tw.timers.lookup key with
  | none => tw
  | some timer => (tw.modifyItem timer.item fun e => { e with removed := true }).delTimer key

/-- The body of the loop of `scanAndRunTasks`. A `diff` leads to another slot, so that nothing is pushed to the
    list that is scanned. -/
def visit (tw : TimingWheel n κ ν) (a : Addr) : List (TimingTask κ ν) × TimingWheel n κ ν :=
  match tw.items[a]? with
  | none => ([], tw)
  | some task =>
      if task.removed then ([], tw.unlink a)
      else if 0 < task.circle then ([], tw.modifyItem a fun e => { e with circle := e.circle - 1 })
      else if 0 < task.diff then
        let pos := tw.tickedPos + task.diff
        ([], (((tw.unlink a).pushBack pos a).setTimerPosition pos a).modifyItem a fun e => { e with diff := 0 })
      else ([⟨task.key, task.value⟩], (tw.unlink a).delTimer task.key)

/-- The loop of `scanAndRunTasks`, over what is left of the list. -/
def scan (tw : TimingWheel n κ ν) : List Addr → List (TimingTask κ ν) × TimingWheel n κ ν
  | [] => ([], tw)
  | a :: rest =>
      let (task, tw) := tw.visit a
      let (tasks, tw) := tw.scan rest
      (task ++ tasks, tw)

/-- `onTick` -/
def onTick (tw : TimingWheel n κ ν) : List (TimingTask κ ν) × TimingWheel n κ ν :=
  let tw := { tw with tickedPos := tw.tickedPos + 1 }
  tw.scan (tw.slots tw.tickedPos)

/-- The task of an entry that `drainAll` comes to. -/
def drained (tw : TimingWheel n κ ν) (a : Addr) : Option (TimingTask κ ν) :=
  match tw.items[a]? with
  | none => none
  | some task => if task.removed then none else some ⟨task.key, task.value⟩

/-- `drainAll`: the slots are emptied, `timers` stays as it is. -/
def drainAll (tw : TimingWheel n κ ν) : List (TimingTask κ ν) × TimingWheel n κ ν :=
  ((List.finRange n).flatMap fun pos => (tw.slots pos).filterMap tw.drained, { tw with slots := fun _ => [] })

/-! ## The loop -/

/-- What the loop `run` is woken up by. -/
inductive Event (κ ν : Type) where
  | tick
  | setTimer (key : Option κ) (value : ν) (delay : Int)
  | moveTimer (key : Option κ) (delay : Int)
  | removeTimer (key : Option κ)
  | drain
deriving DecidableEq

/-- One turn of the loop; `SetTimer`, `MoveTimer` and `RemoveTimer` refuse a `nil` key and a delay that is not
    positive before they send anything. -/
def step (tw : TimingWheel n κ ν) : Event κ ν → Except TimerError (List (TimingTask κ ν) × TimingWheel n κ ν)
  | .tick => .ok tw.onTick
  | .setTimer (some key) value delay => if delay ≤ 0 then .error .argument else .ok (tw.setTask key value delay.toNat)
  | .moveTimer (some key) delay => if delay ≤ 0 then .error .argument else .ok (tw.moveTask key delay.toNat)
  | .removeTimer (some key) => .ok ([], tw.removeTask key)
  | .drain => .ok tw.drainAll
  | _ => .error .argument

/-- `run`, over the events it is woken up by, with the tasks executed on the way. -/
def run (tw : TimingWheel n κ ν) : List (Event κ ν) → List (TimingTask κ ν) × TimingWheel n κ ν
  | [] => ([], tw)
  | event :: events =>
      match tw.step event with
      | .error _ => tw.run events
      | .ok (tasks, tw) =>
          let (later, tw) := tw.run events
          (tasks ++ later, tw)

end TimingWheel
end Collection
end ServiceKit
