import ServiceKit.Lib.Unordered

/-!
# `Collection.SafeMap` — the map that gives its memory back

`safemap.go`. A Go map does not shrink, so there are two: entries go to the old one until many were deleted from it, and
from then on to the new one; a map with many deletions and few entries is poured into the other. A `range` over a map
visits it in any order, which is the parameter `order`.
-/

namespace ServiceKit
namespace Collection

open Lib

def copyThreshold : Nat := 1000

def maxDeletion : Nat := 10000

/-- `SafeMap` -/
structure SafeMap (κ ν : Type) where
  deletionOld : Nat
  deletionNew : Nat
  dirtyOld : GoMap κ ν
  dirtyNew : GoMap κ ν

namespace SafeMap

variable {κ ν : Type} [DecidableEq κ]

/-- `NewSafeMap` -/
def new : SafeMap κ ν := ⟨0, 0, ∅, ∅⟩

/-- `for k, v := range src { dst[k] = v }` -/
def pour (order : RangeOrder κ) (dst src : GoMap κ ν) : GoMap κ ν :=
  putAll dst ((order.range src).map fun e => (e.1, e.2))

/-- `Del` -/
def del (order : RangeOrder κ) (m : SafeMap κ ν) (key : κ) : SafeMap κ ν :=
  let m :=
    if key ∈ m.dirtyOld then { m with dirtyOld := m.dirtyOld.erase key, deletionOld := m.deletionOld + 1 }
    else if key ∈ m.dirtyNew then { m with dirtyNew := m.dirtyNew.erase key, deletionNew := m.deletionNew + 1 }
    else m
  let m :=
    if maxDeletion ≤ m.deletionOld ∧ m.dirtyOld.entries.length < copyThreshold then
      { deletionOld := m.deletionNew, deletionNew := 0, dirtyOld := pour order m.dirtyNew m.dirtyOld, dirtyNew := ∅ }
    else m
  if maxDeletion ≤ m.deletionNew ∧ m.dirtyNew.entries.length < copyThreshold then
    { m with deletionNew := 0, dirtyOld := pour order m.dirtyOld m.dirtyNew, dirtyNew := ∅ }
  else m

/-- `Get` -/
def get (m : SafeMap κ ν) (key : κ) : Option ν :=
  match m.dirtyOld.lookup key with
  | some val => some val
  | none => m.dirtyNew.lookup key

/-- The loop over one map in `Range`: what `f` was called with, and whether it said to go on. -/
def rangeOver (f : κ → ν → Bool) : List (Entry κ ν) → List (κ × ν) × Bool
  | [] => ([], true)
  | e :: es =>
      if f e.1 e.2 then
        let (seen, more) := rangeOver f es
        ((e.1, e.2) :: seen, more)
      else ([(e.1, e.2)], false)

/-- `Range`: what `f` was called with. -/
def range (order : RangeOrder κ) (m : SafeMap κ ν) (f : κ → ν → Bool) : List (κ × ν) :=
  let (seen, more) := rangeOver f (order.range m.dirtyOld)
  if more then seen ++ (rangeOver f (order.range m.dirtyNew)).1 else seen

/-- `Set` -/
def set (m : SafeMap κ ν) (key : κ) (value : ν) : SafeMap κ ν :=
  if m.deletionOld ≤ maxDeletion then
    let m :=
      if key ∈ m.dirtyNew then { m with dirtyNew := m.dirtyNew.erase key, deletionNew := m.deletionNew + 1 } else m
    { m with dirtyOld := m.dirtyOld.insert key value }
  else
    let m :=
      if key ∈ m.dirtyOld then { m with dirtyOld := m.dirtyOld.erase key, deletionOld := m.deletionOld + 1 } else m
    { m with dirtyNew := m.dirtyNew.insert key value }

/-- `Size` -/
def size (m : SafeMap κ ν) : Nat := m.dirtyOld.entries.length + m.dirtyNew.entries.length

/-- A change of the map. -/
inductive Op (κ ν : Type) where
  | set (key : κ) (value : ν)
  | del (key : κ)

/-- One change. -/
def apply (order : RangeOrder κ) (m : SafeMap κ ν) : Op κ ν → SafeMap κ ν
  | .set key value => m.set key value
  | .del key => m.del order key

/-- The changes, one after the other. -/
def after (order : RangeOrder κ) (m : SafeMap κ ν) (ops : List (Op κ ν)) : SafeMap κ ν := ops.foldl (apply order) m

end SafeMap
end Collection
end ServiceKit
