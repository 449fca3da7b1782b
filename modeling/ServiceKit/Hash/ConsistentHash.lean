import ServiceKit.Lib.Unordered
import ServiceKit.Lib.Text
import ServiceKit.Lib.HashRing

/-!
# `Hash.ConsistentHash` — the ring that finds the node of a key

`consistenthash.go`. The hash function and the texts of what is put in (`lang.Repr`, `%v`) are parameters. `Get` divides
by the number of points, which panics where there is none.
-/

namespace ServiceKit
namespace Hash

open Lib

def TopWeight : Int := 100

def minReplicas : Nat := 100

def prime : Nat := 16777619

/-- `Func`, with `lang.Repr` and `fmt`'s `%v` of a value. -/
structure Hashing (α : Type) where
  hashFunc : Text → Nat
  repr : α → Text
  sprint : α → Text

/-- `ConsistentHash` -/
structure ConsistentHash (α : Type) where
  replicas : Nat
  keys : List Nat
  ring : GoMap Nat (List α)
  nodes : Finset Text

/-- How a call of `Get` ends. -/
inductive Found (α : Type) where
  | node (x : α)
  | none
  | panic
deriving DecidableEq

namespace ConsistentHash

variable {α : Type} (sort : SortSlice) (hashing : Hashing α)

/-- `strconv.Itoa`, for the index of a replica. -/
def itoa (i : Nat) : Text := Nat.toDigits 10 i

/-- `hashFunc([]byte(nodeRepr + strconv.Itoa(i)))` -/
def point (nodeRepr : Text) (i : Nat) : Nat := hashing.hashFunc (nodeRepr ++ itoa i)

/-- `innerRepr` -/
def innerRepr (node : α) : Text := itoa prime ++ ':' :: hashing.sprint node

/-- `NewCustomConsistentHash` -/
def newCustom (replicas : Nat) : ConsistentHash α :=
  ⟨if replicas < minReplicas then minReplicas else replicas, [], ∅, ∅⟩

/-- `removeRingNode` -/
def removeRingNode (ring : GoMap Nat (List α)) (hash : Nat) (nodeRepr : Text) : GoMap Nat (List α) :=
  match ring.lookup hash with
  | none => ring
  | some nodes =>
      let newNodes := nodes.filter fun x => hashing.repr x ≠ nodeRepr
      if 0 < newNodes.length then ring.insert hash newNodes else ring.erase hash

/-- The key that the loop of `Remove` takes out: one whose place the search finds. -/
def removeKey (keys : List Nat) (hash : Nat) : List Nat :=
  let index := insertionPoint keys hash
  if index < keys.length ∧ keys[index]? = some hash then keys.take index ++ keys.drop (index + 1) else keys

/-- One turn of the loop of `Remove`. -/
def removeReplica (nodeRepr : Text) (h : ConsistentHash α) (i : Nat) : ConsistentHash α :=
  let hash := point hashing nodeRepr i
  { h with keys := removeKey h.keys hash, ring := removeRingNode hashing h.ring hash nodeRepr }

/-- `Remove` -/
def remove (h : ConsistentHash α) (node : α) : ConsistentHash α :=
  let nodeRepr := hashing.repr node
  if nodeRepr ∈ h.nodes then
    let h := (List.range h.replicas).foldl (removeReplica hashing nodeRepr) h
    { h with nodes := h.nodes.erase nodeRepr }
  else h

/-- One turn of the loop of `AddWithReplicas`. -/
def addReplica (nodeRepr : Text) (node : α) (h : ConsistentHash α) (i : Nat) : ConsistentHash α :=
  let hash := point hashing nodeRepr i
  { h with keys := h.keys ++ [hash], ring := h.ring.insert hash ((h.ring.lookup hash).getD [] ++ [node]) }

/-- `AddWithReplicas` -/
def addWithReplicas (h : ConsistentHash α) (node : α) (replicas : Int) : ConsistentHash α :=
  let h := remove hashing h node
  let replicas : Int := if replicas > (h.replicas : Int) then (h.replicas : Int) else replicas
  let nodeRepr := hashing.repr node
  let h := { h with nodes := insert nodeRepr h.nodes }
  let h := (List.range replicas.toNat).foldl (addReplica hashing nodeRepr node) h
  { h with keys := sort.slice (fun x y => decide (x < y)) h.keys }

/-- `Add` -/
def add (h : ConsistentHash α) (node : α) : ConsistentHash α := addWithReplicas sort hashing h node h.replicas

/-- `AddWithWeight` -/
def addWithWeight (h : ConsistentHash α) (node : α) (weight : Int) : ConsistentHash α :=
  addWithReplicas sort hashing h node ((h.replicas * weight).tdiv TopWeight)

/-- `Get` -/
def get (h : ConsistentHash α) (v : α) : Found α :=
  if h.ring.entries.length = 0 then .none
  else
    let hash := hashing.hashFunc (hashing.repr v)
    if h.keys.length = 0 then .panic
    else
      let index := insertionPoint h.keys hash % h.keys.length
      match (h.ring.lookup (h.keys.getD index 0)).getD [] with
      | [] => .none
      | [x] => .node x
      | nodes =>
          let innerIndex := hashing.hashFunc (innerRepr hashing v)
          match nodes[innerIndex % nodes.length]? with
          | some x => .node x
          | none => .panic

end ConsistentHash
end Hash
end ServiceKit
