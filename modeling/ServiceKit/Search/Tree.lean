import ServiceKit.Lib.Unordered
import ServiceKit.Lib.Text

/-!
# `Search.Tree` — the tree that finds the item of a route

`tree.go`. A route is cut at its slashes; a node has two maps of children, of plain tokens and of those that begin with a
colon, which stand for any token. A range visits the children of a map in any order.
-/

namespace ServiceKit
namespace Search

open Lib

def colon : Char := ':'

def slash : Char := '/'

/-- `node`. The children are `children[0]`, of plain tokens, and `children[1]`, of those with a colon. -/
inductive Node (α : Type) where
  | mk (item : Option α) (plain named : List (Sigma fun _ : Text => Node α))

/-- The entries of a map of children. -/
abbrev Children (α : Type) := List (Sigma fun _ : Text => Node α)

/-- The order of each `range` over the children in a map. -/
structure VisitOrder (α : Type) where
  visit : Children α → Children α
  perm : ∀ children, (visit children).Perm children

/-- The errors of `Add`. -/
inductive TreeError where
  | errNotFromRoot
  | errEmptyItem
  | duplicatedItem (route : Text)
  | duplicatedSlash (route : Text)
deriving DecidableEq

/-- The errors of `add`. -/
inductive AddError where
  | errDupItem
  | errDupSlash
deriving DecidableEq

/-- `Result` -/
structure Result (α : Type) where
  item : α
  params : GoMap Text Text

/-- `innerResult` -/
structure InnerResult where
  key : Text
  value : Text
  named : Bool
  found : Bool

namespace Node

variable {α β : Type}

def item : Node α → Option α
  | mk item _ _ => item

def plain : Node α → Children α
  | mk _ plain _ => plain

def named : Node α → Children α
  | mk _ _ named => named

/-- `newNode` -/
def newNode (item : Option α) : Node α := .mk item [] []

/-- `nd.item = item` -/
def setItem (nd : Node α) (item : α) : Node α := .mk (some item) nd.plain nd.named

/-- `getChildren` -/
def getChildren (nd : Node α) (route : Text) : Children α := if route.head? = some colon then nd.named else nd.plain

/-- `nd.getChildren(token)[token] = child` -/
def setChild (nd : Node α) (token : Text) (child : Node α) : Node α :=
  if token.head? = some colon then .mk nd.item nd.plain (nd.named.kinsert token child)
  else .mk nd.item (nd.plain.kinsert token child) nd.named

/-- `add`, with what is left of the route cut at its slashes. -/
def add (item : α) : Node α → List Text → Node α × Option AddError
  | nd, [] => (nd, none)
  | nd, [route] =>
      if route.length = 0 then
        match nd.item with
        | some _ => (nd, some .errDupItem)
        | none => (nd.setItem item, none)
      else
        match (nd.getChildren route).dlookup route with
        | some child =>
            match child.item with
            | some _ => (nd, some .errDupItem)
            | none => (nd.setChild route (child.setItem item), none)
        | none => (nd.setChild route (newNode (some item)), none)
  | nd, token :: route :: rest =>
      if token.length = 0 then (nd, some .errDupSlash)
      else
        match (nd.getChildren token).dlookup token with
        | some child =>
            let r := add item child (route :: rest)
            (nd.setChild token r.1, r.2)
        | none =>
            let r := add item (newNode none) (route :: rest)
            (nd.setChild token r.1, r.2)

/-- `forEach` -/
def forEach (order : VisitOrder α) (nd : Node α) (fn : Text → Node α → Option β) : Option β :=
  (order.visit nd.plain ++ order.visit nd.named).findSome? fun kv => fn kv.1 kv.2

end Node

/-- `match` -/
def matchToken (pat token : Text) : InnerResult :=
  if pat.head? = some colon then ⟨pat.tail, token, true, true⟩ else ⟨[], [], false, pat = token⟩

/-- `addParam`, where the match has a name. -/
def addParam {α : Type} (r : InnerResult) (result : Result α) : Result α :=
  if r.named then { result with params := result.params.insert r.key r.value } else result

/-- `next`, with what is left of the route cut at its slashes. -/
def Node.next {α : Type} (order : VisitOrder α) : Node α → List Text → Option (Result α)
  | _, [] => none
  | n, [route] =>
      match if route.length = 0 then n.item else none with
      | some item => some ⟨item, ∅⟩
      | none =>
          n.forEach order fun k v =>
            let r := matchToken k route
            if r.found then v.item.map fun item => addParam r ⟨item, ∅⟩ else none
  | n, token :: route :: rest =>
      n.forEach order fun k v =>
        let r := matchToken k token
        if r.found then (next order v (route :: rest)).map (addParam r) else none

/-- `Tree` -/
structure Tree (α : Type) where
  root : Node α

namespace Tree

variable {α : Type}

/-- `NewTree` -/
def newTree : Tree α := ⟨.newNode none⟩

/-- The error for the route. -/
def wrapError (route : Text) : AddError → TreeError
  | .errDupItem => .duplicatedItem route
  | .errDupSlash => .duplicatedSlash route

/-- `Add` -/
def add (t : Tree α) : Text → Option α → Tree α × Option TreeError
  | [], _ => (t, some .errNotFromRoot)
  | c :: rest, item =>
      if c ≠ slash then (t, some .errNotFromRoot)
      else
        match item with
        | none => (t, some .errEmptyItem)
        | some item =>
            let r := t.root.add item (rest.splitOn slash)
            (⟨r.1⟩, r.2.map (wrapError (c :: rest)))

/-- `Search` -/
def search (order : VisitOrder α) (t : Tree α) : Text → Option (Result α)
  | [] => none
  | c :: rest => if c ≠ slash then none else t.root.next order (rest.splitOn slash)

end Tree

end Search
end ServiceKit
