import ServiceKit.Search.Tree
import ServiceKit.Lib.FilePath

/-!
# `Rest.Router` — the router of requests

`patrouter.go`: a search tree for each method. A request is served by the handler of its cleaned path, else refused: the
method is not allowed where a tree of another method has the path, and nothing is found where none has.
-/

namespace ServiceKit
namespace Rest

open Lib Search

def allowMethodSeparator : Text := ", ".toList

def deleteMethod : Text := "DELETE".toList

def getMethod : Text := "GET".toList

def headMethod : Text := "HEAD".toList

def optionsMethod : Text := "OPTIONS".toList

def patchMethod : Text := "PATCH".toList

def postMethod : Text := "POST".toList

def putMethod : Text := "PUT".toList

/-- `validMethod` -/
def validMethod (method : Text) : Bool :=
  method = deleteMethod || method = getMethod || method = headMethod || method = optionsMethod ||
    method = patchMethod || method = postMethod || method = putMethod

/-- One element of a relative path, by `path.Clean`. -/
def cleanElement (r : FilePath.RelPath) (element : Text) : FilePath.RelPath :=
  if element = "..".toList then
    if r.names = [] then { r with ups := r.ups + 1 } else { r with names := r.names.dropLast }
  else
    match FilePath.nameOf element with
    | some n => { r with names := r.names ++ [n] }
    | none => r

/-- `path.Clean` -/
def clean : Text → Text
  | '/' :: rest => FilePath.absText ((rest.splitOn '/').foldl FilePath.descend [])
  | path => ((path.splitOn '/').foldl cleanElement ⟨0, []⟩).text

/-- The errors of `Handle`. -/
inductive HandleError where
  | errInvalidMethod
  | errInvalidPath
  | tree (e : TreeError)
deriving DecidableEq

/-- `patRouter`. The handlers for what is not found and what is not allowed can be set. -/
structure PatRouter (η : Type) where
  trees : GoMap Text (Search.Tree η)
  notFound : Option η
  notAllowed : Option η

/-- What `ServeHTTP` does. -/
inductive Served (η : Type) where
  /-- the handler of the path serves, with the variables of the path -/
  | item (h : η) (params : GoMap Text Text)
  | notFound (h : Option η)
  /-- without a handler, status 405 with this `Allow` -/
  | notAllowed (h : Option η) (allows : Text)

namespace PatRouter

variable {η : Type}

/-- `NewRouter` -/
def newRouter : PatRouter η := ⟨∅, none, none⟩

/-- `Handle` -/
def handle (pr : PatRouter η) (method reqPath : Text) (handler : Option η) : PatRouter η × Option HandleError :=
  if validMethod method = false then (pr, some .errInvalidMethod)
  else if reqPath.head? ≠ some '/' then (pr, some .errInvalidPath)
  else
    let tree := (pr.trees.lookup method).getD .newTree
    let r := tree.add (clean reqPath) handler
    ({ pr with trees := pr.trees.insert method r.1 }, r.2.map .tree)

/-- `methodsAllowed`, before the methods are joined. -/
def methodsAllowed (visit : VisitOrder η) (order : RangeOrder Text) (pr : PatRouter η) (method path : Text) :
    List Text :=
  (order.range pr.trees).filterMap fun e =>
    if e.1 = method then none else if (e.2.search visit path).isSome then some e.1 else none

/-- `ServeHTTP` -/
def serveHTTP (visit : VisitOrder η) (order : RangeOrder Text) (pr : PatRouter η) (method path : Text) : Served η :=
  let reqPath := clean path
  match (pr.trees.lookup method).bind fun tree => tree.search visit reqPath with
  | some result => .item result.item result.params
  | none =>
      let allows := pr.methodsAllowed visit order method reqPath
      if 0 < allows.length then .notAllowed pr.notAllowed (allowMethodSeparator.intercalate allows)
      else .notFound pr.notFound

end PatRouter

end Rest
end ServiceKit
