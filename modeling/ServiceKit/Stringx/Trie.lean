import ServiceKit.Lib.Unordered
import ServiceKit.Lib.Text

/-!
# `Stringx.Trie` — finding keywords in a text

`node.go`, `trie.go` and `replacer.go`. Nodes live in a heap; the address of a node is the runes that lead to it from the
root, which nothing but `add` can make. `build` links each node to the node where the search goes on when it fails
there, in the order of a queue; ranges visit children in any order. A loop that does not end, and a pointer that is nil,
give `none`.
-/

namespace ServiceKit
namespace Stringx

open Lib

/-- The address of a node. The root has the empty one. -/
abbrev Addr := Text

/-- `node`. `isEnd` is `end`. -/
structure Node where
  children : GoMap Char Addr
  fail : Option Addr
  depth : Nat
  isEnd : Bool

/-- The nodes of a tree. -/
abbrev Nodes := GoMap Addr Node

/-- `scope` -/
structure Scope where
  start : Nat
  stop : Nat
deriving DecidableEq

def defaultMask : Char := '*'

/-- A new node at this depth. -/
def newNode (depth : Nat) : Node := ⟨∅, none, depth, false⟩

namespace Nodes

/-- The node at an address. -/
def node (h : Nodes) (a : Addr) : Node := (h.lookup a).getD (newNode 0)

/-- The child of a node under a rune. -/
def child (h : Nodes) (a : Addr) (c : Char) : Option Addr := (h.node a).children.lookup c

/-! ## Building -/

/-- The loop of `add`, with the runes from index `i` on. -/
def addFrom (h : Nodes) (nd : Addr) (i : Nat) : Text → Nodes
  | [] => h.insert nd { h.node nd with isEnd := true }
  | char :: chars =>
      match h.child nd char with
      | some child => addFrom h child (i + 1) chars
      | none =>
          let child := nd ++ [char]
          let h := h.insert nd { h.node nd with children := (h.node nd).children.insert char child }
          addFrom (h.insert child (newNode (i + 1))) child (i + 1) chars

/-- `add` -/
def add (h : Nodes) (word : Text) : Nodes := if word.length = 0 then h else h.addFrom [] 0 word

/-- `child.fail = fail` -/
def setFail (h : Nodes) (child fail : Addr) : Nodes := h.insert child { h.node child with fail := some fail }

/-- The loop of `build` that looks for the node to go on at, from `cur` up. -/
def failFrom (h : Nodes) (key : Char) : Nat → Addr → Option Addr
  | 0, _ => none
  | fuel + 1, cur =>
      match (h.node cur).fail with
      | none => some []
      | some f =>
          match h.child f key with
          | some fail => some fail
          | none => failFrom h key fuel f

/-- The children of `nd`, appended to the queue and linked. -/
def linkChildren (nd : Addr) : List (Entry Char Addr) → List Addr × Nodes → Option (List Addr × Nodes)
  | [], s => some s
  | e :: es, s => (s.2.failFrom e.1 (nd.length + 1) nd).bind fun f => linkChildren nd es (s.1 ++ [e.2], s.2.setFail e.2 f)

/-- The loop of `build` over the queue. -/
def buildFrom (order : RangeOrder Char) : Nat → List Addr → Nodes → Option Nodes
  | _, [], h => some h
  | 0, _ :: _, _ => none
  | fuel + 1, nd :: nodes, h =>
      (linkChildren nd (order.range (h.node nd).children) (nodes, h)).bind fun s => buildFrom order fuel s.1 s.2

/-- `build` -/
def build (order : RangeOrder Char) (h : Nodes) : Option Nodes :=
  let first := (order.range (h.node []).children).map fun e => e.2
  buildFrom order h.entries.length first (first.foldl (fun h child => h.setFail child []) h)

/-- The nodes of these words, not linked. -/
def ofWords (words : List Text) : Nodes := words.foldl add (AList.singleton [] (newNode 0))

/-! ## Finding -/

/-- The loop of `find` that goes on at the failure links, until a node has a child for the rune: where the search is then,
    and this child. -/
def goOn (h : Nodes) (c : Char) : Nat → Addr → Option (Addr × Option Addr)
  | _, [] => some ([], none)
  | 0, _ => none
  | fuel + 1, cur =>
      match (h.node cur).fail with
      | none => none
      | some f =>
          match h.child f c with
          | some child => some (child, some child)
          | none => goOn h c fuel f

/-- One rune in `find`: where the search is then, and the child that was found. -/
def advance (h : Nodes) (cur : Addr) (c : Char) : Option (Addr × Option Addr) :=
  match h.child cur c with
  | some child => some (child, some child)
  | none => h.goOn c cur.length cur

/-- The loop of `find` over the nodes whose word ends at index `i`. -/
def scopesAt (h : Nodes) (i : Nat) : Nat → Addr → Option (List Scope)
  | _, [] => some []
  | 0, _ => none
  | fuel + 1, child =>
      (h.node child).fail.bind fun f =>
        (scopesAt h i fuel f).map fun scopes =>
          if (h.node child).isEnd then ⟨i + 1 - (h.node child).depth, i + 1⟩ :: scopes else scopes

/-- The scopes from a child on, if there is one. -/
def scopesOf (h : Nodes) (i : Nat) : Option Addr → Option (List Scope)
  | none => some []
  | some child => h.scopesAt i child.length child

/-- The loop of `find`, with the runes from index `i` on. -/
def findFrom (h : Nodes) (cur : Addr) (i : Nat) : Text → Option (List Scope)
  | [] => some []
  | c :: chars =>
      (h.advance cur c).bind fun s =>
        (h.scopesOf i s.2).bind fun scopes => (findFrom h s.1 (i + 1) chars).map fun rest => scopes ++ rest

/-- `find` -/
def find (h : Nodes) (chars : Text) : Option (List Scope) := h.findFrom [] 0 chars

end Nodes

/-! ## Filtering -/

/-- `chars[start:stop]` -/
def slice (chars : Text) (s : Scope) : Text := (chars.take s.stop).drop s.start

/-- `trieNode` -/
structure TrieNode where
  nodes : Nodes
  mask : Char

/-- The mask that `WithMask` leaves. A trie begins with the zero rune, and where it is still that, or is set to it, the
    mask is the default. -/
def maskOf (withMask : Option Char) : Char :=
  let mask := withMask.getD (Char.ofNat 0)
  if mask = Char.ofNat 0 then defaultMask else mask

/-- `NewTrie`, with the mask of `WithMask`. -/
def NewTrie (order : RangeOrder Char) (words : List Text) (mask : Option Char) : Option TrieNode :=
  ((Nodes.ofWords words).build order).map fun h => ⟨h, maskOf mask⟩

/-- `collectKeywords` -/
def collectKeywords (order : RangeOrder Text) (chars : Text) (scopes : List Scope) : List Text :=
  let set := putAll ∅ (scopes.map fun s => (slice chars s, ()))
  (order.range set).map fun e => e.1

/-- `replaceWithAsterisk` -/
def replaceWithAsterisk (mask : Char) (chars : Text) (s : Scope) : Text :=
  (List.range' s.start (s.stop - s.start)).foldl (fun chars i => chars.set i mask) chars

/-- `Filter`: the sentence, the keywords, and whether there are any. -/
def TrieNode.filter (n : TrieNode) (order : RangeOrder Text) (text : Text) : Option (Text × List Text × Bool) :=
  if text.length = 0 then some (text, [], false)
  else
    (n.nodes.find text).map fun scopes =>
      let keywords := collectKeywords order text scopes
      (scopes.foldl (replaceWithAsterisk n.mask) text, keywords, decide (0 < keywords.length))

/-- `FindKeywords` -/
def TrieNode.findKeywords (n : TrieNode) (order : RangeOrder Text) (text : Text) : Option (List Text) :=
  if text.length = 0 then some [] else (n.nodes.find text).map fun scopes => collectKeywords order text scopes

/-! ## Replacing -/

def replaceTimes : Nat := 2

/-- `replacer` -/
structure Replacer where
  nodes : Nodes
  mapping : GoMap Text Text

/-- `NewReplacer` -/
def NewReplacer (order : RangeOrder Char) (keys : RangeOrder Text) (mapping : GoMap Text Text) : Option Replacer :=
  ((Nodes.ofWords ((keys.range mapping).map fun e => e.1)).build order).map fun h => ⟨h, mapping⟩

/-- The order of `sort.Slice`: by start, and of those with one start the longest first. -/
def scopeLess (x y : Scope) : Bool :=
  if x.start < y.start then true else if x.start = y.start then decide (x.stop > y.stop) else false

/-- The loop over the sorted scopes, from `index` on. -/
def Replacer.writeFrom (r : Replacer) (chars : Text) (index : Nat) : List Scope → Text
  | [] => if index < chars.length then chars.drop index else []
  | scp :: scopes =>
      if scp.start < index then writeFrom r chars index scopes
      else
        slice chars ⟨index, scp.start⟩ ++ ((r.mapping.lookup (slice chars scp)).getD [] ++
          writeFrom r chars scp.stop scopes)

/-- `doReplace` -/
def Replacer.doReplace (r : Replacer) (sort : SortSlice) (text : Text) : Option (Text × Bool) :=
  (r.nodes.find text).map fun scopes =>
    if scopes.length = 0 then (text, false) else (r.writeFrom text 0 (sort.slice scopeLess scopes), true)

/-- The loop of `Replace`. -/
def Replacer.replaceFrom (r : Replacer) (sort : SortSlice) : Nat → Text → Option Text
  | 0, text => some text
  | times + 1, text =>
      (r.doReplace sort text).bind fun s => if s.2 then replaceFrom r sort times s.1 else some s.1

/-- `Replace` -/
def Replacer.replace (r : Replacer) (sort : SortSlice) (text : Text) : Option Text :=
  r.replaceFrom sort replaceTimes text

end Stringx
end ServiceKit
