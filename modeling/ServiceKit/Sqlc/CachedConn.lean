import ServiceKit.Lib.CacheAside
import ServiceKit.Lib.Unordered
import ServiceKit.Lib.Text
import Mathlib.Logic.Function.Basic

/-!
# `Sqlc.CachedConn` — reading and writing rows through redis

`cachedsql.go` over the nodes and the cluster of `stores/cache`, with the cleaner that tries failed deletions again. A
state is the database, what redis holds, the tasks of the cleaner and where each thread is; every step is one command
to redis or one statement to the database, each of which can fail, before or after it took effect. Threads of all
processes are alike: a single flight has less runs, not more.
-/

namespace ServiceKit
namespace Sqlc

open Lib

def notFoundPlaceholder : Text := ['*']

inductive NodeType where
  | node
  | cluster
deriving DecidableEq

/-- A connection: what its queries find, `jsonx`, and the cluster of caches. -/
structure CachedConn (δ κ ν η : Type) where
  /-- what the query of a key finds: a row, or for the key of an index the primary key -/
  value : δ → κ → Option ν
  /-- the key of a primary key -/
  keyer : ν → κ
  marshal : ν → Option Text
  unmarshal : Text → Option ν
  nodes : Nat
  dispatcher : κ → η
  /-- the only node, where there is no more than one -/
  single : η
  nodeType : η → NodeType
  order : RangeOrder η

/-- Where a thread is. -/
inductive Pc (κ : Type) where
  | idle
  /-- in `processCache`, before the deletion of data that cannot be read -/
  | purging (key : κ) (index : Bool)
  /-- before the query; `index` in `QueryRowIndexCtx` -/
  | querying (key : κ) (index : Bool)
  /-- in `setCacheWithNotFound` -/
  | placing (key : κ)
  /-- before the entries that the query gave are set -/
  | setting (sets : List (κ × Text))
  /-- in `DelCtx`, before these deletions -/
  | deleting (batches : List (List κ))
deriving DecidableEq

/-- The system. A task of the cleaner is its delay and its keys. -/
structure State (τ δ κ : Type) where
  db : δ
  redis : κ → Option Text
  tasks : List (Nat × List κ)
  pc : τ → Pc κ

/-- What happens. `applied` says whether a command took effect, `ok` whether it reported success. -/
inductive Event (τ δ κ : Type) where
  /-- `doGetCache` -/
  | get (t : τ) (key : κ) (index failed : Bool)
  /-- the deletion in `processCache` -/
  | purge (t : τ) (key : κ) (applied : Bool)
  /-- `query(v)` -/
  | query (t : τ) (key : κ) (failed : Bool)
  /-- `SetnxExCtx` -/
  | place (t : τ) (key : κ) (applied : Bool)
  /-- `SetexCtx` -/
  | set (t : τ) (key : κ) (applied ok : Bool)
  /-- `exec(ctx, cc.db)` -/
  | exec (t : τ) (db : δ) (keys : List κ) (ok : Bool)
  /-- one `rds.DelCtx` of `DelCtx` -/
  | del (t : τ) (keys : List κ) (applied ok : Bool)
  /-- the cleaner runs a task -/
  | clean (i : Nat) (delay : Nat) (keys : List κ) (applied ok : Bool)
  /-- redis lets an entry expire -/
  | expire (key : κ)
deriving DecidableEq

/-! ## Deletions -/

namespace CachedConn

variable {τ δ κ ν η : Type} (c : CachedConn δ κ ν η)

/-- The deletions of `cacheNode.DelCtx`. -/
def nodeBatches (node : η) (keys : List κ) : List (List κ) :=
  if keys.length = 0 then []
  else if 1 < keys.length ∧ c.nodeType node = .cluster then keys.map fun key => [key]
  else [keys]

/-- The deletions of `DelCtx`, of a node or of a cluster of nodes. -/
def batches [DecidableEq η] (keys : List κ) : List (List κ) :=
  if c.nodes ≤ 1 then c.nodeBatches c.single keys
  else
    match keys with
    | [] => []
    | [key] => c.nodeBatches (c.dispatcher key) [key]
    | keys =>
        let nodes := collect (fun key => some (c.dispatcher key)) ∅ keys
        (c.order.range nodes).flatMap fun e => c.nodeBatches e.1 e.2

end CachedConn

/-- `nextDelay`, in seconds. -/
def nextDelay (delay : Nat) : Option Nat :=
  if delay = 1 then some 5
  else if delay = 5 then some 60
  else if delay = 60 then some 300
  else if delay = 300 then some 3600
  else none

/-! ## Reading -/

namespace CachedConn

variable {τ δ κ ν η : Type} (c : CachedConn δ κ ν η)

/-- Where `doTake` goes with what redis gave. -/
def fetched (key : κ) (index : Bool) (data : Text) : Pc κ :=
  if data.length = 0 then .querying key index
  else if data = notFoundPlaceholder then .idle
  else
    match c.unmarshal data with
    | some _ => .idle
    | none => .purging key index

/-- Where a thread goes with these entries to set. -/
def toSet : List (κ × Text) → Pc κ
  | [] => .idle
  | sets => .setting sets

/-- Where `doTake` goes with what the query found. The query of an index finds a row too: it sets that one first. -/
def queried (db : δ) (key : κ) : Bool → Option (Pc κ)
  | false =>
      match c.value db key with
      | none => some (.placing key)
      | some v => some (toSet ((c.marshal v).toList.map fun data => (key, data)))
  | true =>
      match c.value db key with
      | none => some (.placing key)
      | some primary =>
          match c.value db (c.keyer primary) with
          | none => none
          | some v =>
              match c.marshal v with
              | none => some .idle
              | some row =>
                  some (toSet ((c.keyer primary, row) :: (c.marshal primary).toList.map fun data => (key, data)))

end CachedConn

/-! ## Steps -/

namespace State

variable {τ δ κ ν η : Type} [DecidableEq τ] [DecidableEq κ] [DecidableEq η]

/-- Thread `t` goes to `p`. -/
def goto (s : State τ δ κ) (t : τ) (p : Pc κ) : State τ δ κ := { s with pc := Function.update s.pc t p }

/-- `DEL`, if it takes effect. -/
def erase (s : State τ δ κ) (keys : List κ) (applied : Bool) : State τ δ κ :=
  { s with redis := fun key => if applied = true ∧ key ∈ keys then none else s.redis key }

/-- `SETEX`, if it takes effect. -/
def put (s : State τ δ κ) (key : κ) (data : Text) (applied : Bool) : State τ δ κ :=
  { s with redis := if applied = true then Function.update s.redis key (some data) else s.redis }

/-- Where a thread goes with these deletions before it. -/
def toDelete : List (List κ) → Pc κ
  | [] => .idle
  | batches => .deleting batches

/-- One step: an event happens where its thread is at the command that it stands for. -/
def step (c : CachedConn δ κ ν η) (s : State τ δ κ) : Event τ δ κ → Option (State τ δ κ)
  | .get t key index failed =>
      match s.pc t with
      | .idle => some (s.goto t (if failed then .idle else c.fetched key index ((s.redis key).getD [])))
      | _ => none
  | .purge t key applied =>
      match s.pc t with
      | .purging key' index =>
          if key' = key then some ((s.erase [key] applied).goto t (.querying key index)) else none
      | _ => none
  | .query t key failed =>
      match s.pc t with
      | .querying key' index =>
          if key' = key then
            if failed then some (s.goto t .idle) else (c.queried s.db key index).map fun p => s.goto t p
          else none
      | _ => none
  | .place t key applied =>
      match s.pc t with
      | .placing key' =>
          if key' = key then
            some ((s.put key notFoundPlaceholder (applied && (s.redis key).isNone)).goto t .idle)
          else none
      | _ => none
  | .set t key applied ok =>
      match s.pc t with
      | .setting ((key', data) :: sets) =>
          if key' = key ∧ (ok = true → applied = true) then
            some ((s.put key data applied).goto t (if ok then CachedConn.toSet sets else .idle))
          else none
      | _ => none
  | .exec t db keys ok =>
      match s.pc t with
      | .idle => some (({ s with db := db } : State τ δ κ).goto t (if ok then toDelete (c.batches keys) else .idle))
      | _ => none
  | .del t keys applied ok =>
      match s.pc t with
      | .deleting (keys' :: batches) =>
          if keys' = keys ∧ (ok = true → applied = true) then
            let s' := (s.erase keys applied).goto t (toDelete batches)
            some { s' with tasks := if ok then s.tasks else s.tasks ++ [(1, keys)] }
          else none
      | _ => none
  | .clean i delay keys applied ok =>
      if s.tasks[i]? = some (delay, keys) ∧ (ok = true → applied = true) then
        let tasks :=
          if ok then s.tasks.eraseIdx i
          else
            match nextDelay delay with
            | some next => s.tasks.set i (next, keys)
            | none => s.tasks.eraseIdx i
        some { s.erase keys applied with tasks := tasks }
      else none
  | .expire key => some (s.erase [key] true)

/-- The step relation. -/
def Step (c : CachedConn δ κ ν η) (s : State τ δ κ) (e : Event τ δ κ) (s' : State τ δ κ) : Prop :=
  s.step c e = some s'

/-- All threads idle and nothing cached. -/
def init (db : δ) : State τ δ κ := ⟨db, fun _ => none, [], fun _ => .idle⟩

end State

end Sqlc
end ServiceKit
