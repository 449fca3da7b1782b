import Mathlib.Data.Int.Notation
import ServiceKit.Lib.GoError
import ServiceKit.Lib.Interaction

/-!
# `Model.Basic` — what a generated model is made of

The templates of `go-zero/goctl-tmpl/model` generate one model for each table: `X` are its rows and `K` their
primary keys. The SQL is written by `sqlstatement`, which may refuse; what it writes is kept as a `Statement`
or a `Query`, that is, by how it was made and not as a text. `W` are its conditions.

An operation is a program: its calls are statements, on `m.conn` or on a session, and those of `insertLocker`.
-/

namespace ServiceKit
namespace Model

open Lib

variable {S X K W A E : Type}

/-- A `sqlx.Session`: the `m.conn` of the model, or one that a caller has. -/
inductive Session (S : Type) where
  | conn
  | session (s : S)
  deriving DecidableEq

/-- The variadic `session ...sqlx.Session`; each may be nil. -/
abbrev SessionArgs (S : Type) := List (Option (Session S))

inductive Operator where
  | operatorEqual
  | operatorIn
  deriving DecidableEq

/-- The value of a condition on the primary key. -/
inductive Value (K : Type) where
  | one (id : K)
  | list (ids : List K)
  deriving DecidableEq

/-- `sqlstatement.Condition`. -/
structure Condition (K : Type) where
  field : String
  operator : Operator
  value : Value K
  deriving DecidableEq

/-- What `InsertSql`, `UpdateSql` and `DeleteSql` write. -/
inductive Statement (X W : Type) where
  | insert (data : Option X)
  | insertList (dataList : List (Option X))
  | update (data : X) (columns : List String) (whereCond : W)
  | delete (whereCond : W)
  deriving DecidableEq

/-- What `SelectSql` writes, the finders' own queries, and what `ListXByPage` adds to a query. -/
inductive Query (K W A : Type) where
  | select (columns : String) (whereCond : W) (offset limit : ℤ)
  | byPrimaryKey (id : K)
  | byField (field : String) (args : List A)
  | ordered (query : Query K W A) (orderBy : String)
  | limited (query : Query K W A) (offset limit : ℤ)
  deriving DecidableEq

/-- `httputil.PageModel`. -/
structure PageModel where
  pageNow : ℤ
  pageSize : ℤ
  pageOffset : ℤ
  deriving DecidableEq

/-- `sqlstatement.SqlStruct`, by what it refuses to write. -/
structure SqlStruct (X K W A E : Type) where
  refuses : Statement X W → Option E
  refusesQuery : Query K W A → Option E

/-- `InsertSql`, `UpdateSql`, `DeleteSql`. -/
def SqlStruct.sql (b : SqlStruct X K W A E) (statement : Statement X W) : Except E (Statement X W) :=
  match b.refuses statement with
  | some err => .error err
  | none => .ok statement

def SqlStruct.selectSql (b : SqlStruct X K W A E) (columns : String) (whereCond : W) (offset limit : ℤ) :
    Except E (Query K W A) :=
  match b.refusesQuery (.select columns whereCond offset limit) with
  | some err => .error err
  | none => .ok (.select columns whereCond offset limit)

/-- `defaultXModel`, with what the template is filled with and what it uses of other packages: `primaryKey` is the
    field of the primary key, `showKey` its `%v`, `convert` is `conv.Convert` of a last insert id. -/
structure DefaultModel (X K W A E : Type) where
  upperStartCamelObject : String
  lowerStartCamelPrimaryKey : String
  originalPrimaryKey : String
  primaryKey : X → K
  setPrimaryKey : X → K → X
  primaryKey_setPrimaryKey : ∀ x id, primaryKey (setPrimaryKey x id) = id
  showKey : K → String
  convert : ℤ → K
  sqlBuilder : SqlStruct X K W A E
  logicCondition : List (Condition K) → W
  generateWhereClause : W → String × List A
  getPage : PageModel → ℤ → PageModel
  errNotFound : E

/-- What an operation returns instead of a result. -/
inductive Failure (E : Type) where
  | err (err : GoErr E)
  | nilPointer
  deriving DecidableEq

/-- A `sql.Result`, by the answer of its `LastInsertId`. -/
abbrev SqlResult (E : Type) := Except E ℤ

/-! ## Calls -/

/-- What an operation calls outside the model. -/
inductive Call (S X K W A : Type) where
  | lock
  | unlock
  | execCtx (session : Session S) (statement : Statement X W)
  | queryRowCtx (session : Session S) (query : Query K W A)
  | queryRowsCtx (session : Session S) (query : Query K W A)
  | queryCountCtx (session : Session S) (query : Query K W A)

/-- What comes back. A `sql.Result` may be nil, and the rows read before an error are kept. -/
abbrev Call.Reply (X E : Type) : Call S X K W A → Type
  | .lock => Unit
  | .unlock => Unit
  | .execCtx _ _ => Except E (Option (SqlResult E))
  | .queryRowCtx _ _ => Except E X
  | .queryRowsCtx _ _ => List X × Option E
  | .queryCountCtx _ _ => Except E ℤ

/-- An operation of a model. -/
abbrev Op (S X K W A E α : Type) := Program (Call S X K W A) (Call.Reply X E) α

variable {α : Type}

/-- `insertLocker.Lock()`. -/
def lock : Op S X K W A E Unit := Program.perform Call.lock

/-- `insertLocker.Unlock()`. -/
def unlock : Op S X K W A E Unit := Program.perform Call.unlock

def Session.execCtx (session : Session S) (statement : Statement X W) :
    Op S X K W A E (Except E (Option (SqlResult E))) :=
  Program.perform (Call.execCtx session statement)

def Session.queryRowCtx (session : Session S) (query : Query K W A) : Op S X K W A E (Except E X) :=
  Program.perform (Call.queryRowCtx session query)

def Session.queryRowsCtx (session : Session S) (query : Query K W A) : Op S X K W A E (List X × Option E) :=
  Program.perform (Call.queryRowsCtx session query)

/-- `QueryRowCtx` into an `int64`. -/
def Session.queryCountCtx (session : Session S) (query : Query K W A) : Op S X K W A E (Except E ℤ) :=
  Program.perform (Call.queryCountCtx session query)

/-- `oneSession`: the first session, or `m.conn` where there is none or it is nil. -/
def oneSession (session : SessionArgs S) : Session S :=
  match session with
  | some session :: _ => session
  | _ => .conn

@[simp] theorem oneSession_some (session : Session S) (rest : SessionArgs S) :
    oneSession (some session :: rest) = session := rfl

end Model
end ServiceKit
