import ServiceKit.Model.Basic

/-!
# `Model.Operations` — the operations of a generated model

`insert.tpl`, `find-one.tpl`, `find-one-by-field.tpl`, `update.tpl` and `delete.tpl`, without a cache: the
operations that take a session. Each chooses its session itself, and those that call others hand theirs on.
-/

namespace ServiceKit
namespace Model

open Lib

variable {S X K W A E : Type} [DecidableEq E]

/-- The `return nil, err` after `if err != nil`. -/
def Failure.external (err : E) : Failure E := .err (.external err)

/-- `fmt.Errorf`. -/
def Failure.errorf (msg : String) : Failure E := .err (.text msg)

namespace DefaultModel

variable (m : DefaultModel X K W A E)

/-! ## Reads -/

/-- The switch after `QueryRowCtx`: no row is no error. -/
def scanned (reply : Except E X) : Except (Failure E) (Option X) :=
  match reply with
  | .ok resp => .ok (some resp)
  | .error err => if err = m.errNotFound then .ok none else .error (.external err)

/-- `FindOne`. -/
def findOne (id : K) (session : SessionArgs S) : Op S X K W A E (Except (Failure E) (Option X)) := do
  let reply ← (oneSession session).queryRowCtx (.byPrimaryKey id)
  return m.scanned reply

/-- `FindX`. -/
def findX (whereCond : W) (session : SessionArgs S) : Op S X K W A E (Except (Failure E) (Option X)) :=
  match m.sqlBuilder.selectSql "*" whereCond 0 1 with
  | .error err => return .error (.external err)
  | .ok query => do
      let reply ← (oneSession session).queryRowCtx query
      return m.scanned reply

/-- `FindXByField`. -/
def findXByField (field : String) (args : List A) (session : SessionArgs S) :
    Op S X K W A E (Except (Failure E) (Option X)) := do
  let reply ← (oneSession session).queryRowCtx (.byField field args)
  return m.scanned reply

/-- `CountX`. -/
def countX (whereCond : W) (session : SessionArgs S) : Op S X K W A E (Except (Failure E) ℤ) :=
  match m.sqlBuilder.selectSql "COUNT(*)" whereCond 0 0 with
  | .error err => return .error (.external err)
  | .ok query => do
      let reply ← (oneSession session).queryCountCtx query
      return reply.mapError .external

/-- What `ListXByPage` returns: a list, a total and an error. -/
structure Page (X E : Type) where
  list : List X
  total : ℤ
  err : Option (Failure E)

/-- The page model that `ListXByPage` goes on with; nil is a page without limits. -/
def pageOf (pageModel : Option PageModel) (maxLimit : ℤ) : PageModel :=
  match pageModel with
  | none => if maxLimit > 0 then m.getPage ⟨0, 0, 0⟩ maxLimit else ⟨0, 0, 0⟩
  | some pageModel =>
      let maxLimit := if pageModel.pageSize > 0 ∧ maxLimit = 0 then 100 else maxLimit
      if maxLimit > 0 then m.getPage pageModel maxLimit else pageModel

/-- The query of `ListXByPage`, and `useCount`. -/
def pageQuery (whereCond : W) (page : PageModel) (orderBy : String) : Except E (Query K W A × Bool) :=
  if orderBy = "" then
    (m.sqlBuilder.selectSql "*" whereCond page.pageOffset page.pageSize).map fun query => (query, false)
  else
    (m.sqlBuilder.selectSql "*" whereCond 0 0).map fun query =>
      if page.pageNow > 0 ∧ page.pageSize > 0 then
        (.limited (.ordered query orderBy) page.pageOffset page.pageSize, true)
      else (.ordered query orderBy, false)

/-- `ListXByPage`; without a page model it does not count. -/
def listXByPage (whereCond : W) (pageModel : Option PageModel) (maxLimit : ℤ) (orderBy : String)
    (session : SessionArgs S) : Op S X K W A E (Page X E) :=
  match m.pageQuery whereCond (m.pageOf pageModel maxLimit) orderBy with
  | .error err => return ⟨[], 0, some (.external err)⟩
  | .ok (query, useCount) => do
      let reply ← (oneSession session).queryRowsCtx query
      let list := reply.1
      match reply.2 with
      | some err => return ⟨list, list.length, some (.external err)⟩
      | none =>
          if pageModel.isNone || !useCount then return ⟨list, list.length, none⟩
          else
            let total ← m.countX whereCond session
            match total with
            | .error err => return ⟨list, list.length, some err⟩
            | .ok total => return ⟨list, total, none⟩

/-- `ListX`. -/
def listX (whereCond : W) (session : SessionArgs S) :
    Op S X K W A E (List X × Option (Failure E)) := do
  let page ← m.listXByPage whereCond none 0 "" session
  return (page.list, page.err)

/-! ## Writes -/

/-- `Insert`; the result may be nil. -/
def insert (data : Option X) (session : SessionArgs S) :
    Op S X K W A E (Except (Failure E) (Option (SqlResult E))) :=
  match m.sqlBuilder.sql (.insert data) with
  | .error err => return .error (.external err)
  | .ok statement => do
      let reply ← (oneSession session).execCtx statement
      return reply.mapError .external

/-- `InsertList`. -/
def insertList (dataList : List (Option X)) (session : SessionArgs S) :
    Op S X K W A E (Except (Failure E) (Option (SqlResult E))) :=
  match m.sqlBuilder.sql (.insertList dataList) with
  | .error err => return .error (.external err)
  | .ok statement => do
      let reply ← (oneSession session).execCtx statement
      return reply.mapError .external

/-- The condition on the primary key that `Update` and `Delete` write. -/
def primaryKeyEqual (id : K) : W := m.logicCondition [⟨m.originalPrimaryKey, .operatorEqual, .one id⟩]

/-- `GenerateWhereClause` gives no text, or no values. -/
def emptyWhere (whereCondition : W) : Prop :=
  (m.generateWhereClause whereCondition).2.length = 0 ∨ (m.generateWhereClause whereCondition).1 = ""

instance (whereCondition : W) : Decidable (m.emptyWhere whereCondition) := instDecidableOr

/-- The error of an `ExecCtx` whose result is dropped. -/
def executed (reply : Except E (Option (SqlResult E))) : Except (Failure E) Unit :=
  match reply with
  | .error err => .error (.external err)
  | .ok _ => .ok ()

/-- `updatePartialBySession`; a nil session is `m.conn`. -/
def updatePartialBySession (session : Option (Session S)) (data : Option X) (columns : List String)
    (whereCondition : W) : Op S X K W A E (Except (Failure E) Unit) :=
  match data with
  | none => return .ok ()
  | some data =>
      if m.emptyWhere whereCondition then return .error (.errorf "param update where empty")
      else
        match m.sqlBuilder.sql (.update data columns whereCondition) with
        | .error err => return .error (.external err)
        | .ok query => do
            let reply ← (session.getD .conn).execCtx query
            return executed reply

/-- `Update`. -/
def update (data : Option X) (session : SessionArgs S) : Op S X K W A E (Except (Failure E) Unit) :=
  match data with
  | none => return .error .nilPointer
  | some x =>
      m.updatePartialBySession (some (oneSession session)) data [] (m.primaryKeyEqual (m.primaryKey x))

/-- `UpdatePartial`. -/
def updatePartial (data : Option X) (columns : List String) (whereCondition : W) (session : SessionArgs S) :
    Op S X K W A E (Except (Failure E) Unit) :=
  m.updatePartialBySession (some (oneSession session)) data columns whereCondition

/-- A `func(data *X) error`, that is, what it makes of the data and what it returns. -/
abbrev UpdateFunc (X E : Type) := X → X × Option E

/-- What `UpdatePartialByFunc` does with what its `FindOne` returns. -/
def updateRead (id : K) (updateFunc : Option (UpdateFunc X E)) (session : SessionArgs S)
    (found : Except (Failure E) (Option X)) : Op S X K W A E (Except (Failure E) Unit) :=
  match found with
  | .error err => return .error err
  | .ok none => return .error (.errorf (m.upperStartCamelObject ++ " : " ++ m.showKey id ++ " not found"))
  | .ok (some one) =>
      match updateFunc with
      | none => return .error .nilPointer
      | some updateFunc =>
          match updateFunc one with
          | (_, some err) => return .error (.external err)
          | (one, none) => m.update (some (m.setPrimaryKey one id)) session

/-- `UpdatePartialByFunc`. -/
def updatePartialByFunc (id : K) (updateFunc : Option (UpdateFunc X E)) (session : SessionArgs S) :
    Op S X K W A E (Except (Failure E) Unit) := do
  let found ← m.findOne id session
  m.updateRead id updateFunc session found

/-- `DeleteByWhere`. -/
def deleteByWhere (whereCondition : W) (session : SessionArgs S) :
    Op S X K W A E (Except (Failure E) Unit) :=
  if m.emptyWhere whereCondition then return .error (.errorf "param delete where empty")
  else
    match m.sqlBuilder.sql (.delete whereCondition) with
    | .error err => return .error (.external err)
    | .ok query => do
        let reply ← (oneSession session).execCtx query
        return executed reply

/-- `Delete`. -/
def delete (id : K) (session : SessionArgs S) : Op S X K W A E (Except (Failure E) Unit) :=
  m.deleteByWhere (m.primaryKeyEqual id) session

/-- `DeleteList`. -/
def deleteList (ids : List K) (session : SessionArgs S) : Op S X K W A E (Except (Failure E) Unit) :=
  if ids.length = 0 then
    return .error (.errorf ("param " ++ m.lowerStartCamelPrimaryKey ++ "List empty"))
  else m.deleteByWhere (m.logicCondition [⟨m.originalPrimaryKey, .operatorIn, .list ids⟩]) session

/-! ## `InsertOrUpdate` -/

/-- What `InsertOrUpdate` returns after its `Insert`. -/
def insertResult (data : Option X) (inserted : Except (Failure E) (Option (SqlResult E))) :
    Except (Failure E) X :=
  match inserted with
  | .error err => .error err
  | .ok none => .error (.errorf "insert fail")
  | .ok (some (.error err)) => .error (.external err)
  | .ok (some (.ok lastId)) =>
      match data with
      | none => .error .nilPointer
      | some data => .ok (m.setPrimaryKey data (m.convert lastId))

/-- What it does with the row it found; `updateFunc` is applied to that row once more for the result. -/
def updateFound (data : Option X) (newData : X) (updateFunc : Option (UpdateFunc X E))
    (sessionTemp : Session S) : Op S X K W A E (Except (Failure E) X) :=
  match data, updateFunc with
  | none, _ => return .error .nilPointer
  | some data, none => do
      let updated ← m.update (some (m.setPrimaryKey data (m.primaryKey newData))) [some sessionTemp]
      return updated.map fun _ => newData
  | some _, some updateFunc => do
      let updated ← m.updatePartialByFunc (m.primaryKey newData) (some updateFunc) [some sessionTemp]
      return updated.map fun _ => m.setPrimaryKey (updateFunc newData).1 (m.primaryKey newData)

/-- What `insertFunc` does with what its `FindX` returns. -/
def upsertFound (data : Option X) (updateFunc : Option (UpdateFunc X E)) (sessionTemp : Session S)
    (found : Except (Failure E) (Option X)) : Op S X K W A E (Except (Failure E) X) :=
  match found with
  | .error err => return .error err
  | .ok none => do
      let inserted ← m.insert data [some sessionTemp]
      return m.insertResult data inserted
  | .ok (some newData) => m.updateFound data newData updateFunc sessionTemp

/-- `insertFunc` of `InsertOrUpdate`. -/
def insertFunc (data : Option X) (whereCond : W) (updateFunc : Option (UpdateFunc X E))
    (sessionTemp : Session S) : Op S X K W A E (Except (Failure E) X) := do
  let found ← m.findX whereCond [some sessionTemp]
  m.upsertFound data updateFunc sessionTemp found

/-- `InsertOrUpdate`. -/
def insertOrUpdate (data : Option X) (uniqFunc : Option (Option X → W))
    (updateFunc : Option (UpdateFunc X E)) (session : SessionArgs S) :
    Op S X K W A E (Except (Failure E) X) :=
  match uniqFunc with
  | none => return .error (.errorf "param uniqFunc empty")
  | some uniqFunc => do
      lock
      let result ← m.insertFunc data (uniqFunc data) updateFunc (oneSession session)
      unlock
      return result

end DefaultModel

end Model
end ServiceKit
