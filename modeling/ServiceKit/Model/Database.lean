import ServiceKit.Lib.Transactions
import ServiceKit.Model.Operations

/-!
# `Model.Database` — the table behind a model

The calls of an operation on a table with transactions. An `Engine` says what a statement may answer and which
rows it then writes; it sees the table as the session does that the statement came through.
-/

namespace ServiceKit
namespace Model

open Lib

variable {T S X K W A E : Type} [DecidableEq T] [DecidableEq K]

/-- The session of a statement. -/
def Call.session : Call S X K W A → Option (Session S)
  | .lock => none
  | .unlock => none
  | .execCtx session _ => some session
  | .queryRowCtx session _ => some session
  | .queryRowsCtx session _ => some session
  | .queryCountCtx session _ => some session

/-- The reply to a statement is an error. -/
def Call.Failed : (c : Call S X K W A) → c.Reply X E → Prop
  | .lock, _ => False
  | .unlock, _ => False
  | .execCtx _ _, reply => ∃ err, reply = .error err
  | .queryRowCtx _ _, reply => ∃ err, reply = .error err
  | .queryRowsCtx _ _, reply => reply.2.isSome = true
  | .queryCountCtx _ _, reply => ∃ err, reply = .error err

/-- What the statements may answer on a table, and the rows they write. -/
structure Engine (S X K W A E : Type) where
  answers : (c : Call S X K W A) → Rows K X → c.Reply X E → List (K × Option X) → Prop

/-- Where a statement goes; `conn` is the `m.conn` of the model. -/
def Session.resolve (conn : Conn T) : Session (Conn T) → Conn T
  | .conn => conn
  | .session c => c

/-- The calls of a model on the table. -/
inductive Engine.Handles (eng : Engine (Conn T) X K W A E) (conn : Conn T) :
    (c : Call (Conn T) X K W A) → Transactions T K X → c.Reply X E → Transactions T K X → Prop where
  | locker {c s} (reply : c.Reply X E) (hsession : c.session = none) : eng.Handles conn c s reply s
  | statement {c s session rows es} {reply : c.Reply X E} (hsession : c.session = some session)
      (hread : s.read (session.resolve conn) = some rows) (hanswer : eng.answers c rows reply es) :
      eng.Handles conn c s reply (s.writeAll (session.resolve conn) es)
  /-- The transaction has ended. -/
  | closed {c s session} {reply : c.Reply X E} (hsession : c.session = some session)
      (hread : s.read (session.resolve conn) = none) (hfail : c.Failed reply) :
      eng.Handles conn c s reply s

/-- What a statement does: it answers, or its transaction has ended. -/
theorem Engine.Handles.inv {eng : Engine (Conn T) X K W A E} {conn : Conn T} {c : Call (Conn T) X K W A}
    {s s' : Transactions T K X} {reply : c.Reply X E} {session : Session (Conn T)}
    (h : eng.Handles conn c s reply s') (hsession : c.session = some session) :
    (∃ rows es, s.read (session.resolve conn) = some rows ∧ eng.answers c rows reply es ∧
        s' = s.writeAll (session.resolve conn) es) ∨
      s.read (session.resolve conn) = none ∧ c.Failed reply ∧ s' = s := by
  cases h with
  | locker _ hnone =>
      rw [hsession] at hnone
      exact absurd hnone (by simp)
  | statement hs hread hanswer =>
      obtain rfl := Option.some.inj (hsession.symm.trans hs)
      exact Or.inl ⟨_, _, hread, hanswer, rfl⟩
  | closed hs hread hfail =>
      obtain rfl := Option.some.inj (hsession.symm.trans hs)
      exact Or.inr ⟨hread, hfail, rfl⟩

/-- A call through a transaction writes in that transaction alone. -/
theorem Engine.Handles.sameBut {eng : Engine (Conn T) X K W A E} {conn : Conn T} {c : Call (Conn T) X K W A}
    {s s' : Transactions T K X} {reply : c.Reply X E} {t : T}
    (h : eng.Handles conn c s reply s')
    (hsession : c.session = none ∨ c.session = some (.session (.tx t))) :
    Transactions.SameBut t s s' := by
  cases h with
  | locker _ _ => exact .refl t _
  | statement hs _ _ =>
      rw [hs] at hsession
      obtain rfl := Option.some.inj (hsession.resolve_left (by simp))
      exact Transactions.sameBut_writeAll ..
  | closed _ _ _ => exact .refl t _

/-- An engine that knows its conditions: what the statements of `InsertOrUpdate` answer and write. A row as it is
    read has its primary key. -/
structure SqlEngine (T : Type) (m : DefaultModel X K W A E) extends Engine (Conn T) X K W A E where
  holds : W → K → X → Prop
  holds_primaryKeyEqual : ∀ {id k x}, holds (m.primaryKeyEqual id) k x → k = id
  reads : ∀ {session query rows reply es}, answers (.queryRowCtx session query) rows reply es → es = []
  found : ∀ {session whereCond rows x es},
    answers (.queryRowCtx session (.select "*" whereCond 0 1)) rows (.ok x) es →
      ∃ row, rows (m.primaryKey x) = some row ∧ holds whereCond (m.primaryKey x) row
  notFound : ∀ {session whereCond rows es},
    answers (.queryRowCtx session (.select "*" whereCond 0 1)) rows (.error m.errNotFound) es →
      ∀ k row, rows k = some row → ¬ holds whereCond k row
  inserts : ∀ {session data rows reply es},
    answers (.execCtx session (.insert data)) rows reply es → es = [] ∨ ∃ e, es = [e]
  updates : ∀ {session x columns whereCond rows reply es},
    answers (.execCtx session (.update x columns whereCond)) rows reply es →
      ∀ e ∈ es, ∃ row, rows e.1 = some row ∧ holds whereCond e.1 row

/-! ## A table of users -/

/-- A condition on users: on the primary key, or the name. -/
inductive UserCond where
  | keys (conditions : List (Condition ℕ))
  | named (name : String)
  deriving DecidableEq

/-- The users that meet a condition. -/
def UserCond.holds (whereCond : UserCond) (user : ℕ × String) : Bool :=
  match whereCond with
  | .keys conditions =>
      conditions.all fun c =>
        match c.value with
        | .one id => user.1 == id
        | .list ids => ids.contains user.1
  | .named name => user.2 == name

/-- The model of a table of users, an id and a name; nothing is refused but a nil row. -/
def users : DefaultModel (ℕ × String) ℕ UserCond String String where
  upperStartCamelObject := "User"
  lowerStartCamelPrimaryKey := "id"
  originalPrimaryKey := "id"
  primaryKey := Prod.fst
  setPrimaryKey user id := (id, user.2)
  primaryKey_setPrimaryKey _ _ := rfl
  showKey := toString
  convert := Int.toNat
  sqlBuilder :=
    ⟨fun statement => if statement = .insert none then some "nil data" else none, fun _ => none⟩
  logicCondition := .keys
  generateWhereClause
    | .keys [] => ("", [])
    | .keys (_ :: _) => ("id in (?)", ["ids"])
    | .named name => ("name = ?", [name])
  getPage page maxLimit :=
    let pageSize := if 0 < page.pageSize ∧ page.pageSize ≤ maxLimit then page.pageSize else maxLimit
    let pageNow := if 0 < page.pageNow then page.pageNow else 1
    ⟨pageNow, pageSize, (pageNow - 1) * pageSize⟩
  errNotFound := "sql: no rows in result set"

/-- What the statements on users answer, where nothing fails. -/
inductive UserAnswers : (c : Call (Conn T) (ℕ × String) ℕ UserCond String) → Rows ℕ (ℕ × String) →
    c.Reply (ℕ × String) String → List (ℕ × Option (ℕ × String)) → Prop where
  | insert {session rows} (user : ℕ × String) (id : ℕ) (hfree : rows id = none) :
      UserAnswers (.execCtx session (.insert (some user))) rows (.ok (some (.ok id)))
        [(id, some (id, user.2))]
  | update {session rows columns whereCond id row} (user : ℕ × String) (hrow : rows id = some row)
      (hholds : UserCond.holds whereCond (id, row.2) = true) :
      UserAnswers (.execCtx session (.update user columns whereCond)) rows (.ok (some (.ok 0)))
        [(id, some (id, user.2))]
  | found {session rows whereCond id row} (hrow : rows id = some row)
      (hholds : UserCond.holds whereCond (id, row.2) = true) :
      UserAnswers (.queryRowCtx session (.select "*" whereCond 0 1)) rows (.ok (id, row.2)) []
  | notFound {session rows whereCond}
      (hnone : ∀ id row, rows id = some row → ¬ UserCond.holds whereCond (id, row.2) = true) :
      UserAnswers (.queryRowCtx session (.select "*" whereCond 0 1)) rows
        (.error "sql: no rows in result set") []
  | byPrimaryKey {session rows id row} (hrow : rows id = some row) :
      UserAnswers (.queryRowCtx session (.byPrimaryKey id)) rows (.ok (id, row.2)) []

def userEngine : SqlEngine T users where
  answers := UserAnswers
  holds whereCond id user := UserCond.holds whereCond (id, user.2) = true
  holds_primaryKeyEqual := by
    intro id k x h
    simpa [users, DefaultModel.primaryKeyEqual, UserCond.holds] using h
  reads := by
    intro session query rows reply es h
    cases h <;> rfl
  found := by
    intro session whereCond rows x es h
    cases h with
    | found hrow hholds => exact ⟨_, hrow, hholds⟩
  notFound := by
    intro session whereCond rows es h
    cases h with
    | notFound hnone => exact hnone
  inserts := by
    intro session data rows reply es h
    cases h with
    | insert user id _ => exact Or.inr ⟨_, rfl⟩
  updates := by
    intro session x columns whereCond rows reply es h e he
    cases h with
    | update user hrow hholds =>
        obtain rfl := List.mem_singleton.mp he
        exact ⟨_, hrow, hholds⟩

end Model
end ServiceKit
