import ServiceKit.Model.Database

/-!
# `Correctness.Confinement` — the session of every statement

Each operation sends every statement through the session that it chose (`calls_program`), also the ones of the
operations that it calls. So what is done in a transaction stays there until it commits.
-/

namespace ServiceKit
namespace Model

open Lib

variable {T S X K W A E : Type}

/-- An operation that takes a session. -/
inductive SessionOp (X K W A E : Type) where
  | insert (data : Option X)
  | insertList (dataList : List (Option X))
  | insertOrUpdate (data : Option X) (uniqFunc : Option (Option X → W))
      (updateFunc : Option (DefaultModel.UpdateFunc X E))
  | findOne (id : K)
  | findX (whereCond : W)
  | findXByField (field : String) (args : List A)
  | listX (whereCond : W)
  | listXByPage (whereCond : W) (pageModel : Option PageModel) (maxLimit : ℤ) (orderBy : String)
  | countX (whereCond : W)
  | update (data : Option X)
  | updatePartial (data : Option X) (columns : List String) (whereCondition : W)
  | updatePartialByFunc (id : K) (updateFunc : Option (DefaultModel.UpdateFunc X E))
  | delete (id : K)
  | deleteList (ids : List K)
  | deleteByWhere (whereCondition : W)

/-- What the operation returns. -/
abbrev SessionOp.Result : SessionOp X K W A E → Type
  | .insert _ => Except (Failure E) (Option (SqlResult E))
  | .insertList _ => Except (Failure E) (Option (SqlResult E))
  | .insertOrUpdate _ _ _ => Except (Failure E) X
  | .findOne _ => Except (Failure E) (Option X)
  | .findX _ => Except (Failure E) (Option X)
  | .findXByField _ _ => Except (Failure E) (Option X)
  | .listX _ => List X × Option (Failure E)
  | .listXByPage _ _ _ _ => DefaultModel.Page X E
  | .countX _ => Except (Failure E) ℤ
  | .update _ => Except (Failure E) Unit
  | .updatePartial _ _ _ => Except (Failure E) Unit
  | .updatePartialByFunc _ _ => Except (Failure E) Unit
  | .delete _ => Except (Failure E) Unit
  | .deleteList _ => Except (Failure E) Unit
  | .deleteByWhere _ => Except (Failure E) Unit

def DefaultModel.program [DecidableEq E] (m : DefaultModel X K W A E) :
    (op : SessionOp X K W A E) → SessionArgs S → Op S X K W A E op.Result
  | .insert data => m.insert data
  | .insertList dataList => m.insertList dataList
  | .insertOrUpdate data uniqFunc updateFunc => m.insertOrUpdate data uniqFunc updateFunc
  | .findOne id => m.findOne id
  | .findX whereCond => m.findX whereCond
  | .findXByField field args => m.findXByField field args
  | .listX whereCond => m.listX whereCond
  | .listXByPage whereCond pageModel maxLimit orderBy => m.listXByPage whereCond pageModel maxLimit orderBy
  | .countX whereCond => m.countX whereCond
  | .update data => m.update data
  | .updatePartial data columns whereCondition => m.updatePartial data columns whereCondition
  | .updatePartialByFunc id updateFunc => m.updatePartialByFunc id updateFunc
  | .delete id => m.delete id
  | .deleteList ids => m.deleteList ids
  | .deleteByWhere whereCondition => m.deleteByWhere whereCondition

/-! ## One operation -/

/-- The call is one of the locker, or a statement through the session. -/
def Call.Through (session : Session S) (c : Call S X K W A) : Prop :=
  c.session = none ∨ c.session = some session

section Calls

variable (m : DefaultModel X K W A E) (session : SessionArgs S)

theorem calls_execCtx (session : Session S) (statement : Statement X W) :
    (session.execCtx statement : Op S X K W A E _).Calls (Call.Through session) := by
  simp [Session.execCtx, Call.Through, Call.session]

theorem calls_queryRowCtx (session : Session S) (query : Query K W A) :
    (session.queryRowCtx query : Op S X K W A E _).Calls (Call.Through session) := by
  simp [Session.queryRowCtx, Call.Through, Call.session]

theorem calls_queryRowsCtx (session : Session S) (query : Query K W A) :
    (session.queryRowsCtx query : Op S X K W A E _).Calls (Call.Through session) := by
  simp [Session.queryRowsCtx, Call.Through, Call.session]

theorem calls_queryCountCtx (session : Session S) (query : Query K W A) :
    (session.queryCountCtx query : Op S X K W A E _).Calls (Call.Through session) := by
  simp [Session.queryCountCtx, Call.Through, Call.session]

theorem calls_countX (whereCond : W) :
    (m.countX whereCond session).Calls (Call.Through (oneSession session)) := by
  unfold DefaultModel.countX
  cases m.sqlBuilder.selectSql "COUNT(*)" whereCond 0 0 with
  | error err => simp
  | ok query =>
      apply Program.Calls.bind (calls_queryCountCtx _ _)
      simp

theorem calls_listXByPage (whereCond : W) (pageModel : Option PageModel) (maxLimit : ℤ) (orderBy : String) :
    (m.listXByPage whereCond pageModel maxLimit orderBy session).Calls
      (Call.Through (oneSession session)) := by
  unfold DefaultModel.listXByPage
  cases m.pageQuery whereCond (m.pageOf pageModel maxLimit) orderBy with
  | error err => simp
  | ok query =>
      apply Program.Calls.bind (calls_queryRowsCtx _ _)
      rintro ⟨list, _ | err⟩
      · -- the count goes through the session too
        by_cases hcount : (pageModel.isNone || !query.2) = true
        · simp [hcount]
        · simp only [hcount]
          apply Program.Calls.bind (calls_countX m session whereCond)
          rintro (err | total)
          · simp
          · simp
      · simp

theorem calls_listX (whereCond : W) :
    (m.listX whereCond session).Calls (Call.Through (oneSession session)) := by
  apply Program.Calls.bind (calls_listXByPage m session whereCond none 0 "")
  simp

theorem calls_insert (data : Option X) :
    (m.insert data session).Calls (Call.Through (oneSession session)) := by
  unfold DefaultModel.insert
  cases m.sqlBuilder.sql (.insert data) with
  | error err => simp
  | ok statement =>
      apply Program.Calls.bind (calls_execCtx _ _)
      simp

theorem calls_insertList (dataList : List (Option X)) :
    (m.insertList dataList session).Calls (Call.Through (oneSession session)) := by
  unfold DefaultModel.insertList
  cases m.sqlBuilder.sql (.insertList dataList) with
  | error err => simp
  | ok statement =>
      apply Program.Calls.bind (calls_execCtx _ _)
      simp

theorem calls_updatePartialBySession (session : Session S) (data : Option X) (columns : List String)
    (whereCondition : W) :
    (m.updatePartialBySession (some session) data columns whereCondition).Calls (Call.Through session) := by
  unfold DefaultModel.updatePartialBySession
  cases data with
  | none => simp
  | some data =>
      by_cases hempty : m.emptyWhere whereCondition
      · simp [hempty]
      · simp only [hempty, if_false]
        cases m.sqlBuilder.sql (.update data columns whereCondition) with
        | error err => simp
        | ok query =>
            apply Program.Calls.bind (calls_execCtx _ _)
            simp

theorem calls_update (data : Option X) :
    (m.update data session).Calls (Call.Through (oneSession session)) := by
  cases data with
  | none => simp [DefaultModel.update]
  | some data =>
      unfold DefaultModel.update
      exact calls_updatePartialBySession m (oneSession session) (some data) [] _

theorem calls_deleteByWhere (whereCondition : W) :
    (m.deleteByWhere whereCondition session).Calls (Call.Through (oneSession session)) := by
  unfold DefaultModel.deleteByWhere
  by_cases hempty : m.emptyWhere whereCondition
  · simp [hempty]
  · simp only [hempty, if_false]
    cases m.sqlBuilder.sql (.delete whereCondition) with
    | error err => simp
    | ok query =>
        apply Program.Calls.bind (calls_execCtx _ _)
        simp

theorem calls_deleteList (ids : List K) :
    (m.deleteList ids session).Calls (Call.Through (oneSession session)) := by
  unfold DefaultModel.deleteList
  by_cases hids : ids.length = 0
  · simp [hids]
  · rw [if_neg hids]
    exact calls_deleteByWhere m session _

variable [DecidableEq E]

theorem calls_findOne (id : K) : (m.findOne id session).Calls (Call.Through (oneSession session)) := by
  apply Program.Calls.bind (calls_queryRowCtx _ _)
  simp

theorem calls_findX (whereCond : W) :
    (m.findX whereCond session).Calls (Call.Through (oneSession session)) := by
  unfold DefaultModel.findX
  cases m.sqlBuilder.selectSql "*" whereCond 0 1 with
  | error err => simp
  | ok query =>
      apply Program.Calls.bind (calls_queryRowCtx _ _)
      simp

theorem calls_findXByField (field : String) (args : List A) :
    (m.findXByField field args session).Calls (Call.Through (oneSession session)) := by
  apply Program.Calls.bind (calls_queryRowCtx _ _)
  simp

theorem calls_updatePartialByFunc (id : K) (updateFunc : Option (DefaultModel.UpdateFunc X E)) :
    (m.updatePartialByFunc id updateFunc session).Calls (Call.Through (oneSession session)) := by
  apply Program.Calls.bind (calls_findOne m session id)
  rintro (err | _ | one)
  · simp [DefaultModel.updateRead]
  · simp [DefaultModel.updateRead]
  · unfold DefaultModel.updateRead
    cases updateFunc with
    | none => simp
    | some updateFunc =>
        rcases hupdate : updateFunc one with ⟨one, _ | err⟩
        · simpa only [hupdate] using calls_update m session _
        · simp [hupdate]

theorem calls_insertFunc (data : Option X) (whereCond : W)
    (updateFunc : Option (DefaultModel.UpdateFunc X E)) (sessionTemp : Session S) :
    (m.insertFunc data whereCond updateFunc sessionTemp).Calls (Call.Through sessionTemp) := by
  apply Program.Calls.bind (calls_findX m [some sessionTemp] whereCond)
  rintro (err | _ | newData)
  · simp [DefaultModel.upsertFound]
  · apply Program.Calls.bind (calls_insert m [some sessionTemp] data)
    simp
  · unfold DefaultModel.upsertFound DefaultModel.updateFound
    rcases data with _ | data
    · simp
    · rcases updateFunc with _ | updateFunc
      · apply Program.Calls.bind (calls_update m [some sessionTemp] _)
        simp
      · apply Program.Calls.bind (calls_updatePartialByFunc m [some sessionTemp] _ _)
        simp

theorem calls_insertOrUpdate (data : Option X) (uniqFunc : Option (Option X → W))
    (updateFunc : Option (DefaultModel.UpdateFunc X E)) :
    (m.insertOrUpdate data uniqFunc updateFunc session).Calls (Call.Through (oneSession session)) := by
  cases uniqFunc with
  | none => simp [DefaultModel.insertOrUpdate]
  | some uniqFunc =>
      refine ⟨Or.inl rfl, fun _ => ?_⟩
      apply Program.Calls.bind (calls_insertFunc m data (uniqFunc data) updateFunc (oneSession session))
      exact fun _ => ⟨Or.inl rfl, fun _ => trivial⟩

/-- **Every statement of an operation goes through the session it chose.** -/
theorem calls_program (op : SessionOp X K W A E) :
    (m.program op session).Calls (Call.Through (oneSession session)) := by
  cases op with
  | insert data => exact calls_insert m session data
  | insertList dataList => exact calls_insertList m session dataList
  | insertOrUpdate data uniqFunc updateFunc => exact calls_insertOrUpdate m session data uniqFunc updateFunc
  | findOne id => exact calls_findOne m session id
  | findX whereCond => exact calls_findX m session whereCond
  | findXByField field args => exact calls_findXByField m session field args
  | listX whereCond => exact calls_listX m session whereCond
  | listXByPage whereCond pageModel maxLimit orderBy =>
      exact calls_listXByPage m session whereCond pageModel maxLimit orderBy
  | countX whereCond => exact calls_countX m session whereCond
  | update data => exact calls_update m session data
  | updatePartial data columns whereCondition =>
      exact calls_updatePartialBySession m (oneSession session) data columns whereCondition
  | updatePartialByFunc id updateFunc => exact calls_updatePartialByFunc m session id updateFunc
  | delete id => exact calls_deleteByWhere m session _
  | deleteList ids => exact calls_deleteList m session ids
  | deleteByWhere whereCondition => exact calls_deleteByWhere m session whereCondition

end Calls

/-! ## A transaction -/

variable [DecidableEq T] [DecidableEq K] [DecidableEq E]

/-- An operation of a model of the table, with the transaction as its session, run to its end; `conn` is the
    `m.conn` of that model, and `rest` the further arguments. -/
def OpInTx (m : DefaultModel X K W A E) (eng : Engine (Conn T) X K W A E) (t : T) (s : Transactions T K X)
    (label : Conn T × SessionOp X K W A E × SessionArgs (Conn T)) (s' : Transactions T K X) : Prop :=
  ∃ result, (m.program label.2.1 (some (.session (.tx t)) :: label.2.2)).Ends (eng.Handles label.1) s
    result s'

theorem opInTx_sameBut {m : DefaultModel X K W A E} {eng : Engine (Conn T) X K W A E} {t : T}
    {s s' : Transactions T K X} {label : Conn T × SessionOp X K W A E × SessionArgs (Conn T)}
    (h : OpInTx m eng t s label s') : Transactions.SameBut t s s' := by
  obtain ⟨result, hends⟩ := h
  have hstep : ∀ (c : Call (Conn T) X K W A) (u : Transactions T K X) (reply : c.Reply X E)
      (u' : Transactions T K X), c.Through (.session (.tx t)) → Transactions.SameBut t s u →
      eng.Handles label.1 c u reply u' → Transactions.SameBut t s u' :=
    fun _ _ _ _ hthrough hsame hcall => hsame.trans (hcall.sameBut hthrough)
  exact hends.preserves (calls_program m _ label.2.1) hstep (.refl t s)

/-- **Session confinement.** With a session, an operation sends no statement to `m.conn` and every statement to
    that session; and a transaction of any operations that is rolled back leaves the table as it was. -/
theorem session_confined (m : DefaultModel X K W A E) (eng : Engine (Conn T) X K W A E) :
    (∀ (op : SessionOp X K W A E) (s : Conn T) (rest : SessionArgs (Conn T)),
      (m.program op (some (.session s) :: rest)).Calls (Call.Through (.session s))) ∧
      ∀ (t : T) (s s' : Transactions T K X) (labels : List _), s.pending t = none →
        Run (OpInTx m eng t) (s.begin t) labels s' → s'.rollback t = s := by
  refine ⟨fun op s rest => calls_program m (some (.session s) :: rest) op, ?_⟩
  intro t s s' labels hfresh hrun
  apply Transactions.rollback_begin hfresh
  exact hrun.preserves (P := Transactions.SameBut t (s.begin t)) (.refl t _)
    (fun _ _ _ hsame hop => hsame.trans (opInTx_sameBut hop))

/-- A user is inserted in a transaction, which is rolled back. -/
theorem session_confined_users :
    ∃ (s' : Transactions Unit ℕ (ℕ × String)) (labels : List _),
      Run (OpInTx users userEngine.toEngine ()) (Transactions.begin ⟨fun _ => none, fun _ => none⟩ ()) labels s' ∧
        (s'.read (.tx ())).map (fun rows => rows 1) = some (some (1, "ann")) ∧
        s'.rollback () = ⟨fun _ => none, fun _ => none⟩ := by
  have hends : (users.program (.insert (some (0, "ann"))) [some (.session (.tx ()))]).Ends
      (userEngine.toEngine.Handles .base) (Transactions.begin ⟨fun _ => none, fun _ => none⟩ ()) _ _ :=
    .call (.statement rfl rfl (UserAnswers.insert (0, "ann") 1 rfl)) .ret
  have hrun : Run (OpInTx users userEngine.toEngine ()) _ [(.base, .insert (some (0, "ann")), [])] _ :=
    .single ⟨_, hends⟩
  exact ⟨_, _, hrun, rfl, (session_confined users userEngine.toEngine).2 () _ _ _ rfl hrun⟩

end Model
end ServiceKit
