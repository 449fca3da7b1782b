import ServiceKit.Model.System

/-!
# `Correctness.InsertOrUpdate` — the calls of `InsertOrUpdate`, one after the other

Inside the locker, `InsertOrUpdate` looks for its row (`Finds`). Then it inserts, if there is none (`Inserts`), or
writes the row it found (`Updates`), which it may read again first (`Rereads`). Any failure makes it leave (`Leaves`).
-/

namespace ServiceKit
namespace Model

open Lib

variable {S X K W A E : Type}

/-- The deferred `insertLocker.Unlock()`. -/
def leave (result : Except (Failure E) X) : Op S X K W A E (Except (Failure E) X) := do
  unlock
  return result

/-- Nothing is left but to leave. -/
def Leaves (p : Op S X K W A E (Except (Failure E) X)) : Prop := ∃ result, p = leave result

/-- An insert is next. -/
def Inserts (σ : Session S) (p : Op S X K W A E (Except (Failure E) X)) : Prop :=
  ∃ data next, p = .call (.execCtx σ (.insert data)) next ∧ ∀ reply, Leaves (next reply)

/-- An update of the row with the key is next. -/
def Updates (m : DefaultModel X K W A E) (σ : Session S) (id : K) (p : Op S X K W A E (Except (Failure E) X)) : Prop :=
  ∃ x columns next, m.primaryKey x = id ∧
    p = .call (.execCtx σ (.update x columns (m.primaryKeyEqual id))) next ∧ ∀ reply, Leaves (next reply)

/-- The row with the key is read next, to be updated. -/
def Rereads (m : DefaultModel X K W A E) (σ : Session S) (id : K) (p : Op S X K W A E (Except (Failure E) X)) : Prop :=
  ∃ next, p = .call (.queryRowCtx σ (.byPrimaryKey id)) next ∧
    ∀ reply, Leaves (next reply) ∨ Updates m σ id (next reply)

/-- A row that meets the condition is looked for next. -/
def Finds (m : DefaultModel X K W A E) (whereCond : W) (σ : Session S) (p : Op S X K W A E (Except (Failure E) X)) : Prop :=
  ∃ next, p = .call (.queryRowCtx σ (.select "*" whereCond 0 1)) next ∧
    (∀ x, Leaves (next (.ok x)) ∨ Updates m σ (m.primaryKey x) (next (.ok x)) ∨
      Rereads m σ (m.primaryKey x) (next (.ok x))) ∧
    ∀ err, Leaves (next (.error err)) ∨ err = m.errNotFound ∧ Inserts σ (next (.error err))

/-- The locker is next, or nothing is. -/
def Starts (m : DefaultModel X K W A E) (whereCond : W) (p : Op S X K W A E (Except (Failure E) X)) : Prop :=
  (∃ result, p = .ret result) ∨
    ∃ next, p = .call .lock next ∧ ∀ reply, Leaves (next reply) ∨ ∃ σ, Finds m whereCond σ (next reply)

section Stages

variable (m : DefaultModel X K W A E) (σ : Session S)

theorem leaves_leave (result : Except (Failure E) X) :
    Leaves (leave result : Op S X K W A E (Except (Failure E) X)) :=
  ⟨result, rfl⟩

/-- An `Update` after which the call leaves. -/
theorem update_stage (x : X) {p : Op S X K W A E (Except (Failure E) X)}
    (next : Except (Failure E) Unit → Except (Failure E) X)
    (hp : p = m.update (some x) [some σ] >>= fun updated => leave (next updated)) :
    Leaves p ∨ Updates m σ (m.primaryKey x) p := by
  unfold DefaultModel.update DefaultModel.updatePartialBySession at hp
  by_cases hempty : m.emptyWhere (m.primaryKeyEqual (m.primaryKey x))
  · simp only [if_pos hempty] at hp
    exact Or.inl ⟨_, hp⟩
  · simp only [if_neg hempty] at hp
    unfold SqlStruct.sql at hp
    cases hrefuse : m.sqlBuilder.refuses (.update x [] (m.primaryKeyEqual (m.primaryKey x))) with
    | some err =>
        rw [hrefuse] at hp
        exact Or.inl ⟨_, hp⟩
    | none =>
        rw [hrefuse] at hp
        exact Or.inr ⟨x, [], _, rfl, hp, fun reply => leaves_leave _⟩

/-- What comes after no row was found. -/
theorem insert_stage (data : Option X) {p : Op S X K W A E (Except (Failure E) X)}
    (next : Except (Failure E) (Option (SqlResult E)) → Except (Failure E) X)
    (hp : p = m.insert data [some σ] >>= fun inserted => leave (next inserted)) :
    Leaves p ∨ Inserts σ p := by
  unfold DefaultModel.insert SqlStruct.sql at hp
  cases hrefuse : m.sqlBuilder.refuses (.insert data) with
  | some err =>
      rw [hrefuse] at hp
      exact Or.inl ⟨_, hp⟩
  | none =>
      rw [hrefuse] at hp
      exact Or.inr ⟨data, _, hp, fun reply => leaves_leave _⟩

variable [DecidableEq E]

/-- An `UpdatePartialByFunc` after which the call leaves. -/
theorem updatePartialByFunc_stage (id : K) (updateFunc : DefaultModel.UpdateFunc X E)
    (next : Except (Failure E) Unit → Except (Failure E) X) :
    Rereads m σ id
      (m.updatePartialByFunc id (some updateFunc) [some σ] >>= fun updated => leave (next updated)) := by
  refine ⟨fun reply => m.updateRead id (some updateFunc) [some σ] (m.scanned reply) >>=
    fun updated => leave (next updated), rfl, ?_⟩
  intro reply
  beta_reduce
  rcases m.scanned reply with err | _ | one
  · exact Or.inl (leaves_leave _)
  · exact Or.inl (leaves_leave _)
  · unfold DefaultModel.updateRead
    rcases hupdate : updateFunc one with ⟨one, _ | err⟩
    · have hstage := update_stage m σ (m.setPrimaryKey one id) next rfl
      rw [m.primaryKey_setPrimaryKey] at hstage
      simpa only [hupdate] using hstage
    · simp only [hupdate]
      exact Or.inl (leaves_leave _)

/-- What comes after a row was found. -/
theorem updateFound_stage (data : Option X) (newData : X) (updateFunc : Option (DefaultModel.UpdateFunc X E)) :
    let p := m.updateFound data newData updateFunc σ >>= leave
    Leaves p ∨ Updates m σ (m.primaryKey newData) p ∨ Rereads m σ (m.primaryKey newData) p := by
  unfold DefaultModel.updateFound
  rcases data with _ | data
  · exact Or.inl (leaves_leave _)
  · rcases updateFunc with _ | updateFunc
    · have hstage := update_stage m σ (m.setPrimaryKey data (m.primaryKey newData))
        (fun updated => updated.map fun _ => newData) rfl
      rw [m.primaryKey_setPrimaryKey] at hstage
      simp only [Program.bind_assoc, Program.pure_def, Program.ret_bind]
      exact hstage.imp id Or.inl
    · have hstage := updatePartialByFunc_stage m σ (m.primaryKey newData) updateFunc
        (fun updated => updated.map fun _ => m.setPrimaryKey (updateFunc newData).1 (m.primaryKey newData))
      simp only [Program.bind_assoc, Program.pure_def, Program.ret_bind]
      exact Or.inr (Or.inr hstage)

theorem insertFunc_stage (data : Option X) (whereCond : W)
    (updateFunc : Option (DefaultModel.UpdateFunc X E)) :
    let p := m.insertFunc data whereCond updateFunc σ >>= leave
    Leaves p ∨ Finds m whereCond σ p := by
  unfold DefaultModel.insertFunc DefaultModel.findX SqlStruct.selectSql
  cases m.sqlBuilder.refusesQuery (.select "*" whereCond 0 1) with
  | some err => exact Or.inl (leaves_leave _)
  | none =>
      refine Or.inr ⟨fun reply => m.upsertFound data updateFunc σ (m.scanned reply) >>= leave, rfl, ?_, ?_⟩
      · intro x
        exact updateFound_stage m σ data x updateFunc
      · intro err
        by_cases hnone : err = m.errNotFound
        · have hstage := insert_stage m σ data (m.insertResult data) rfl
          simp only [DefaultModel.scanned, if_pos hnone, DefaultModel.upsertFound, Program.bind_assoc,
            Program.pure_def, Program.ret_bind]
          exact hstage.imp id (fun h => ⟨hnone, h⟩)
        · simp only [DefaultModel.scanned, if_neg hnone]
          exact Or.inl (leaves_leave _)

/-- **The stages of a call.** -/
theorem insertOrUpdate_starts (data : Option X) (uniqFunc : Option (Option X → W)) (whereCond : W)
    (updateFunc : Option (DefaultModel.UpdateFunc X E)) (session : SessionArgs S)
    (huniq : ∀ f ∈ uniqFunc, f data = whereCond) :
    Starts m whereCond (m.insertOrUpdate data uniqFunc updateFunc session) := by
  cases uniqFunc with
  | none => exact Or.inl ⟨_, rfl⟩
  | some f =>
      obtain rfl := huniq f rfl
      refine Or.inr ⟨fun _ => m.insertFunc data (f data) updateFunc (oneSession session) >>= leave, rfl, ?_⟩
      intro reply
      exact (insertFunc_stage m (oneSession session) data (f data) updateFunc).imp id (fun h => ⟨_, h⟩)

end Stages

end Model
end ServiceKit
