import ServiceKit.Model.Database

/-!
# `Model.System` — goroutines that insert or update

Goroutines get models of one table from `newXModel` (`model-new.tpl`; `NewXModel` and `withSession` of `model.tpl`
wrap it) and call `InsertOrUpdate` on them. The model cache is loaded and stored in two steps, a model has its
own `insertLocker`, and a transaction ends when its caller says so. A transaction that has written nothing is
as one that has not begun, so all of them are open at the start.
-/

namespace ServiceKit
namespace Model

open Lib

variable {G T X K W A E : Type}

/-- A `sqlx.SqlConn`, as a key of the model cache: one of the database, or `sqlx.NewSqlConnFromSession`. -/
inductive SqlConn (T : Type) where
  | db (n : ℕ)
  | ofSession (t : T)
  deriving DecidableEq

/-- Where the statements of a connection go. -/
def SqlConn.conn : SqlConn T → Conn T
  | .db _ => .base
  | .ofSession t => .tx t

/-- What a goroutine is doing: nothing, `newXModel` after a `Load` that found nothing, or the rest of a call on a
    model. -/
inductive Thread (T X K W A E : Type) where
  | idle
  | creating (conn : SqlConn T)
  | running (model : ℕ) (p : Op (Conn T) X K W A E (Except (Failure E) X))

/-- `xModelCache`, the models, their lockers, the goroutines and the table. -/
structure System (G T X K W A E : Type) where
  modelCache : SqlConn T → Option ℕ
  /-- The `m.conn` of each model. -/
  models : List (SqlConn T)
  /-- Who holds the `insertLocker` of a model. -/
  insertLocker : ℕ → Option G
  threads : G → Thread T X K W A E
  db : Transactions T K X

namespace System

/-- No model, no goroutine at work, and the table as it is. -/
def init (table : Rows K X) : System G T X K W A E where
  modelCache _ := none
  models := []
  insertLocker _ := none
  threads _ := .idle
  db := ⟨table, fun _ => some fun _ => none⟩

variable [DecidableEq G]

/-- The goroutine goes on with `thread`. -/
def become (s : System G T X K W A E) (g : G) (thread : Thread T X K W A E) : System G T X K W A E :=
  { s with threads := Function.update s.threads g thread }

@[simp] theorem become_self (s : System G T X K W A E) (g : G) (thread : Thread T X K W A E) :
    (s.become g thread).threads g = thread := by
  simp [become]

/-- What a goroutine runs after it goes on. -/
theorem running_of_become {s : System G T X K W A E} {g : G} {model model' : ℕ}
    {p p' : Op (Conn T) X K W A E (Except (Failure E) X)}
    (h : (s.become g (.running model p)).threads g = .running model' p') : model = model' ∧ p = p' := by
  rw [become_self] at h
  exact Thread.running.inj h

theorem become_of_ne (s : System G T X K W A E) {g g' : G} (thread : Thread T X K W A E) (h : g' ≠ g) :
    (s.become g thread).threads g' = s.threads g' := by
  simp [become, h]

end System

/-- What happens. -/
inductive Event (G T X W E : Type) where
  | load (g : G) (conn : SqlConn T)
  | store (g : G)
  | call (g : G) (model : ℕ) (data : Option X) (uniqFunc : Option (Option X → W))
      (updateFunc : Option (DefaultModel.UpdateFunc X E)) (session : SessionArgs (Conn T))
  | lock (g : G)
  | unlock (g : G)
  | statement (g : G)
  | returned (g : G)
  | commit (t : T)
  | rollback (t : T)

variable [DecidableEq G] [DecidableEq T] [DecidableEq K] [DecidableEq E]

/-- The steps, where every `uniqFunc` gives the condition `whereCond`. -/
inductive Step (m : DefaultModel X K W A E) (eng : Engine (Conn T) X K W A E) (whereCond : W) :
    System G T X K W A E → Event G T X W E → System G T X K W A E → Prop where
  | loadHit {s g conn model} (hthread : s.threads g = .idle) (hcache : s.modelCache conn = some model) :
      Step m eng whereCond s (.load g conn) s
  | loadMiss {s g conn} (hthread : s.threads g = .idle) (hcache : s.modelCache conn = none) :
      Step m eng whereCond s (.load g conn) (s.become g (.creating conn))
  | store {s g conn} (hthread : s.threads g = .creating conn) :
      Step m eng whereCond s (.store g)
        { s.become g .idle with
          modelCache := Function.update s.modelCache conn (some s.models.length)
          models := s.models ++ [conn] }
  | call {s g model} (data uniqFunc updateFunc session) (hthread : s.threads g = .idle)
      (hmodel : model < s.models.length) (huniq : ∀ f ∈ uniqFunc, f data = whereCond) :
      Step m eng whereCond s (.call g model data uniqFunc updateFunc session)
        (s.become g (.running model (m.insertOrUpdate data uniqFunc updateFunc session)))
  | lock {s g model p p'} (hthread : s.threads g = .running model p) (hdoes : p.Does .lock () p')
      (hfree : s.insertLocker model = none) :
      Step m eng whereCond s (.lock g)
        { s.become g (.running model p') with
          insertLocker := Function.update s.insertLocker model (some g) }
  | unlock {s g model p p'} (hthread : s.threads g = .running model p) (hdoes : p.Does .unlock () p') :
      Step m eng whereCond s (.unlock g)
        { s.become g (.running model p') with
          insertLocker := Function.update s.insertLocker model none }
  | statement {s g model p c session p' conn db} {reply : c.Reply X E}
      (hthread : s.threads g = .running model p) (hdoes : p.Does c reply p')
      (hsession : c.session = some session) (hmodel : s.models[model]? = some conn)
      (hhandle : eng.Handles conn.conn c s.db reply db) :
      Step m eng whereCond s (.statement g) { s.become g (.running model p') with db := db }
  | returned {s g model result} (hthread : s.threads g = .running model (.ret result)) :
      Step m eng whereCond s (.returned g) (s.become g .idle)
  | commit {s} (t : T) (hopen : s.db.pending t ≠ none) :
      Step m eng whereCond s (.commit t) { s with db := s.db.commit t }
  | rollback {s} (t : T) (hopen : s.db.pending t ≠ none) :
      Step m eng whereCond s (.rollback t) { s with db := s.db.rollback t }

end Model
end ServiceKit
