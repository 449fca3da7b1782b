import ServiceKit.Model.Correctness.InsertOrUpdate

/-!
# `Correctness.InFlight` — calls between their find and their write

Between its find and its write a call is `InFlight`; until its transaction commits, the rows it wrote are there
for nobody else (`Dirty`). A call that finds while neither is going on beside it, or all of it is about the row
that it finds, is `Undisturbed`. `Inv` is what holds while no find is disturbed.
-/

namespace ServiceKit
namespace Model

open Lib

variable {G T X K W A E : Type}

/-! ## One row -/

section Rows

variable {m : DefaultModel X K W A E} (eng : SqlEngine T m) (whereCond : W)

/-- At most one row meets the condition. -/
def SqlEngine.AtMostOne (rows : Rows K X) : Prop :=
  ∀ k k' x x', rows k = some x → rows k' = some x' → eng.holds whereCond k x → eng.holds whereCond k' x' →
    k = k'

/-- No row meets the condition but the one with the key, if any. -/
def SqlEngine.OnlyAt (rows : Rows K X) (id : Option K) : Prop :=
  ∀ k x, rows k = some x → eng.holds whereCond k x → id = some k

variable {eng whereCond}

theorem SqlEngine.OnlyAt.at_some {rows : Rows K X} {id : Option K} {k : K}
    (h : eng.OnlyAt whereCond rows id) (hid : id = none ∨ id = some k) :
    eng.OnlyAt whereCond rows (some k) := by
  rcases hid with rfl | rfl
  · exact fun k' x hk hx => absurd (h k' x hk hx) (by simp)
  · exact h

theorem SqlEngine.OnlyAt.atMostOne {rows : Rows K X} {id : Option K} (h : eng.OnlyAt whereCond rows id) :
    eng.AtMostOne whereCond rows :=
  fun k k' x x' hk hk' hx hx' => Option.some.inj ((h k x hk hx).symm.trans (h k' x' hk' hx'))

/-- Only the row with the key may have changed. -/
theorem SqlEngine.OnlyAt.of_agree {rows rows' : Rows K X} {k : K} (h : eng.OnlyAt whereCond rows (some k))
    (hagree : ∀ k', k' ≠ k → rows' k' = rows k') : eng.OnlyAt whereCond rows' (some k) := by
  intro k' x hk' hx
  by_cases hk : k' = k
  · rw [hk]
  · rw [hagree k' hk] at hk'
    exact h k' x hk' hx

end Rows

/-! ## Calls in flight -/

/-- The call writes, or reads what it writes next: an insert, or the row with a key. -/
def Call.writesAt {S : Type} (m : DefaultModel X K W A E) : Call S X K W A → Option (Option K)
  | .execCtx _ (.insert _) => some none
  | .execCtx _ (.update x _ _) => some (some (m.primaryKey x))
  | .queryRowCtx _ (.byPrimaryKey id) => some (some id)
  | _ => none

namespace System

/-- The goroutine has found on the model and is to insert, or to update the row with the key, through the
    connection. -/
def InFlight (m : DefaultModel X K W A E) (s : System G T X K W A E) (g : G) (model : ℕ) (id : Option K)
    (c : Conn T) : Prop :=
  ∃ call next session conn, s.threads g = .running model (.call call next) ∧ call.writesAt m = some id ∧
    call.session = some session ∧ s.models[model]? = some conn ∧ session.resolve conn.conn = c ∧
    s.db.read c ≠ none

/-- When a call looks for its row, every call in flight on another model updates the row that is found, and
    every other transaction that has written rows has written that row alone. So if no row is found, there are
    none of them. -/
def Undisturbed {m : DefaultModel X K W A E} (eng : SqlEngine T m) (whereCond : W)
    (s : System G T X K W A E) : Event G T X W E → Prop
  | .statement g =>
      ∀ model session next conn rows,
        s.threads g = .running model (.call (.queryRowCtx session (.select "*" whereCond 0 1)) next) →
        s.models[model]? = some conn → s.db.read (session.resolve conn.conn) = some rows →
        (∀ g' model' id c, s.InFlight m g' model' id c →
          model' = model ∨ ∃ k row, id = some k ∧ rows k = some row ∧ eng.holds whereCond k row) ∧
          ∀ t, session.resolve conn.conn ≠ .tx t → s.db.Dirty t →
            ∃ k row, s.db.WroteOnly t k ∧ rows k = some row ∧ eng.holds whereCond k row
  | _ => True

end System

/-! ## The invariant -/

variable {m : DefaultModel X K W A E} (eng : SqlEngine T m) (whereCond : W)

/-- A write is next: an insert, or one of the row with the key. -/
def WritesNext (m : DefaultModel X K W A E) (session : Session (Conn T)) (id : Option K)
    (p : Op (Conn T) X K W A E (Except (Failure E) X)) : Prop :=
  match id with
  | none => Inserts session p
  | some id => Updates m session id p ∨ Rereads m session id p

/-- The stage of a call, and what it knows there. -/
inductive Staged (s : System G T X K W A E) (g : G) (model : ℕ)
    (p : Op (Conn T) X K W A E (Except (Failure E) X)) : Prop where
  | starts (h : Starts m whereCond p)
  | finds {session} (hlock : s.insertLocker model = some g) (h : Finds m whereCond session p)
  | writes {session id conn} (hlock : s.insertLocker model = some g) (hconn : s.models[model]? = some conn)
      (h : WritesNext m session id p)
      (honly : ∀ rows, s.db.read (session.resolve conn.conn) = some rows → eng.OnlyAt whereCond rows id)
  | leaves (hlock : s.insertLocker model = some g) (h : Leaves p)

/-- Calls in flight update one row, unless there is one of them alone. A transaction beside a call or another
    transaction has written that row alone. And whoever reads the table finds at most one row. -/
structure Inv (s : System G T X K W A E) : Prop where
  staged : ∀ g model p, s.threads g = .running model p → Staged eng whereCond s g model p
  flights : ∀ g g' model model' id id' c c', s.InFlight m g model id c → s.InFlight m g' model' id' c' →
    g' ≠ g → ∃ k, id = some k ∧ id' = some k
  beside : ∀ g model id c t, s.InFlight m g model id c → s.db.Dirty t → c ≠ .tx t →
    ∃ k, id = some k ∧ s.db.WroteOnly t k
  apart : ∀ t t', s.db.Dirty t → s.db.Dirty t' → t' ≠ t → ∃ k, s.db.WroteOnly t k ∧ s.db.WroteOnly t' k
  unique : ∀ c rows, s.db.read c = some rows → eng.AtMostOne whereCond rows
  committed : ∀ t k, s.db.Dirty t → s.db.WroteOnly t k → eng.OnlyAt whereCond s.db.committed (some k)

section Stages

variable {eng whereCond} {s : System G T X K W A E} {g : G} {model : ℕ}
  {p : Op (Conn T) X K W A E (Except (Failure E) X)}

theorem call_of_starts {call next}
    (h : Starts m whereCond (.call call next : Op (Conn T) X K W A E (Except (Failure E) X))) :
    call = .lock := by
  rcases h with ⟨result, hret⟩ | ⟨next', hlock, _⟩
  · exact absurd hret (by simp)
  · exact (Program.call.inj hlock).1

theorem call_of_finds {session : Session (Conn T)} {call next}
    (h : Finds m whereCond session (.call call next : Op (Conn T) X K W A E (Except (Failure E) X))) :
    call = .queryRowCtx session (.select "*" whereCond 0 1) := by
  obtain ⟨next', hfind, _⟩ := h
  exact (Program.call.inj hfind).1

theorem call_of_leaves {call next}
    (h : Leaves (.call call next : Op (Conn T) X K W A E (Except (Failure E) X))) : call = .unlock := by
  obtain ⟨result, hleave⟩ := h
  exact (Program.call.inj hleave).1

/-- The next call of a write stage. -/
theorem WritesNext.call {session : Session (Conn T)} {id : Option K} (h : WritesNext m session id p) :
    ∃ call next, p = .call call next ∧ call.writesAt m = some id ∧ call.session = some session := by
  cases id with
  | none =>
      obtain ⟨data, next, hp, _⟩ := h
      exact ⟨_, next, hp, rfl, rfl⟩
  | some id =>
      rcases h with ⟨x, columns, next, rfl, hp, _⟩ | ⟨next, hp, _⟩
      · exact ⟨_, next, hp, rfl, rfl⟩
      · exact ⟨_, next, hp, rfl, rfl⟩

theorem WritesNext.writesAt {session : Session (Conn T)} {id : Option K} {call next}
    (h : WritesNext m session id (.call call next)) : call.writesAt m = some id ∧ call.session = some session := by
  obtain ⟨call', next', hp, hwrites, hsession⟩ := h.call
  obtain ⟨rfl, _⟩ := Program.call.inj hp
  exact ⟨hwrites, hsession⟩

/-- The next call of a stage. -/
theorem Staged.call {call next} (h : Staged eng whereCond s g model (.call call next)) :
    call = .lock ∨ call = .unlock ∨ (∃ session, call = .queryRowCtx session (.select "*" whereCond 0 1)) ∨
      s.insertLocker model = some g ∧ ∃ session id conn, s.models[model]? = some conn ∧
        call.writesAt m = some id ∧ call.session = some session ∧ WritesNext m session id (.call call next) := by
  cases h with
  | starts h => exact Or.inl (call_of_starts h)
  | finds _ h => exact Or.inr (Or.inr (Or.inl ⟨_, call_of_finds h⟩))
  | leaves _ h => exact Or.inr (Or.inl (call_of_leaves h))
  | @writes session id conn hlock hconn h honly =>
      obtain ⟨hwrites, hsession⟩ := h.writesAt
      exact Or.inr (Or.inr (Or.inr ⟨hlock, session, id, conn, hconn, hwrites, hsession, h⟩))

/-- A call that writes next is at a write stage. -/
theorem Staged.of_writesAt {call next} (h : Staged eng whereCond s g model (.call call next)) {id : Option K}
    (hwrites : call.writesAt m = some id) :
    s.insertLocker model = some g ∧ ∃ session conn, s.models[model]? = some conn ∧
      call.session = some session ∧ WritesNext m session id (.call call next) := by
  rcases h.call with rfl | rfl | ⟨session, rfl⟩ | ⟨hlock, session, id', conn, hconn, hwrites', hsession, hnext⟩
  · exact absurd hwrites (by simp [Call.writesAt])
  · exact absurd hwrites (by simp [Call.writesAt])
  · exact absurd hwrites (by simp [Call.writesAt])
  · obtain rfl := Option.some.inj (hwrites.symm.trans hwrites')
    exact ⟨hlock, session, conn, hconn, hsession, hnext⟩

/-- A write stage is in flight, if its connection is open. -/
theorem WritesNext.inFlight {session : Session (Conn T)} {id : Option K} {conn : SqlConn T} {rows : Rows K X}
    (h : WritesNext m session id p) (hthread : s.threads g = .running model p)
    (hconn : s.models[model]? = some conn) (hread : s.db.read (session.resolve conn.conn) = some rows) :
    s.InFlight m g model id (session.resolve conn.conn) := by
  obtain ⟨call, next, rfl, hwrites, hsession⟩ := h.call
  exact ⟨call, next, session, conn, hthread, hwrites, hsession, hconn, rfl, by simp [hread]⟩

/-- A call that starts, finds or leaves is not in flight. -/
theorem not_inFlight (whereCond : W) {s : System G T X K W A E} (hthread : s.threads g = .running model p)
    (hp : (∃ session, Finds m whereCond session p) ∨ Starts m whereCond p ∨ Leaves p) {model' : ℕ} {id : Option K}
    {c : Conn T} : ¬ s.InFlight m g model' id c := by
  rintro ⟨call, next, _, _, hthread', hwrites, _⟩
  obtain ⟨_, rfl⟩ := Thread.running.inj (hthread.symm.trans hthread')
  rcases hp with ⟨session, hfinds⟩ | hstarts | hleaves
  · rw [call_of_finds hfinds] at hwrites
    exact absurd hwrites (by simp [Call.writesAt])
  · rw [call_of_starts hstarts] at hwrites
    exact absurd hwrites (by simp [Call.writesAt])
  · rw [call_of_leaves hleaves] at hwrites
    exact absurd hwrites (by simp [Call.writesAt])

/-- A call that takes the locker leaves or finds next. -/
theorem Staged.of_lock {next} (h : Staged eng whereCond s g model (.call .lock next)) :
    Leaves (next ()) ∨ ∃ σ, Finds m whereCond σ (next ()) := by
  cases h with
  | starts h =>
      rcases h with ⟨result, hret⟩ | ⟨next', hp, hnext⟩
      · exact absurd hret (by simp)
      · obtain rfl : next = next' := by simpa using hp
        exact hnext ()
  | finds _ h => exact absurd (call_of_finds h) (by simp)
  | leaves _ h => exact absurd (call_of_leaves h) (by simp)
  | writes _ _ h _ => exact absurd h.writesAt.1 (by simp [Call.writesAt])

/-- A call that gives the locker back held it, and returns. -/
theorem Staged.of_unlock {next} (h : Staged eng whereCond s g model (.call .unlock next)) :
    s.insertLocker model = some g ∧ ∃ result, next () = .ret result := by
  cases h with
  | starts h => exact absurd (call_of_starts h) (by simp)
  | finds _ h => exact absurd (call_of_finds h) (by simp)
  | leaves hlock h =>
      obtain ⟨result, hp⟩ := h
      obtain rfl := eq_of_heq (Program.call.inj hp).2
      exact ⟨hlock, result, rfl⟩
  | writes _ _ h _ => exact absurd h.writesAt.1 (by simp [Call.writesAt])

end Stages

/-! ## Steps that leave the table -/

section Steps

variable {eng whereCond} {s s' : System G T X K W A E} {g : G}

/-- What the goroutine does leaves the table, the other goroutines, their models and their lockers; if it is in
    flight now, then with the calls in flight, and beside the transactions, that it may be with. -/
theorem Inv.local (h : Inv eng whereCond s) (hdb : s'.db = s.db)
    (hthreads : ∀ g', g' ≠ g → s'.threads g' = s.threads g')
    (hmodels : ∀ (i : ℕ) conn, s.models[i]? = some conn → s'.models[i]? = some conn)
    (hlocker : ∀ g' i, g' ≠ g → s.insertLocker i = some g' → s'.insertLocker i = some g')
    (hstaged : ∀ model p, s'.threads g = .running model p → Staged eng whereCond s' g model p)
    (hflight : ∀ model id c, s'.InFlight m g model id c →
      (∀ g' model' id' c', s.InFlight m g' model' id' c' → g' ≠ g → ∃ k, id = some k ∧ id' = some k) ∧
        ∀ t, s.db.Dirty t → c ≠ .tx t → ∃ k, id = some k ∧ s.db.WroteOnly t k) :
    Inv eng whereCond s' := by
  -- who else is in flight was so before
  have hold : ∀ g' model id c, g' ≠ g → s'.InFlight m g' model id c → s.InFlight m g' model id c := by
    rintro g' model id c hne ⟨call, next, session, conn, hthread, hwrites, hsession, hconn, rfl, hopen⟩
    rw [hthreads g' hne] at hthread
    obtain ⟨_, _, conn', hconn', _⟩ := (h.staged g' model _ hthread).of_writesAt hwrites
    obtain rfl := Option.some.inj ((hmodels model conn' hconn').symm.trans hconn)
    exact ⟨call, next, session, conn', hthread, hwrites, hsession, hconn', rfl, hdb ▸ hopen⟩
  refine ⟨?_, ?_, ?_, ?_, ?_, ?_⟩
  · intro g' model p hthread
    by_cases hg : g' = g
    · subst hg
      exact hstaged model p hthread
    · rw [hthreads g' hg] at hthread
      cases h.staged g' model p hthread with
      | starts hp => exact .starts hp
      | finds hlock hp => exact .finds (hlocker g' model hg hlock) hp
      | leaves hlock hp => exact .leaves (hlocker g' model hg hlock) hp
      | writes hlock hconn hp honly =>
          refine .writes (hlocker g' model hg hlock) (hmodels _ _ hconn) hp ?_
          rw [hdb]
          exact honly
  · intro g₁ g₂ model₁ model₂ id₁ id₂ c₁ c₂ h₁ h₂ hne
    by_cases hg₁ : g₁ = g
    · subst hg₁
      exact (hflight model₁ id₁ c₁ h₁).1 g₂ model₂ id₂ c₂ (hold g₂ model₂ id₂ c₂ hne h₂) hne
    · have h₁ := hold g₁ model₁ id₁ c₁ hg₁ h₁
      by_cases hg₂ : g₂ = g
      · subst hg₂
        obtain ⟨k, hid₂, hid₁⟩ := (hflight model₂ id₂ c₂ h₂).1 g₁ model₁ id₁ c₁ h₁ hne.symm
        exact ⟨k, hid₁, hid₂⟩
      · exact h.flights _ _ _ _ _ _ _ _ h₁ (hold _ _ _ _ hg₂ h₂) hne
  · intro g' model id c t hfl ht hc
    rw [hdb] at ht ⊢
    by_cases hg : g' = g
    · subst hg
      exact (hflight model id c hfl).2 t ht hc
    · exact h.beside g' model id c t (hold g' model id c hg hfl) ht hc
  · rw [hdb]
    exact h.apart
  · rw [hdb]
    exact h.unique
  · rw [hdb]
    exact h.committed

/-! ## Steps that change the table -/

/-- The table changes under the calls in flight: for whoever reads it, in the row that it updates at most. -/
theorem Inv.table (h : Inv eng whereCond s) {db : Transactions T K X} (hs' : s' = { s with db := db })
    (hread : ∀ c rows', db.read c = some rows' → ∃ rows, s.db.read c = some rows ∧
      ∀ g model id, s.InFlight m g model id c → rows' = rows ∨
        ∃ k, id = some k ∧ ∀ k', k' ≠ k → rows' k' = rows k')
    (hbeside : ∀ g model id c t, s.InFlight m g model id c → db.Dirty t → c ≠ .tx t →
      ∃ k, id = some k ∧ db.WroteOnly t k)
    (hapart : ∀ t t', db.Dirty t → db.Dirty t' → t' ≠ t → ∃ k, db.WroteOnly t k ∧ db.WroteOnly t' k)
    (hunique : ∀ c rows, db.read c = some rows → eng.AtMostOne whereCond rows)
    (hcommitted : ∀ t k, db.Dirty t → db.WroteOnly t k → eng.OnlyAt whereCond db.committed (some k)) :
    Inv eng whereCond s' := by
  subst hs'
  have hold : ∀ {g model id c}, ({ s with db := db } : System G T X K W A E).InFlight m g model id c →
      s.InFlight m g model id c := by
    rintro g model id c ⟨call, next, session, conn, hthread, hwrites, hsession, hconn, hc, hopen⟩
    obtain ⟨rows', hrows'⟩ := Option.ne_none_iff_exists'.mp hopen
    obtain ⟨rows, hrows, _⟩ := hread c rows' hrows'
    exact ⟨call, next, session, conn, hthread, hwrites, hsession, hconn, hc, by simp [hrows]⟩
  refine ⟨?_, ?_, ?_, hapart, hunique, hcommitted⟩
  · intro g' model p hthread
    cases h.staged g' model p hthread with
    | starts hp => exact .starts hp
    | finds hlock hp => exact .finds hlock hp
    | leaves hlock hp => exact .leaves hlock hp
    | writes hlock hconn hp honly =>
        refine .writes hlock hconn hp ?_
        intro rows' hrows'
        obtain ⟨rows, hrows, hagree⟩ := hread _ rows' hrows'
        rcases hagree g' model _ (hp.inFlight hthread hconn hrows) with rfl | ⟨k, rfl, hagree⟩
        · exact honly _ hrows
        · exact (honly rows hrows).of_agree hagree
  · intro g₁ g₂ model₁ model₂ id₁ id₂ c₁ c₂ h₁ h₂ hne
    exact h.flights _ _ _ _ _ _ _ _ (hold h₁) (hold h₂) hne
  · intro g' model id c t hfl ht hc
    exact hbeside g' model id c t (hold hfl) ht hc

end Steps

end Model
end ServiceKit
