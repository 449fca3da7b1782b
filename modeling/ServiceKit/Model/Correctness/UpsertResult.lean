import ServiceKit.Model.Database

/-!
# `Correctness.UpsertResult` — what `InsertOrUpdate` returns, and what it leaves stored

One call alone on its table. It is in step when the record it returns is the row now stored under its key, that row
is what was asked for, and no other row changed. An insert that reports another id than the stored key is out of step,
and so is an update without an `updateFunc`, which returns the row as it was before.
-/

namespace ServiceKit
namespace Model

open Lib

variable {T S X K W A E : Type}

/-- An engine that says all that `InsertOrUpdate` can learn of it: `pick` is the row that a `LIMIT 1` gives,
    `storedKey` the key under which a row is inserted and `lastInsertId` what the result reports then. A statement
    writes all columns of its struct. -/
structure ExactEngine (T : Type) (m : DefaultModel X K W A E) extends SqlEngine T m where
  autoIncrement : Bool
  pick : Rows K X → W → Option X
  storedKey : Rows K X → X → K
  lastInsertId : Rows K X → X → ℤ
  pick_stored : ∀ {rows whereCond x}, pick rows whereCond = some x → rows (m.primaryKey x) = some x
  finds : ∀ {session whereCond rows x es},
    answers (.queryRowCtx session (.select "*" whereCond 0 1)) rows (.ok x) es → pick rows whereCond = some x
  misses : ∀ {session whereCond rows es},
    answers (.queryRowCtx session (.select "*" whereCond 0 1)) rows (.error m.errNotFound) es →
      pick rows whereCond = none
  rereads : ∀ {session id rows x es},
    answers (.queryRowCtx session (.byPrimaryKey id)) rows (.ok x) es → rows id = some x
  stores : ∀ {session x rows result es},
    answers (.execCtx session (.insert (some x))) rows (.ok result) es →
      rows (storedKey rows x) = none ∧
        es = [(storedKey rows x, some (m.setPrimaryKey x (storedKey rows x)))]
  reports : ∀ {session x rows id es},
    answers (.execCtx session (.insert (some x))) rows (.ok (some (.ok id))) es → id = lastInsertId rows x
  overwrites : ∀ {session x rows result es},
    answers (.execCtx session (.update x [] (m.primaryKeyEqual (m.primaryKey x)))) rows (.ok result) es →
      rows (m.primaryKey x) ≠ none → es = [(m.primaryKey x, some x)]
  storedKey_plain : ∀ rows x, autoIncrement = false → storedKey rows x = m.primaryKey x
  convert_lastInsertId : ∀ rows x, autoIncrement = true → m.convert (lastInsertId rows x) = storedKey rows x

/-- What was asked for, given the row that was found: `x` itself, or what `updateFunc` makes of that row, under its
    key. -/
def asked (m : DefaultModel X K W A E) (x : X) (updateFunc : Option (DefaultModel.UpdateFunc X E)) (found : X) : X :=
  match updateFunc with
  | none => m.setPrimaryKey x (m.primaryKey found)
  | some f => m.setPrimaryKey (f found).1 (m.primaryKey found)

/-- **The result `r` is in step with the table**: `rows` before the call, `rows'` after it. -/
structure InStep (m : DefaultModel X K W A E) (x : X) (updateFunc : Option (DefaultModel.UpdateFunc X E))
    (found : Option X) (rows rows' : Rows K X) (r : X) : Prop where
  stored : rows' (m.primaryKey r) = some r
  inserted : found = none → r = m.setPrimaryKey x (m.primaryKey r)
  updated : ∀ old, found = some old → r = asked m x updateFunc old
  others : ∀ k, k ≠ m.primaryKey r → rows' k = rows k

/-- The calls that stay in step: an insert into a table whose primary key is auto-increment, or where the reported id
    happens to be the key; and an update with an `updateFunc`, or one that changes nothing. -/
def ExactEngine.StaysInStep {m : DefaultModel X K W A E} (eng : ExactEngine T m) (rows : Rows K X) (whereCond : W) (x : X)
    (updateFunc : Option (DefaultModel.UpdateFunc X E)) : Prop :=
  match eng.pick rows whereCond with
  | none => eng.autoIncrement = true ∨ m.convert (eng.lastInsertId rows x) = m.primaryKey x
  | some old => updateFunc = none → m.setPrimaryKey x (m.primaryKey old) = old

/-! ## One call of the database -/

section Calls

variable [DecidableEq T] [DecidableEq K] {m : DefaultModel X K W A E} (eng : ExactEngine T m) {conn : Conn T}
  {s s' : Transactions T K X}

theorem ExactEngine.handles_locker {c : Call (Conn T) X K W A} {reply : c.Reply X E}
    (h : eng.Handles conn c s reply s') (hsession : c.session = none) : s' = s := by
  cases h with
  | locker _ _ => rfl
  | statement hs _ _ => rw [hs] at hsession; cases hsession
  | closed hs _ _ => rfl

/-- A statement that does not fail sees the rows of its session, and writes there. -/
theorem ExactEngine.handles_answers {c : Call (Conn T) X K W A} {reply : c.Reply X E} {session : Session (Conn T)}
    (h : eng.Handles conn c s reply s') (hsession : c.session = some session) (hok : ¬ c.Failed reply) :
    ∃ rows es, s.read (session.resolve conn) = some rows ∧ eng.answers c rows reply es ∧
      s' = s.writeAll (session.resolve conn) es := by
  rcases h.inv hsession with hanswer | ⟨_, hfail, _⟩
  · exact hanswer
  · exact absurd hfail hok

/-! ## The operations it is made of -/

variable [DecidableEq E] {σ : Session (Conn T)}

/-- A successful `FindX` leaves the table alone and returns the row that `LIMIT 1` gives. -/
theorem ExactEngine.findX_ok {whereCond : W} {found : Option X}
    (h : (m.findX whereCond [some σ]).Ends (eng.Handles conn) s (.ok found) s') :
    s' = s ∧ ∀ rows, s.read (σ.resolve conn) = some rows → eng.pick rows whereCond = found := by
  unfold DefaultModel.findX SqlStruct.selectSql at h
  cases hrefuse : m.sqlBuilder.refusesQuery (.select "*" whereCond 0 1) with
  | some err =>
      simp only [hrefuse] at h
      exact absurd (Program.ends_ret.mp h).1 nofun
  | none =>
      simp only [hrefuse] at h
      obtain ⟨reply, t, hcall, hrest⟩ := Program.ends_call.mp h
      obtain ⟨hres, rfl⟩ := Program.ends_ret.mp hrest
      have hsession : (Call.queryRowCtx σ (.select "*" whereCond 0 1) : Call (Conn T) X K W A).session = some σ := rfl
      rcases hcall.inv hsession with ⟨rows, es, hread, hanswer, rfl⟩ | ⟨hread, _, rfl⟩
      · have hnil : es = [] := eng.reads hanswer
        rw [hnil]
        refine ⟨rfl, fun rows' hread' => ?_⟩
        obtain rfl := Option.some.inj (hread.symm.trans hread')
        cases reply with
        | ok x =>
            obtain rfl := Except.ok.inj hres
            exact eng.finds hanswer
        | error err =>
            simp only [DefaultModel.scanned] at hres
            split at hres
            · next hnone =>
                obtain rfl := Except.ok.inj hres
                exact eng.misses (hnone ▸ hanswer)
            · exact absurd hres nofun
      · refine ⟨rfl, fun rows hread' => ?_⟩
        rw [hread] at hread'
        exact absurd hread' nofun

/-- A `FindOne` that finds a row. -/
theorem ExactEngine.findOne_ok {id : K} {x : X}
    (h : (m.findOne id [some σ]).Ends (eng.Handles conn) s (.ok (some x)) s') :
    s' = s ∧ ∃ rows, s.read (σ.resolve conn) = some rows ∧ rows id = some x := by
  obtain ⟨reply, t, hcall, hrest⟩ := Program.ends_call.mp h
  obtain ⟨hres, rfl⟩ := Program.ends_ret.mp hrest
  cases reply with
  | ok y =>
      obtain rfl := Option.some.inj (Except.ok.inj hres)
      obtain ⟨rows, es, hread, hanswer, rfl⟩ :=
        eng.handles_answers hcall rfl (fun hfail => nomatch hfail.choose_spec)
      rw [show es = [] from eng.reads hanswer]
      exact ⟨rfl, rows, hread, eng.rereads hanswer⟩
  | error err =>
      simp only [DefaultModel.scanned] at hres
      split at hres
      · exact absurd (Except.ok.inj hres) nofun
      · exact absurd hres nofun

omit [DecidableEq E] in
/-- A successful `Insert`. -/
theorem ExactEngine.insert_ok {x : X} {id : ℤ}
    (h : (m.insert (some x) [some σ]).Ends (eng.Handles conn) s (.ok (some (.ok id))) s') :
    ∃ rows, s.read (σ.resolve conn) = some rows ∧ rows (eng.storedKey rows x) = none ∧
      s'.read (σ.resolve conn) = some (Function.update rows (eng.storedKey rows x)
        (some (m.setPrimaryKey x (eng.storedKey rows x)))) ∧ id = eng.lastInsertId rows x := by
  unfold DefaultModel.insert SqlStruct.sql at h
  cases hrefuse : m.sqlBuilder.refuses (.insert (some x)) with
  | some err =>
      simp only [hrefuse] at h
      exact absurd (Program.ends_ret.mp h).1 nofun
  | none =>
      simp only [hrefuse] at h
      obtain ⟨reply, t, hcall, hrest⟩ := Program.ends_call.mp h
      obtain ⟨hres, rfl⟩ := Program.ends_ret.mp hrest
      cases reply with
      | error err => exact absurd hres nofun
      | ok result =>
          obtain rfl := Except.ok.inj hres
          obtain ⟨rows, es, hread, hanswer, rfl⟩ :=
            eng.handles_answers hcall rfl (fun hfail => nomatch hfail.choose_spec)
          obtain ⟨hfree, rfl⟩ := eng.stores hanswer
          exact ⟨rows, hread, hfree, Transactions.read_write_self hread _, eng.reports hanswer⟩

omit [DecidableEq E] in
/-- A successful `Update` of a row that is there. -/
theorem ExactEngine.update_ok {x : X}
    (h : (m.update (some x) [some σ]).Ends (eng.Handles conn) s (.ok ()) s') :
    ∃ rows, s.read (σ.resolve conn) = some rows ∧ (rows (m.primaryKey x) ≠ none →
      s'.read (σ.resolve conn) = some (Function.update rows (m.primaryKey x) (some x))) := by
  unfold DefaultModel.update DefaultModel.updatePartialBySession at h
  dsimp only at h
  split at h
  · exact absurd (Program.ends_ret.mp h).1 nofun
  · unfold SqlStruct.sql at h
    cases hrefuse : m.sqlBuilder.refuses (.update x [] (m.primaryKeyEqual (m.primaryKey x))) with
    | some err =>
        simp only [hrefuse] at h
        exact absurd (Program.ends_ret.mp h).1 nofun
    | none =>
        simp only [hrefuse] at h
        obtain ⟨reply, t, hcall, hrest⟩ := Program.ends_call.mp h
        obtain ⟨hres, rfl⟩ := Program.ends_ret.mp hrest
        cases reply with
        | error err => exact absurd hres nofun
        | ok result =>
            obtain ⟨rows, es, hread, hanswer, rfl⟩ :=
              eng.handles_answers hcall rfl (fun hfail => nomatch hfail.choose_spec)
            refine ⟨rows, hread, fun hthere => ?_⟩
            obtain rfl := eng.overwrites hanswer hthere
            exact Transactions.read_write_self hread _

/-- A successful `UpdatePartialByFunc`. -/
theorem ExactEngine.updatePartialByFunc_ok {id : K} {f : DefaultModel.UpdateFunc X E}
    (h : (m.updatePartialByFunc id (some f) [some σ]).Ends (eng.Handles conn) s (.ok ()) s') :
    ∃ rows one, s.read (σ.resolve conn) = some rows ∧ rows id = some one ∧
      s'.read (σ.resolve conn) = some (Function.update rows id (some (m.setPrimaryKey (f one).1 id))) := by
  obtain ⟨found, t, hfind, hrest⟩ := Program.ends_bind.mp h
  unfold DefaultModel.updateRead at hrest
  rcases found with err | _ | one
  · exact absurd (Program.ends_ret.mp hrest).1 nofun
  · exact absurd (Program.ends_ret.mp hrest).1 nofun
  · obtain ⟨rfl, rows, hread, hone⟩ := eng.findOne_ok hfind
    rcases hf : f one with ⟨one', _ | err⟩
    · simp only [hf] at hrest
      obtain ⟨rows', hread', hupdate⟩ := eng.update_ok hrest
      obtain rfl := Option.some.inj (hread.symm.trans hread')
      rw [m.primaryKey_setPrimaryKey] at hupdate
      refine ⟨rows, one, hread, hone, ?_⟩
      rw [hf]
      exact hupdate (by rw [hone]; nofun)
    · simp only [hf] at hrest
      exact absurd (Program.ends_ret.mp hrest).1 nofun

/-! ## The result -/

omit [DecidableEq T] [DecidableEq E] in
/-- **The insert.** The result is in step exactly when the id reported is the key stored. -/
theorem inStep_insert_iff {x : X} {updateFunc : Option (DefaultModel.UpdateFunc X E)} {rows : Rows K X} {id k : K}
    (hfree : rows k = none) :
    InStep m x updateFunc none rows (Function.update rows k (some (m.setPrimaryKey x k))) (m.setPrimaryKey x id) ↔
      id = k := by
  constructor
  · intro h
    by_contra hne
    have hother := h.others k (by rw [m.primaryKey_setPrimaryKey]; exact Ne.symm hne)
    rw [Function.update_self, hfree] at hother
    exact absurd hother nofun
  · rintro rfl
    refine ⟨?_, fun _ => ?_, nofun, ?_⟩
    · rw [m.primaryKey_setPrimaryKey, Function.update_self]
    · rw [m.primaryKey_setPrimaryKey]
    · intro k hne
      rw [m.primaryKey_setPrimaryKey] at hne
      exact Function.update_of_ne hne _ _

omit [DecidableEq T] [DecidableEq E] in
/-- **The update without an `updateFunc`.** The result, the row as it was, is in step exactly when nothing changed. -/
theorem inStep_update_iff {x old : X} {rows : Rows K X} :
    InStep m x none (some old) rows
        (Function.update rows (m.primaryKey old) (some (m.setPrimaryKey x (m.primaryKey old)))) old ↔
      m.setPrimaryKey x (m.primaryKey old) = old := by
  constructor
  · intro h
    have hstored := h.stored
    rw [Function.update_self] at hstored
    exact Option.some.inj hstored
  · intro heq
    refine ⟨?_, nofun, ?_, ?_⟩
    · rw [Function.update_self, heq]
    · intro old' hold
      obtain rfl := Option.some.inj hold
      exact heq.symm
    · exact fun k hne => Function.update_of_ne hne _ _

omit [DecidableEq T] [DecidableEq E] in
/-- **The update with an `updateFunc`** is always in step. -/
theorem inStep_updateFunc {x old : X} {f : DefaultModel.UpdateFunc X E} {rows : Rows K X} :
    InStep m x (some f) (some old) rows
      (Function.update rows (m.primaryKey old) (some (m.setPrimaryKey (f old).1 (m.primaryKey old))))
      (m.setPrimaryKey (f old).1 (m.primaryKey old)) := by
  refine ⟨?_, nofun, ?_, ?_⟩
  · rw [m.primaryKey_setPrimaryKey, Function.update_self]
  · intro old' hold
    obtain rfl := Option.some.inj hold
    rfl
  · intro k hne
    rw [m.primaryKey_setPrimaryKey] at hne
    exact Function.update_of_ne hne _ _

omit [DecidableEq T] [DecidableEq K] [DecidableEq E] in
theorem ExactEngine.convert_eq_storedKey_iff (rows : Rows K X) (x : X) :
    m.convert (eng.lastInsertId rows x) = eng.storedKey rows x ↔
      eng.autoIncrement = true ∨ m.convert (eng.lastInsertId rows x) = m.primaryKey x := by
  cases hauto : eng.autoIncrement with
  | true => exact iff_of_true (eng.convert_lastInsertId rows x hauto) (Or.inl rfl)
  | false =>
      rw [eng.storedKey_plain rows x hauto]
      simp

/-- What a successful `insertFunc` returns and leaves stored. -/
theorem ExactEngine.insertFunc_inStep_iff {data : Option X} {whereCond : W}
    {updateFunc : Option (DefaultModel.UpdateFunc X E)} {r : X}
    (h : (m.insertFunc data whereCond updateFunc σ).Ends (eng.Handles conn) s (.ok r) s') :
    ∃ x rows rows', data = some x ∧ s.read (σ.resolve conn) = some rows ∧
      s'.read (σ.resolve conn) = some rows' ∧
      (InStep m x updateFunc (eng.pick rows whereCond) rows rows' r ↔ eng.StaysInStep rows whereCond x updateFunc) := by
  obtain ⟨found, t, hfind, hrest⟩ := Program.ends_bind.mp h
  unfold DefaultModel.upsertFound at hrest
  unfold ExactEngine.StaysInStep
  rcases found with err | _ | old
  · exact absurd (Program.ends_ret.mp hrest).1 nofun
  · obtain ⟨rfl, hpick⟩ := eng.findX_ok hfind
    obtain ⟨inserted, t', hinsert, hret⟩ := Program.ends_bind.mp hrest
    obtain ⟨hres, rfl⟩ := Program.ends_ret.mp hret
    unfold DefaultModel.insertResult at hres
    rcases inserted with err | _ | err | id
    · exact absurd hres nofun
    · exact absurd hres nofun
    · exact absurd hres nofun
    · cases data with
      | none => exact absurd hres nofun
      | some x =>
          obtain rfl := Except.ok.inj hres
          obtain ⟨rows, hread, hfree, hread', rfl⟩ := eng.insert_ok hinsert
          refine ⟨x, rows, _, rfl, hread, hread', ?_⟩
          rw [hpick rows hread]
          exact (inStep_insert_iff hfree).trans (eng.convert_eq_storedKey_iff rows x)
  · obtain ⟨rfl, hpick⟩ := eng.findX_ok hfind
    unfold DefaultModel.updateFound at hrest
    cases data with
    | none => exact absurd (Program.ends_ret.mp hrest).1 nofun
    | some x =>
        cases updateFunc with
        | none =>
            obtain ⟨updated, t', hupdate, hret⟩ := Program.ends_bind.mp hrest
            obtain ⟨hres, rfl⟩ := Program.ends_ret.mp hret
            cases updated with
            | error err => exact absurd hres nofun
            | ok u =>
                obtain rfl := Except.ok.inj hres
                obtain ⟨rows, hread, hwrite⟩ := eng.update_ok hupdate
                have hstored := eng.pick_stored (hpick rows hread)
                rw [m.primaryKey_setPrimaryKey] at hwrite
                refine ⟨x, rows, _, rfl, hread, hwrite (by rw [hstored]; nofun), ?_⟩
                rw [hpick rows hread]
                exact inStep_update_iff.trans (by simp)
        | some f =>
            obtain ⟨updated, t', hupdate, hret⟩ := Program.ends_bind.mp hrest
            obtain ⟨hres, rfl⟩ := Program.ends_ret.mp hret
            cases updated with
            | error err => exact absurd hres nofun
            | ok u =>
                obtain rfl := Except.ok.inj hres
                obtain ⟨rows, one, hread, hone, hread'⟩ := eng.updatePartialByFunc_ok hupdate
                -- the row read again is the row found
                have hstored := eng.pick_stored (hpick rows hread)
                obtain rfl := Option.some.inj (hone.symm.trans hstored)
                refine ⟨x, rows, _, rfl, hread, hread', ?_⟩
                rw [hpick rows hread]
                exact iff_of_true inStep_updateFunc nofun

/-- **The result of `InsertOrUpdate`.** A call that succeeds, alone on the rows of its session, returns the row it has
    stored, and no other row changed, exactly when it `StaysInStep`. -/
theorem insertOrUpdate_inStep_iff (m : DefaultModel X K W A E) (eng : ExactEngine T m) (conn : Conn T)
    (data : Option X) (uniqFunc : Option (Option X → W)) (updateFunc : Option (DefaultModel.UpdateFunc X E))
    (session : SessionArgs (Conn T)) {s s' : Transactions T K X} {r : X}
    (h : (m.insertOrUpdate data uniqFunc updateFunc session).Ends (eng.Handles conn) s (.ok r) s') :
    ∃ x uniq rows rows', data = some x ∧ uniqFunc = some uniq ∧
      s.read ((oneSession session).resolve conn) = some rows ∧
      s'.read ((oneSession session).resolve conn) = some rows' ∧
      (InStep m x updateFunc (eng.pick rows (uniq data)) rows rows' r ↔
        eng.StaysInStep rows (uniq data) x updateFunc) := by
  cases uniqFunc with
  | none => exact absurd (Program.ends_ret.mp h).1 nofun
  | some uniq =>
      obtain ⟨_, t, hlock, hrest⟩ := Program.ends_call.mp h
      obtain rfl := eng.handles_locker hlock rfl
      have hrest : (m.insertFunc data (uniq data) updateFunc (oneSession session) >>= fun result => do
          unlock
          return result).Ends (eng.Handles conn) t (.ok r) s' := hrest
      obtain ⟨result, t', hins, hleave⟩ := Program.ends_bind.mp hrest
      obtain ⟨_, t'', hunlock, hret⟩ := Program.ends_call.mp hleave
      obtain rfl := eng.handles_locker hunlock rfl
      obtain ⟨rfl, rfl⟩ := Program.ends_ret.mp hret
      obtain ⟨x, rows, rows', hdata, hread, hread', hiff⟩ := eng.insertFunc_inStep_iff hins
      exact ⟨x, uniq, rows, rows', hdata, rfl, hread, hread', hiff⟩

end Calls

/-! ## A table whose primary key is not auto-increment -/

/-- The first of the users below 256 that meets the condition. -/
def pickUser (rows : Rows ℕ (ℕ × String)) (whereCond : UserCond) : Option (ℕ × String) :=
  (List.range 256).findSome? fun id =>
    (rows id).filter fun user => user.1 == id && whereCond.holds user

/-- What the statements answer on users with a `tinyint unsigned` key that the caller chooses. -/
inductive TinyAnswers : (c : Call (Conn T) (ℕ × String) ℕ UserCond String) → Rows ℕ (ℕ × String) →
    c.Reply (ℕ × String) String → List (ℕ × Option (ℕ × String)) → Prop where
  | insert {session rows} (user : ℕ × String) (hfree : rows user.1 = none) :
      TinyAnswers (.execCtx session (.insert (some user))) rows (.ok (some (.ok 0))) [(user.1, some user)]
  | update {session rows columns user row} (hrow : rows user.1 = some row) (hkey : row.1 = user.1)
      (hsmall : user.1 < 256) :
      TinyAnswers (.execCtx session (.update user columns (users.primaryKeyEqual user.1))) rows
        (.ok (some (.ok 0))) [(user.1, some user)]
  | found {session rows whereCond user} (hpick : pickUser rows whereCond = some user) :
      TinyAnswers (.queryRowCtx session (.select "*" whereCond 0 1)) rows (.ok user) []
  | notFound {session rows whereCond} (hpick : pickUser rows whereCond = none) :
      TinyAnswers (.queryRowCtx session (.select "*" whereCond 0 1)) rows
        (.error "sql: no rows in result set") []
  | byPrimaryKey {session rows id user} (hrow : rows id = some user) :
      TinyAnswers (.queryRowCtx session (.byPrimaryKey id)) rows (.ok user) []

theorem pickUser_some {rows : Rows ℕ (ℕ × String)} {whereCond : UserCond} {user : ℕ × String}
    (h : pickUser rows whereCond = some user) :
    rows user.1 = some user ∧ user.1 < 256 ∧ whereCond.holds user = true := by
  obtain ⟨id, hid, hfilter⟩ := List.exists_of_findSome?_eq_some h
  obtain ⟨hrow, hcond⟩ := Option.filter_eq_some_iff.mp hfilter
  simp only [Bool.and_eq_true, beq_iff_eq] at hcond
  obtain ⟨rfl, hholds⟩ := hcond
  exact ⟨hrow, List.mem_range.mp hid, hholds⟩

theorem pickUser_none {rows : Rows ℕ (ℕ × String)} {whereCond : UserCond} (h : pickUser rows whereCond = none)
    {id : ℕ} {user : ℕ × String} (hrow : rows id = some user) :
    ¬ (id < 256 ∧ user.1 = id ∧ whereCond.holds user = true) := by
  rintro ⟨hid, rfl, hholds⟩
  have hnone := List.findSome?_eq_none_iff.mp h user.1 (List.mem_range.mpr hid)
  rw [hrow] at hnone
  simp [hholds] at hnone

def tinyEngine : ExactEngine T users where
  answers := TinyAnswers
  holds whereCond id user := id < 256 ∧ user.1 = id ∧ whereCond.holds user = true
  holds_primaryKeyEqual := by
    rintro id k x ⟨_, rfl, h⟩
    simpa [users, DefaultModel.primaryKeyEqual, UserCond.holds] using h
  reads := by
    intro session query rows reply es h
    cases h <;> rfl
  found := by
    intro session whereCond rows x es h
    cases h with
    | found hpick =>
        obtain ⟨hrow, hsmall, hholds⟩ := pickUser_some hpick
        exact ⟨x, hrow, hsmall, rfl, hholds⟩
  notFound := by
    intro session whereCond rows es h
    cases h with
    | notFound hpick => exact fun k row hrow => pickUser_none hpick hrow
  inserts := by
    intro session data rows reply es h
    cases h with
    | insert user _ => exact Or.inr ⟨_, rfl⟩
  updates := by
    intro session x columns whereCond rows reply es h e he
    cases h with
    | update hrow hkey hsmall =>
        obtain rfl := List.mem_singleton.mp he
        exact ⟨_, hrow, hsmall, hkey, by simp [users, DefaultModel.primaryKeyEqual, UserCond.holds, hkey]⟩
  autoIncrement := false
  pick := pickUser
  storedKey _ user := user.1
  lastInsertId _ _ := 0
  pick_stored h := (pickUser_some h).1
  finds := by
    intro session whereCond rows x es h
    cases h with
    | found hpick => exact hpick
  misses := by
    intro session whereCond rows es h
    cases h with
    | notFound hpick => exact hpick
  rereads := by
    intro session id rows x es h
    cases h with
    | byPrimaryKey hrow => exact hrow
  stores := by
    intro session x rows result es h
    cases h with
    | insert user hfree => exact ⟨hfree, rfl⟩
  reports := by
    intro session x rows id es h
    cases h with
    | insert user _ => rfl
  overwrites := by
    intro session x rows result es h _
    cases h with
    | update _ _ _ => rfl
  storedKey_plain _ _ _ := rfl
  convert_lastInsertId _ _ h := nomatch h

/-- User 7 is ann. -/
def annRows : Rows ℕ (ℕ × String) := fun id => if id = 7 then some (7, "ann") else none

/-- Rows without an open transaction. -/
def alone (rows : Rows ℕ (ℕ × String)) : Transactions Unit ℕ (ℕ × String) := ⟨rows, fun _ => none⟩

def toBob : DefaultModel.UpdateFunc (ℕ × String) String := fun user => ((user.1, "bob"), none)

/-- Look for ann, find her, read her again, and write what `toBob` makes of her. -/
theorem rename_ends : ∃ s',
    (users.insertOrUpdate (some (0, "ann")) (some fun _ => UserCond.named "ann") (some toBob)
      ([] : SessionArgs (Conn Unit))).Ends (tinyEngine.Handles .base) (alone annRows) (.ok (7, "bob")) s' :=
  ⟨_, .call (.locker () rfl) (.call (.statement rfl rfl (.found rfl))
    (.call (.statement rfl rfl (.byPrimaryKey rfl))
      (.call (.statement rfl rfl (.update rfl rfl (by decide))) (.call (.locker () rfl) .ret))))⟩

theorem insertOrUpdate_inStep_iff_rename : ∃ rows',
    InStep users (0, "ann") (some toBob) (some (7, "ann")) annRows rows' (7, "bob") := by
  obtain ⟨s', hends⟩ := rename_ends
  obtain ⟨x, uniq, rows, rows', hx, huniq, hread, _, hiff⟩ :=
    insertOrUpdate_inStep_iff users tinyEngine .base _ _ _ _ hends
  obtain rfl := Option.some.inj hx
  obtain rfl := Option.some.inj huniq
  obtain rfl : annRows = rows := Option.some.inj hread
  have hpick : (tinyEngine (T := Unit)).pick annRows (UserCond.named "ann") = some (7, "ann") := rfl
  unfold ExactEngine.StaysInStep at hiff
  rw [hpick] at hiff
  exact ⟨rows', hiff.mpr nofun⟩

/-- **Out of step**: a user inserted under the key 7 is returned with the key 0; and a user that is updated without an
    `updateFunc` is returned as it was before. -/
theorem insertOrUpdate_not_inStep :
    (∃ s' r rows',
      (users.insertOrUpdate (some (7, "ann")) (some fun _ => UserCond.named "ann") none
        ([] : SessionArgs (Conn Unit))).Ends (tinyEngine.Handles .base) (alone fun _ => none) (.ok r) s' ∧
      s'.read .base = some rows' ∧ r = (0, "ann") ∧ ¬ InStep users (7, "ann") none none (fun _ => none) rows' r) ∧
    ∃ s' r rows',
      (users.insertOrUpdate (some (0, "bob")) (some fun _ => users.primaryKeyEqual 7) none
        ([] : SessionArgs (Conn Unit))).Ends (tinyEngine.Handles .base) (alone annRows) (.ok r) s' ∧
      s'.read .base = some rows' ∧ r = (7, "ann") ∧
      ¬ InStep users (0, "bob") none (some (7, "ann")) annRows rows' r := by
  constructor
  · have hnone : pickUser (fun _ => none) (.named "ann") = none :=
      List.findSome?_eq_none_iff.mpr (fun _ _ => rfl)
    refine ⟨_, (0, "ann"), _, .call (.locker () rfl) (.call (.statement rfl rfl (.notFound hnone))
      (.call (.statement rfl rfl (.insert (7, "ann") rfl)) (.call (.locker () rfl) .ret))), rfl, rfl, ?_⟩
    intro h
    exact absurd (h.others 7 (by decide)) nofun
  · refine ⟨_, (7, "ann"), _, .call (.locker () rfl) (.call (.statement rfl rfl (.found rfl))
      (.call (.statement rfl rfl (.update rfl rfl (by decide)))
        (.call (.locker () rfl) .ret))), rfl, rfl, ?_⟩
    intro h
    exact absurd h.stored (by decide)

end Model
end ServiceKit
