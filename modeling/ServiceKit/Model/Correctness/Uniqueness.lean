import ServiceKit.Model.Correctness.InFlight

/-!
# `Correctness.Uniqueness` — one row for a condition

What a step does to `Inv`: the end of a transaction, a find, a write, the locker. The `insertLocker` keeps the
calls on one model from disturbing each other, and no others.
-/

namespace ServiceKit
namespace Model

open Lib

variable {G T X K W A E : Type} {m : DefaultModel X K W A E} (eng : SqlEngine T m) (whereCond : W)

/-! ## The table -/

section Table

variable {eng whereCond} {s : System G T X K W A E}

/-- A transaction ends, and nothing of it is left. -/
theorem Inv.rollback [DecidableEq T] (h : Inv eng whereCond s) (t : T) :
    Inv eng whereCond { s with db := s.db.rollback t } := by
  have hread : ∀ c rows, (s.db.rollback t).read c = some rows → s.db.read c = some rows := by
    intro c rows hrows
    by_cases hc : c = .tx t
    · subst hc
      exact absurd hrows (by simp [Transactions.read_rollback_self])
    · exact ((Transactions.sameBut_rollback s.db t).read hc).symm.trans hrows
  refine h.table rfl ?_ ?_ ?_ ?_ ?_
  · exact fun c rows hrows => ⟨rows, hread c rows hrows, fun _ _ _ _ => Or.inl rfl⟩
  · intro g model id c t' hfl ht' hc
    obtain ⟨hne, ht'⟩ := Transactions.dirty_rollback.mp ht'
    obtain ⟨k, hid, hk⟩ := h.beside g model id c t' hfl ht' hc
    exact ⟨k, hid, Transactions.wroteOnly_rollback.mpr fun _ => hk⟩
  · intro t₁ t₂ h₁ h₂ hne
    obtain ⟨hne₁, h₁⟩ := Transactions.dirty_rollback.mp h₁
    obtain ⟨hne₂, h₂⟩ := Transactions.dirty_rollback.mp h₂
    obtain ⟨k, hk₁, hk₂⟩ := h.apart t₁ t₂ h₁ h₂ hne
    exact ⟨k, Transactions.wroteOnly_rollback.mpr fun _ => hk₁, Transactions.wroteOnly_rollback.mpr fun _ => hk₂⟩
  · exact fun c rows hrows => h.unique c rows (hread c rows hrows)
  · intro t' k ht' hk
    obtain ⟨hne, ht'⟩ := Transactions.dirty_rollback.mp ht'
    exact h.committed t' k ht' (Transactions.wroteOnly_rollback.mp hk hne)

/-- A transaction that has written rows commits them. -/
theorem Inv.commit_of_dirty [DecidableEq T] (h : Inv eng whereCond s) {t : T} (ht : s.db.Dirty t) :
    Inv eng whereCond { s with db := s.db.commit t } := by
  obtain ⟨w, k₀, hw, hk₀⟩ := ht
  have ht : s.db.Dirty t := ⟨w, k₀, hw, hk₀⟩
  -- the table that the transaction sees is the one that everybody sees next
  have hview : (s.db.commit t).committed = w.over s.db.committed := by rw [Transactions.commit_of_open hw]
  refine h.table rfl ?_ ?_ ?_ ?_ ?_
  · intro c rows' hrows'
    obtain ⟨hc, rows, hrows, hagree⟩ := Transactions.read_commit_agree hw hrows'
    refine ⟨rows, hrows, fun g model id hfl => Or.inr ?_⟩
    obtain ⟨k, hid, hk⟩ := h.beside g model id c t hfl ht hc
    exact ⟨k, hid, fun k' hne => hagree k' (hk.clean hw hne)⟩
  · intro g model id c t' hfl ht' hc
    obtain ⟨hne, ht'⟩ := Transactions.dirty_commit.mp ht'
    obtain ⟨k, hid, hk⟩ := h.beside g model id c t' hfl ht' hc
    exact ⟨k, hid, Transactions.wroteOnly_commit.mpr fun _ => hk⟩
  · intro t₁ t₂ h₁ h₂ hne
    obtain ⟨hne₁, h₁⟩ := Transactions.dirty_commit.mp h₁
    obtain ⟨hne₂, h₂⟩ := Transactions.dirty_commit.mp h₂
    obtain ⟨k, hk₁, hk₂⟩ := h.apart t₁ t₂ h₁ h₂ hne
    exact ⟨k, Transactions.wroteOnly_commit.mpr fun _ => hk₁, Transactions.wroteOnly_commit.mpr fun _ => hk₂⟩
  · intro c rows' hrows'
    have hbase : eng.AtMostOne whereCond (w.over s.db.committed) :=
      h.unique (.tx t) _ (by simp [Transactions.read, hw])
    cases c with
    | base =>
        obtain rfl : (s.db.commit t).committed = rows' := Option.some.inj hrows'
        rw [hview]
        exact hbase
    | tx t' =>
        obtain ⟨hne, w', hw', rfl⟩ := Transactions.read_commit_tx hw hrows'
        by_cases ht' : s.db.Dirty t'
        · obtain ⟨k, hk, hk'⟩ := h.apart t t' ht ht' hne
          refine ((h.committed t k ht hk).of_agree ?_).atMostOne
          intro k' hne'
          rw [Transactions.over_of_none (hk'.clean hw' hne'), Transactions.over_of_none (hk.clean hw hne')]
        · rw [Transactions.over_of_clean (Transactions.clean_of_not_dirty ht' hw')]
          exact hbase
  · intro t' k' ht' hk'
    obtain ⟨hne, ht'⟩ := Transactions.dirty_commit.mp ht'
    have hk' := Transactions.wroteOnly_commit.mp hk' hne
    obtain ⟨k, hk, hk₁⟩ := h.apart t t' ht ht' hne
    obtain rfl := ht'.wroteOnly_eq hk₁ hk'
    rw [hview]
    exact (h.committed t k ht hk).of_agree fun k' hne' => Transactions.over_of_none (hk.clean hw hne') _

/-- A transaction commits. -/
theorem Inv.commit [DecidableEq T] (h : Inv eng whereCond s) {t : T} (hopen : s.db.pending t ≠ none) :
    Inv eng whereCond { s with db := s.db.commit t } := by
  by_cases ht : s.db.Dirty t
  · exact h.commit_of_dirty ht
  · obtain ⟨w, hw⟩ := Option.ne_none_iff_exists'.mp hopen
    rw [Transactions.commit_of_clean hw (Transactions.clean_of_not_dirty ht hw)]
    exact h.rollback t

section Write

variable [DecidableEq T] [DecidableEq K] {c : Conn T} {k : K} {es : List (K × Option X)}

/-- Beside a transaction that the writes do not go to, every other one has written that row alone. -/
theorem Inv.wroteOnly_writeAll (h : Inv eng whereCond s) (hes : ∀ e ∈ es, e.1 = k)
    (hothers : ∀ t, c ≠ .tx t → s.db.WroteOnly t k) {t t' : T} (hc : c ≠ .tx t)
    (ht : (s.db.writeAll c es).Dirty t) (hne : t' ≠ t) : (s.db.writeAll c es).WroteOnly t' k := by
  by_cases hd' : s.db.Dirty t'
  · by_cases hc' : c = .tx t'
    · have hd := ht.of_writeAll hc
      obtain ⟨k', hk, hk'⟩ := h.apart t t' hd hd' hne
      obtain rfl := hd.wroteOnly_eq (hothers t hc) hk
      exact hk'.writeAll hes
    · exact (hothers t' hc').writeAll hes
  · exact (Transactions.wroteOnly_of_not_dirty hd' k).writeAll hes

/-- Transactions that have written rows have still written the same one. -/
theorem Inv.apart_writeAll (h : Inv eng whereCond s) (hes : ∀ e ∈ es, e.1 = k)
    (hothers : ∀ t, c ≠ .tx t → s.db.WroteOnly t k) {t t' : T} (ht : (s.db.writeAll c es).Dirty t)
    (ht' : (s.db.writeAll c es).Dirty t') (hne : t' ≠ t) :
    ∃ k', (s.db.writeAll c es).WroteOnly t k' ∧ (s.db.writeAll c es).WroteOnly t' k' := by
  by_cases hc : c = .tx t
  · have hc' : c ≠ .tx t' := by
      rw [hc]
      simpa using hne.symm
    exact ⟨k, h.wroteOnly_writeAll hes hothers hc' ht' hne.symm, (hothers t' hc').writeAll hes⟩
  · exact ⟨k, (hothers t hc).writeAll hes, h.wroteOnly_writeAll hes hothers hc ht hne⟩

variable {rows : Rows K X}

/-- Whoever reads the table after the writes finds one row. -/
theorem Inv.unique_writeAll (h : Inv eng whereCond s) (hread : s.db.read c = some rows)
    (honly : eng.OnlyAt whereCond rows (some k)) (hes : ∀ e ∈ es, e.1 = k)
    (hothers : ∀ t, c ≠ .tx t → s.db.WroteOnly t k) {c' : Conn T} {rows' : Rows K X}
    (hread' : (s.db.writeAll c es).read c' = some rows') : eng.AtMostOne whereCond rows' := by
  obtain ⟨rows₁, hrows₁, hsame⟩ := Transactions.read_writeAll_key hes hread'
  by_cases hc : c' = c
  · subst hc
    obtain rfl := Option.some.inj (hread.symm.trans hrows₁)
    exact (honly.of_agree hsame).atMostOne
  · cases c with
    | tx t =>
        rw [(Transactions.sameBut_writeAll s.db t es).read hc] at hread'
        exact h.unique c' rows' hread'
    | base =>
        cases c' with
        | base => exact absurd rfl hc
        | tx t =>
            -- it sees the committed rows, but for the row that is written
            obtain rfl := Option.some.inj hread
            obtain ⟨w, hw, rfl⟩ := Option.map_eq_some_iff.mp hrows₁
            refine (honly.of_agree ?_).atMostOne
            intro k' hne
            rw [hsame k' hne]
            exact Transactions.over_of_none ((hothers t (by simp)).clean hw hne) _

/-- No row that a transaction has not written meets the condition, if it has written one. -/
theorem Inv.committed_writeAll (h : Inv eng whereCond s) (hread : s.db.read c = some rows)
    (honly : eng.OnlyAt whereCond rows (some k)) (hes : ∀ e ∈ es, e.1 = k)
    (hothers : ∀ t, c ≠ .tx t → s.db.WroteOnly t k) {t : T} {k' : K} (ht : (s.db.writeAll c es).Dirty t)
    (hk' : (s.db.writeAll c es).WroteOnly t k') :
    eng.OnlyAt whereCond (s.db.writeAll c es).committed (some k') := by
  by_cases hc : c = .tx t
  · subst hc
    rw [(Transactions.sameBut_writeAll s.db t es).committed]
    by_cases hd : s.db.Dirty t
    · exact h.committed t k' hd hk'.of_writeAll
    · obtain ⟨w, hw, rfl⟩ := Option.map_eq_some_iff.mp hread
      rw [Transactions.over_of_clean (Transactions.clean_of_not_dirty hd hw)] at honly
      obtain rfl := ht.wroteOnly_eq ((Transactions.wroteOnly_of_not_dirty hd k).writeAll hes) hk'
      exact honly
  · have hd := ht.of_writeAll hc
    obtain rfl := hd.wroteOnly_eq (hothers t hc) hk'.of_writeAll
    have hbase : (s.db.writeAll c es).read .base = some (s.db.writeAll c es).committed := rfl
    obtain ⟨rows', hrows', hsame⟩ := Transactions.read_writeAll_key hes hbase
    obtain rfl := Option.some.inj hrows'
    exact (h.committed t k hd (hothers t hc)).of_agree hsame

/-- A row is written where no other row meets the condition, beside calls and transactions that are about that
    row too. -/
theorem Inv.writeAll (h : Inv eng whereCond s) (hread : s.db.read c = some rows)
    (honly : eng.OnlyAt whereCond rows (some k)) (hes : ∀ e ∈ es, e.1 = k)
    (hflights : ∀ g model id c', s.InFlight m g model id c' → id = some k)
    (hothers : ∀ t, c ≠ .tx t → s.db.WroteOnly t k) :
    Inv eng whereCond { s with db := s.db.writeAll c es } := by
  refine h.table rfl ?_ ?_ (fun _ _ => h.apart_writeAll hes hothers)
    (fun _ _ => h.unique_writeAll hread honly hes hothers)
    (fun _ _ => h.committed_writeAll hread honly hes hothers)
  · intro c' rows' hrows'
    obtain ⟨rows, hrows, hsame⟩ := Transactions.read_writeAll_key hes hrows'
    exact ⟨rows, hrows, fun g model id hfl => Or.inr ⟨k, hflights g model id c' hfl, hsame⟩⟩
  · intro g model id c' t hfl ht hc'
    obtain rfl := hflights g model id c' hfl
    refine ⟨k, rfl, ?_⟩
    by_cases hd : s.db.Dirty t
    · obtain ⟨k', hid, hk⟩ := h.beside g model (some k) c' t hfl hd hc'
      obtain rfl := Option.some.inj hid
      exact hk.writeAll hes
    · exact (Transactions.wroteOnly_of_not_dirty hd k).writeAll hes

end Write

end Table

/-! ## Statements -/

section Statements

variable [DecidableEq G] {eng whereCond} {s : System G T X K W A E} {g : G} {model : ℕ}
  {p p' : Op (Conn T) X K W A E (Except (Failure E) X)}

/-- The call leaves; it is not in flight. -/
theorem Inv.goesOn_leaves (h : Inv eng whereCond s) (hlock : s.insertLocker model = some g) (hp' : Leaves p') :
    Inv eng whereCond (s.become g (.running model p')) := by
  refine h.local (g := g) rfl (fun g' hne => s.become_of_ne _ hne) (fun _ _ hconn => hconn)
    (fun _ _ _ hlock' => hlock') ?_ ?_
  · intro model' p hthread
    obtain ⟨rfl, rfl⟩ := System.running_of_become hthread
    exact .leaves hlock hp'
  · intro model' id c hfl
    exact absurd hfl (not_inFlight whereCond (s.become_self g _) (Or.inr (Or.inr hp')))

/-- The call writes next; it is in flight, if its connection is open. -/
theorem Inv.goesOn_writes (h : Inv eng whereCond s) (hlock : s.insertLocker model = some g)
    {session : Session (Conn T)} {id : Option K} {conn : SqlConn T} (hconn : s.models[model]? = some conn)
    (hp' : WritesNext m session id p')
    (honly : ∀ rows, s.db.read (session.resolve conn.conn) = some rows → eng.OnlyAt whereCond rows id)
    (hflight : ∀ rows, s.db.read (session.resolve conn.conn) = some rows →
      (∀ g' model' id' c', s.InFlight m g' model' id' c' → g' ≠ g → ∃ k, id = some k ∧ id' = some k) ∧
        ∀ t, s.db.Dirty t → session.resolve conn.conn ≠ .tx t → ∃ k, id = some k ∧ s.db.WroteOnly t k) :
    Inv eng whereCond (s.become g (.running model p')) := by
  refine h.local (g := g) rfl (fun g' hne => s.become_of_ne _ hne) (fun _ _ hconn => hconn)
    (fun _ _ _ hlock' => hlock') ?_ ?_
  · intro model' p hthread
    obtain ⟨rfl, rfl⟩ := System.running_of_become hthread
    exact .writes hlock hconn hp' honly
  · rintro model' id' c ⟨call, next, session', conn', hthread, hwrites, hsession, hconn', rfl, hopen⟩
    obtain ⟨rfl, rfl⟩ := System.running_of_become hthread
    obtain ⟨hwrites', hsession'⟩ := hp'.writesAt
    obtain rfl := Option.some.inj (hwrites.symm.trans hwrites')
    obtain rfl := Option.some.inj (hsession.symm.trans hsession')
    obtain rfl := Option.some.inj (hconn.symm.trans hconn')
    obtain ⟨rows, hrows⟩ := Option.ne_none_iff_exists'.mp hopen
    exact hflight rows hrows

/-- After its find a call leaves, or writes where no other row meets the condition. -/
theorem Finds.next (eng : SqlEngine T m) {session : Session (Conn T)} {next}
    (h : Finds m whereCond session (.call (.queryRowCtx session (.select "*" whereCond 0 1)) next :
      Op (Conn T) X K W A E (Except (Failure E) X))) (reply : Except E X) :
    Leaves (next reply) ∨ ∃ id, WritesNext m session id (next reply) ∧
      ∀ rows es, eng.answers (.queryRowCtx session (.select "*" whereCond 0 1)) rows reply es →
        eng.AtMostOne whereCond rows → eng.OnlyAt whereCond rows id := by
  obtain ⟨next', hp, hok, herror⟩ := h
  obtain rfl : next = next' := by simpa using hp
  cases reply with
  | ok x =>
      refine (hok x).imp id (fun hnext => ⟨some (m.primaryKey x), hnext, ?_⟩)
      intro rows es hanswer hone k row hrow hholds
      obtain ⟨row', hrow', hholds'⟩ := eng.found hanswer
      exact congrArg some (hone _ _ _ _ hrow' hrow hholds' hholds)
  | error err =>
      rcases herror err with hleaves | ⟨rfl, hnext⟩
      · exact Or.inl hleaves
      · refine Or.inr ⟨none, hnext, ?_⟩
        intro rows es hanswer _ k row hrow hholds
        exact absurd hholds (eng.notFound hanswer k row hrow)

variable [DecidableEq T] [DecidableEq K]

/-- A query leaves the table. -/
theorem handles_query {session : Session (Conn T)} {query : Query K W A} {conn : Conn T}
    {db db' : Transactions T K X} {reply : Except E X}
    (h : eng.toEngine.Handles conn (.queryRowCtx session query) db reply db') :
    db' = db ∧ ∀ rows, db.read (session.resolve conn) = some rows →
      ∃ es, eng.answers (.queryRowCtx session query) rows reply es := by
  rcases h.inv rfl with ⟨rows, es, hread, hanswer, rfl⟩ | ⟨hclosed, _, rfl⟩
  · obtain rfl := eng.reads hanswer
    refine ⟨rfl, fun rows' hread' => ?_⟩
    obtain rfl := Option.some.inj (hread.symm.trans hread')
    exact ⟨_, hanswer⟩
  · exact ⟨rfl, fun rows hread => absurd (hclosed.symm.trans hread) (by simp)⟩

/-- A call looks for its row, undisturbed. -/
theorem Inv.find (h : Inv eng whereCond s) {session : Session (Conn T)} {next} {conn : SqlConn T}
    {db : Transactions T K X} {reply : Except E X}
    (hthread : s.threads g = .running model (.call (.queryRowCtx session (.select "*" whereCond 0 1)) next))
    (hlock : s.insertLocker model = some g)
    (hfinds : Finds m whereCond session (.call (.queryRowCtx session (.select "*" whereCond 0 1)) next))
    (hconn : s.models[model]? = some conn)
    (hhandle : eng.toEngine.Handles conn.conn (.queryRowCtx session (.select "*" whereCond 0 1)) s.db reply db)
    (hundisturbed : s.Undisturbed eng whereCond (.statement g)) :
    Inv eng whereCond { s.become g (.running model (next reply)) with db := db } := by
  obtain ⟨rfl, hanswer⟩ := handles_query hhandle
  rcases hfinds.next eng reply with hleaves | ⟨id, hnext, honly⟩
  · exact h.goesOn_leaves hlock hleaves
  · have honly : ∀ rows, s.db.read (session.resolve conn.conn) = some rows → eng.OnlyAt whereCond rows id := by
      intro rows hrows
      obtain ⟨es, hanswer⟩ := hanswer rows hrows
      exact honly rows es hanswer (h.unique _ rows hrows)
    refine h.goesOn_writes hlock hconn hnext honly (fun rows hrows => ?_)
    obtain ⟨hflights, hdirty⟩ := hundisturbed model session next conn rows hthread hconn hrows
    refine ⟨?_, ?_⟩
    · intro g' model' id' c' hfl hne
      rcases hflights g' model' id' c' hfl with rfl | ⟨k, row, rfl, hrow, hholds⟩
      · -- a call in flight on this model would hold its locker
        obtain ⟨call', next', _, _, hthread', hwrites', _⟩ := hfl
        obtain ⟨hlock', _⟩ := (h.staged g' _ _ hthread').of_writesAt hwrites'
        exact absurd (Option.some.inj (hlock'.symm.trans hlock)) hne
      · exact ⟨k, honly rows hrows k row hrow hholds, rfl⟩
    · intro t ht hc
      obtain ⟨k, row, hk, hrow, hholds⟩ := hdirty t hc ht
      exact ⟨k, honly rows hrows k row hrow hholds, hk⟩

/-- What a write does: the row is there to be updated next, its transaction has ended, or rows with one key are
    written and the call leaves. -/
theorem WritesNext.handled {session : Session (Conn T)} {id : Option K} {call next} {conn : Conn T}
    {db db' : Transactions T K X} {reply : call.Reply X E}
    (h : WritesNext m session id (.call call next : Op (Conn T) X K W A E (Except (Failure E) X)))
    (hhandle : eng.toEngine.Handles conn call db reply db') :
    db' = db ∧ (Leaves (next reply) ∨ WritesNext m session id (next reply)) ∨
      Leaves (next reply) ∧ ∃ rows es k, db.read (session.resolve conn) = some rows ∧
        (id = none ∨ id = some k) ∧ (∀ e ∈ es, e.1 = k) ∧ db' = db.writeAll (session.resolve conn) es := by
  cases id with
  | none =>
      obtain ⟨data, next', hp, hleaves⟩ := h
      obtain ⟨rfl, hnext⟩ := Program.call.inj hp
      obtain rfl := eq_of_heq hnext
      rcases hhandle.inv rfl with ⟨rows, es, hread, hanswer, rfl⟩ | ⟨_, _, rfl⟩
      · rcases eng.inserts hanswer with rfl | ⟨e, rfl⟩
        · exact Or.inl ⟨rfl, Or.inl (hleaves reply)⟩
        · exact Or.inr ⟨hleaves reply, rows, [e], e.1, hread, Or.inl rfl, by simp, rfl⟩
      · exact Or.inl ⟨rfl, Or.inl (hleaves reply)⟩
  | some id =>
      rcases h with ⟨x, columns, next', _, hp, hleaves⟩ | ⟨next', hp, hnext'⟩
      · obtain ⟨rfl, hnext⟩ := Program.call.inj hp
        obtain rfl := eq_of_heq hnext
        rcases hhandle.inv rfl with ⟨rows, es, hread, hanswer, rfl⟩ | ⟨_, _, rfl⟩
        · refine Or.inr ⟨hleaves reply, rows, es, id, hread, Or.inr rfl, ?_, rfl⟩
          intro e he
          obtain ⟨row, _, hholds⟩ := eng.updates hanswer e he
          exact eng.holds_primaryKeyEqual hholds
        · exact Or.inl ⟨rfl, Or.inl (hleaves reply)⟩
      · obtain ⟨rfl, hnext⟩ := Program.call.inj hp
        obtain rfl := eq_of_heq hnext
        obtain ⟨rfl, _⟩ := handles_query hhandle
        exact Or.inl ⟨rfl, (hnext' reply).imp (fun hleaves => hleaves) Or.inl⟩

/-- A call writes, or reads what it writes next. -/
theorem Inv.write (h : Inv eng whereCond s) {session : Session (Conn T)} {id : Option K} {call next}
    {conn : SqlConn T} {db : Transactions T K X} {reply : call.Reply X E}
    (hthread : s.threads g = .running model (.call call next)) (hlock : s.insertLocker model = some g)
    (hconn : s.models[model]? = some conn) (hwrites : WritesNext m session id (.call call next))
    (honly : ∀ rows, s.db.read (session.resolve conn.conn) = some rows → eng.OnlyAt whereCond rows id)
    (hhandle : eng.toEngine.Handles conn.conn call s.db reply db) :
    Inv eng whereCond { s.become g (.running model (next reply)) with db := db } := by
  have hflight : ∀ rows, s.db.read (session.resolve conn.conn) = some rows →
      (∀ g' model' id' c', s.InFlight m g' model' id' c' → g' ≠ g → ∃ k, id = some k ∧ id' = some k) ∧
        ∀ t, s.db.Dirty t → session.resolve conn.conn ≠ .tx t → ∃ k, id = some k ∧ s.db.WroteOnly t k := by
    intro rows hrows
    have hfl := hwrites.inFlight hthread hconn hrows
    exact ⟨fun g' model' id' c' => h.flights _ _ _ _ _ _ _ _ hfl, fun t => h.beside _ _ _ _ t hfl⟩
  rcases hwrites.handled hhandle with
    ⟨rfl, hleaves | hnext⟩ | ⟨hleaves, rows, es, k, hread, hid, hes, rfl⟩
  · exact h.goesOn_leaves hlock hleaves
  · exact h.goesOn_writes hlock hconn hnext honly hflight
  · -- all that is in flight beside it is about the row that it writes
    obtain ⟨hflights, hdirty⟩ := hflight rows hread
    have hk : ∀ k', id = some k' → k' = k := by
      rintro k' rfl
      exact Option.some.inj (hid.resolve_left (by simp))
    refine (h.goesOn_leaves hlock hleaves).writeAll hread ((honly rows hread).at_some hid) hes ?_ ?_
    · intro g' model' id' c' hfl
      by_cases hg : g' = g
      · subst hg
        exact absurd hfl (not_inFlight whereCond (s.become_self g' _) (Or.inr (Or.inr hleaves)))
      · obtain ⟨call', next', session', conn', hthread', hrest⟩ := hfl
        rw [s.become_of_ne _ hg] at hthread'
        obtain ⟨k', hid', rfl⟩ := hflights g' model' id' c' ⟨call', next', session', conn', hthread', hrest⟩ hg
        rw [hk k' hid']
    · intro t hc
      by_cases ht : s.db.Dirty t
      · obtain ⟨k', hid', hwrote⟩ := hdirty t ht hc
        exact hk k' hid' ▸ hwrote
      · exact Transactions.wroteOnly_of_not_dirty ht k

end Statements

/-! ## Runs -/

section Runs

variable {eng whereCond}

theorem inv_init {table : Rows K X} (hone : eng.AtMostOne whereCond table) :
    Inv eng whereCond (System.init table : System G T X K W A E) := by
  have hclean : ∀ t, ¬ (System.init table : System G T X K W A E).db.Dirty t := by
    rintro t ⟨w, k, hw, hk⟩
    obtain rfl := Option.some.inj hw
    exact hk rfl
  have hidle : ∀ g model id c, ¬ (System.init table : System G T X K W A E).InFlight m g model id c := by
    rintro g model id c ⟨call, next, _, _, hthread, _⟩
    exact absurd hthread (by simp [System.init])
  refine ⟨?_, ?_, ?_, ?_, ?_, ?_⟩
  · intro g model p hthread
    exact absurd hthread (by simp [System.init])
  · intro g g' model model' id id' c c' hfl
    exact absurd hfl (hidle g model id c)
  · intro g model id c t hfl
    exact absurd hfl (hidle g model id c)
  · intro t t' ht
    exact absurd ht (hclean t)
  · rintro (_ | t) rows hrows
    · obtain rfl := Option.some.inj hrows
      exact hone
    · obtain rfl := Option.some.inj hrows
      have hview : Writes.over (fun _ => none) table = table := Transactions.over_of_clean (fun _ => rfl) table
      exact hview.symm ▸ hone
  · intro t k ht
    exact absurd ht (hclean t)

/-- What a goroutine does that has no call of a model in progress. -/
theorem Inv.begins {s s' : System G T X K W A E} (h : Inv eng whereCond s) {g : G} (hdb : s'.db = s.db)
    (hthreads : ∀ g', g' ≠ g → s'.threads g' = s.threads g')
    (hmodels : ∀ (i : ℕ) conn, s.models[i]? = some conn → s'.models[i]? = some conn)
    (hlocker : s'.insertLocker = s.insertLocker)
    (hstarts : ∀ model p, s'.threads g = .running model p → Starts m whereCond p) : Inv eng whereCond s' := by
  refine h.local hdb hthreads hmodels (fun _ _ _ hlock => hlocker ▸ hlock)
    (fun model p hthread => .starts (hstarts model p hthread)) ?_
  intro model id c hfl
  have hrunning := hfl
  obtain ⟨call, next, _, _, hthread, _⟩ := hrunning
  exact absurd hfl (not_inFlight whereCond hthread (Or.inr (Or.inl (hstarts model _ hthread))))

variable [DecidableEq G]

/-- A call takes the free locker of its model. -/
theorem Inv.lock {s : System G T X K W A E} (h : Inv eng whereCond s) {g : G} {model : ℕ} {next}
    (hthread : s.threads g = .running model (.call .lock next)) (hfree : s.insertLocker model = none) :
    Inv eng whereCond
      { s.become g (.running model (next ())) with
        insertLocker := Function.update s.insertLocker model (some g) } := by
  have hself : Function.update s.insertLocker model (some g) model = some g := by simp
  have hnext := (h.staged g model _ hthread).of_lock
  refine h.local (g := g) rfl (fun g' hne => s.become_of_ne _ hne) (fun _ _ hconn => hconn) ?_ ?_ ?_
  · intro g' i _ hlock
    by_cases hi : i = model
    · rw [hi, hfree] at hlock
      exact absurd hlock (by simp)
    · exact (Function.update_of_ne hi ..).trans hlock
  · intro model' p hthread'
    obtain ⟨rfl, rfl⟩ := System.running_of_become hthread'
    rcases hnext with hleaves | ⟨σ, hfinds⟩
    · exact .leaves hself hleaves
    · exact .finds hself hfinds
  · intro model' id c hfl
    refine absurd hfl (not_inFlight whereCond (s.become_self g _) ?_)
    exact hnext.symm.imp (fun hfinds => hfinds) Or.inr

/-- A call gives back the locker that it holds. -/
theorem Inv.unlock {s : System G T X K W A E} (h : Inv eng whereCond s) {g : G} {model : ℕ} {next}
    (hthread : s.threads g = .running model (.call .unlock next)) :
    Inv eng whereCond
      { s.become g (.running model (next ())) with
        insertLocker := Function.update s.insertLocker model none } := by
  obtain ⟨hlock, hret⟩ := (h.staged g model _ hthread).of_unlock
  refine h.local (g := g) rfl (fun g' hne => s.become_of_ne _ hne) (fun _ _ hconn => hconn) ?_ ?_ ?_
  · intro g' i hne hlock'
    by_cases hi : i = model
    · rw [hi, hlock] at hlock'
      exact absurd (Option.some.inj hlock').symm hne
    · exact (Function.update_of_ne hi ..).trans hlock'
  · intro model' p hthread'
    obtain ⟨rfl, rfl⟩ := System.running_of_become hthread'
    exact .starts (Or.inl hret)
  · intro model' id c hfl
    exact absurd hfl (not_inFlight whereCond (s.become_self g _) (Or.inr (Or.inl (Or.inl hret))))

variable [DecidableEq T] [DecidableEq K] [DecidableEq E]

/-- One step, undisturbed. -/
theorem Inv.step {s s' : System G T X K W A E} {e : Event G T X W E} (h : Inv eng whereCond s)
    (hstep : Step m eng.toEngine whereCond s e s') (hundisturbed : s.Undisturbed eng whereCond e) :
    Inv eng whereCond s' := by
  cases hstep with
  | loadHit hthread hcache => exact h
  | @loadMiss g conn hthread hcache =>
      refine h.begins (g := g) rfl (fun g' hne => s.become_of_ne _ hne) (fun _ _ hconn => hconn) rfl ?_
      intro model p hthread'
      exact absurd ((s.become_self g _).symm.trans hthread') (by simp)
  | @store g conn hthread =>
      refine h.begins (g := g) rfl (fun g' hne => s.become_of_ne _ hne) ?_ rfl ?_
      · intro i conn' hconn'
        exact (List.getElem?_append_left (List.getElem?_eq_some_iff.mp hconn').1).trans hconn'
      · intro model p hthread'
        exact absurd ((s.become_self g _).symm.trans hthread') (by simp)
  | @call g model data uniqFunc updateFunc session hthread hmodel huniq =>
      refine h.begins (g := g) rfl (fun g' hne => s.become_of_ne _ hne) (fun _ _ hconn => hconn) rfl ?_
      intro model' p hthread'
      obtain ⟨rfl, rfl⟩ := System.running_of_become hthread'
      exact insertOrUpdate_starts m data uniqFunc whereCond updateFunc session huniq
  | @returned g model result hthread =>
      refine h.begins (g := g) rfl (fun g' hne => s.become_of_ne _ hne) (fun _ _ hconn => hconn) rfl ?_
      intro model' p hthread'
      exact absurd ((s.become_self g _).symm.trans hthread') (by simp)
  | lock hthread hdoes hfree =>
      obtain ⟨next, rfl, rfl⟩ := hdoes
      exact h.lock hthread hfree
  | unlock hthread hdoes =>
      obtain ⟨next, rfl, rfl⟩ := hdoes
      exact h.unlock hthread
  | @statement g model p c session p' conn db reply hthread hdoes hsession hconn hhandle =>
      obtain ⟨next, rfl, rfl⟩ := hdoes
      cases h.staged g model _ hthread with
      | starts hstarts =>
          rw [call_of_starts hstarts] at hsession
          exact absurd hsession (by simp [Call.session])
      | leaves _ hleaves =>
          rw [call_of_leaves hleaves] at hsession
          exact absurd hsession (by simp [Call.session])
      | finds hlock hfinds =>
          obtain rfl := call_of_finds hfinds
          exact h.find hthread hlock hfinds hconn hhandle hundisturbed
      | @writes session' id conn' hlock hconn' hwrites honly =>
          obtain rfl := Option.some.inj (hconn.symm.trans hconn')
          exact h.write hthread hlock hconn hwrites honly hhandle
  | commit t hopen => exact h.commit hopen
  | rollback t hopen => exact h.rollback t

/-- **Uniqueness of `InsertOrUpdate`.** In a run in which no find is disturbed, the table always holds at most
    one row that meets the condition, if it did so at the start. -/
theorem insertOrUpdate_unique (m : DefaultModel X K W A E) (eng : SqlEngine T m) (whereCond : W)
    (table : Rows K X) (hone : eng.AtMostOne whereCond table) {es : List (Event G T X W E)}
    {s : System G T X K W A E}
    (hrun : Run (fun s e s' => Step m eng.toEngine whereCond s e s' ∧ s.Undisturbed eng whereCond e)
      (System.init table) es s) :
    eng.AtMostOne whereCond s.db.committed := by
  have hinv : Inv eng whereCond s :=
    hrun.preserves (inv_init hone) (fun _ _ _ hinv hstep => hinv.step hstep.1 hstep.2)
  exact hinv.unique .base _ rfl

/-- The table with the user "ann" in row 1. -/
def annTable : Rows ℕ (ℕ × String) := fun k => if k = 1 then some (1, "ann") else none

theorem annTable_ann : annTable 1 = some (1, "ann") := rfl

theorem annTable_one : (userEngine (T := Unit)).AtMostOne (.named "ann") annTable := by
  intro k k' x x' hk hk' _ _
  have hrow : ∀ {k x}, annTable k = some x → k = 1 := by
    intro k x h
    by_contra hne
    rw [annTable, if_neg hne] at h
    exact absurd h nofun
  rw [hrow hk, hrow hk']

/-- Two goroutines create a model each; both find the user "ann" before either writes, and both update her. -/
theorem insertOrUpdate_unique_users :
    ∃ (es : List (Event Bool Unit (ℕ × String) UserCond String)) (s : System Bool Unit _ _ _ _ _),
      Run (fun s e s' => Step users userEngine.toEngine (.named "ann") s e s' ∧
        s.Undisturbed userEngine (.named "ann") e) (System.init annTable) es s ∧
        es.drop 8 = [.statement true, .statement false, .statement true, .statement false] ∧
        s.models = [.db 0, .db 0] ∧ s.db.committed 1 = some (1, "ann") ∧
        (userEngine (T := Unit)).AtMostOne (.named "ann") s.db.committed := by
  have hload : Run (fun s e s' => Step users userEngine.toEngine (.named "ann") s e s' ∧
      s.Undisturbed userEngine (.named "ann") e) (System.init annTable : System Bool Unit _ _ _ _ _)
      [.load true (.db 0)] _ :=
    .single ⟨.loadMiss rfl rfl, by trivial⟩
  have hload' := hload.snoc (l := .load false (.db 0)) ⟨.loadMiss rfl rfl, by trivial⟩
  have hstore := hload'.snoc (l := .store true) ⟨.store rfl, by trivial⟩
  have hstore' := hstore.snoc (l := .store false) ⟨.store rfl, by trivial⟩
  have hcall := hstore'.snoc (l := .call true 0 (some (0, "ann")) (some fun _ => .named "ann") none [])
    ⟨.call _ _ _ _ rfl (by decide) (by simp), by trivial⟩
  have hcall' := hcall.snoc (l := .call false 1 (some (0, "ann")) (some fun _ => .named "ann") none [])
    ⟨.call _ _ _ _ rfl (by decide) (by simp), by trivial⟩
  have hlock := hcall'.snoc (l := .lock true) ⟨.lock rfl ⟨_, rfl, rfl⟩ rfl, by trivial⟩
  have hlock' := hlock.snoc (l := .lock false) ⟨.lock rfl ⟨_, rfl, rfl⟩ rfl, by trivial⟩
  have hfind := hlock'.snoc (l := .statement true) ⟨.statement rfl ⟨_, rfl, rfl⟩ rfl rfl
    (.statement rfl rfl (UserAnswers.found annTable_ann rfl)), by
    rintro model session next conn rows hthread _ _
    refine ⟨?_, ?_⟩
    · -- neither has found the user yet
      rintro (_ | _) model' id c ⟨call, next', _, _, hthread', hwrites, _⟩
      · obtain ⟨_, hp⟩ := Thread.running.inj (show Thread.running 1 (.call _ _) = _ from hthread')
        obtain ⟨rfl, _⟩ := Program.call.inj hp
        exact absurd hwrites (by simp [Call.writesAt])
      · obtain ⟨_, hp⟩ := Thread.running.inj (hthread.symm.trans hthread')
        obtain ⟨rfl, _⟩ := Program.call.inj hp
        exact absurd hwrites (by simp [Call.writesAt])
    · rintro t _ ⟨w, k, hw, hk⟩
      obtain rfl := Option.some.inj hw
      exact absurd rfl hk⟩
  have hfind' := hfind.snoc (l := .statement false) ⟨.statement rfl ⟨_, rfl, rfl⟩ rfl rfl
    (.statement rfl rfl (UserAnswers.found annTable_ann rfl)), by
    rintro model session next conn rows hthread hconn hread
    refine ⟨?_, ?_⟩
    · -- the other call is about to update the user that this one finds
      rintro (_ | _) model' id c ⟨call, next', _, _, hthread', hwrites, _⟩
      · obtain ⟨_, hp⟩ := Thread.running.inj (hthread.symm.trans hthread')
        obtain ⟨rfl, _⟩ := Program.call.inj hp
        exact absurd hwrites (by simp [Call.writesAt])
      · obtain ⟨_, hp⟩ := Thread.running.inj (show Thread.running 0 (.call _ _) = _ from hthread')
        obtain ⟨rfl, _⟩ := Program.call.inj hp
        obtain rfl := Option.some.inj hwrites
        obtain ⟨rfl, hq⟩ := Thread.running.inj (show Thread.running 1 (.call _ _) = _ from hthread)
        obtain ⟨rfl, _⟩ := Call.queryRowCtx.inj (Program.call.inj hq).1
        obtain rfl := Option.some.inj (show some _ = some conn from hconn)
        obtain rfl := Option.some.inj (show some annTable = some rows from hread)
        exact Or.inr ⟨1, (1, "ann"), rfl, rfl, rfl⟩
    · rintro t _ ⟨w, k, hw, hk⟩
      obtain rfl := Option.some.inj hw
      exact absurd rfl hk⟩
  have hupdate := hfind'.snoc (l := .statement true) ⟨.statement rfl ⟨_, rfl, rfl⟩ rfl rfl
    (.statement rfl rfl (@UserAnswers.update _ _ _ _ _ 1 (1, "ann") (1, "ann") rfl rfl)), by
    rintro model session next conn rows hthread _ _
    obtain ⟨_, hp⟩ := Thread.running.inj (show Thread.running 0 (.call _ _) = _ from hthread)
    exact absurd (Program.call.inj hp).1 (by simp)⟩
  have hupdate' := hupdate.snoc (l := .statement false) ⟨.statement rfl ⟨_, rfl, rfl⟩ rfl rfl
    (.statement rfl rfl (@UserAnswers.update _ _ _ _ _ 1 (1, "ann") (1, "ann") rfl rfl)), by
    rintro model session next conn rows hthread _ _
    obtain ⟨_, hp⟩ := Thread.running.inj (show Thread.running 1 (.call _ _) = _ from hthread)
    exact absurd (Program.call.inj hp).1 (by simp)⟩
  refine ⟨_, _, hupdate', rfl, rfl, rfl, ?_⟩
  exact insertOrUpdate_unique users userEngine (.named "ann") annTable annTable_one hupdate'

/-- Two goroutines create a model each, find no user, and insert one each. -/
theorem insertOrUpdate_duplicates :
    ∃ (es : List (Event Bool Unit (ℕ × String) UserCond String)) (s : System Bool Unit _ _ _ _ _),
      Run (Step users userEngine.toEngine (.named "ann")) (System.init fun _ => none) es s ∧
        (userEngine (T := Unit)).AtMostOne (.named "ann") (fun _ => none) ∧
        ¬ (userEngine (T := Unit)).AtMostOne (.named "ann") s.db.committed := by
  have hload : Run (Step users userEngine.toEngine (.named "ann"))
      (System.init fun _ => none : System Bool Unit _ _ _ _ _) [.load true (.db 0)] _ :=
    .single (.loadMiss rfl rfl)
  have hload' := hload.snoc (l := .load false (.db 0)) (.loadMiss rfl rfl)
  have hstore := hload'.snoc (l := .store true) (.store rfl)
  have hstore' := hstore.snoc (l := .store false) (.store rfl)
  have hcall := hstore'.snoc (l := .call true 0 (some (0, "ann")) (some fun _ => .named "ann") none [])
    (.call _ _ _ _ rfl (by decide) (by simp))
  have hcall' := hcall.snoc (l := .call false 1 (some (0, "ann")) (some fun _ => .named "ann") none [])
    (.call _ _ _ _ rfl (by decide) (by simp))
  have hlock := hcall'.snoc (l := .lock true) (.lock rfl ⟨_, rfl, rfl⟩ rfl)
  have hlock' := hlock.snoc (l := .lock false) (.lock rfl ⟨_, rfl, rfl⟩ rfl)
  have hfind := hlock'.snoc (l := .statement true)
    (.statement rfl ⟨_, rfl, rfl⟩ rfl rfl
      (.statement rfl rfl (UserAnswers.notFound fun _ row hrow => absurd (show none = some row from hrow) (by simp))))
  have hfind' := hfind.snoc (l := .statement false)
    (.statement rfl ⟨_, rfl, rfl⟩ rfl rfl
      (.statement rfl rfl (UserAnswers.notFound fun _ row hrow => absurd (show none = some row from hrow) (by simp))))
  have hinsert := hfind'.snoc (l := .statement true) (.statement rfl ⟨_, rfl, rfl⟩ rfl rfl
    (.statement rfl rfl (UserAnswers.insert (0, "ann") 1 rfl)))
  have hinsert' := hinsert.snoc (l := .statement false) (.statement rfl ⟨_, rfl, rfl⟩ rfl rfl
    (.statement rfl rfl (UserAnswers.insert (0, "ann") 2 rfl)))
  refine ⟨_, _, hinsert', ?_, ?_⟩
  · intro k k' x x' hk
    exact absurd hk (by simp)
  · intro hone
    have heq : (1 : ℕ) = 2 := hone 1 2 (1, "ann") (2, "ann") rfl rfl rfl rfl
    exact absurd heq (by decide)

end Runs

end Model
end ServiceKit
