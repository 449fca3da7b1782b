import Mathlib.Tactic.Linarith
import ServiceKit.Model.Database

/-!
# `Correctness.ListByPage` — the rows and the total of `ListXByPage`

`Listing` is what the queries of `ListXByPage` ask of the database, on a table that nobody writes. The rows
are always those of the page. The total is the number of matching rows in the branch with an `orderBy`; in the
other one it is the number of rows on the page, so it is right when the page has them all.
-/

namespace ServiceKit
namespace Model

open Lib

variable {S X K W A E : Type}

/-- The rows that meet a condition, and the order in which they come, with an `orderBy` or without. -/
structure Listing (X W : Type) where
  holds : W → X → Bool
  arrange : Option String → List X → List X
  arrange_perm : ∀ orderBy rows, (arrange orderBy rows).Perm rows

namespace Listing

variable (db : Listing X W) (table : List X)

def matching (whereCond : W) : List X := table.filter (db.holds whereCond)

/-- The rows from an offset on, as many as the limit. -/
def cut (offset limit : ℤ) (rows : List X) : List X := (rows.drop offset.toNat).take limit.toNat

/-- The rows of a query; `SelectSql` writes no limit for 0. -/
inductive Answers : Query K W A → List X → Prop where
  | all (whereCond : W) : Answers (.select "*" whereCond 0 0) (db.arrange none (db.matching table whereCond))
  | select (whereCond : W) {offset limit : ℤ} (hlimit : 0 < limit) :
      Answers (.select "*" whereCond offset limit)
        (cut offset limit (db.arrange none (db.matching table whereCond)))
  | ordered (whereCond : W) (orderBy : String) :
      Answers (.ordered (.select "*" whereCond 0 0) orderBy)
        (db.arrange (some orderBy) (db.matching table whereCond))
  | limited {query : Query K W A} {rows : List X} (offset limit : ℤ) (hrows : Answers query rows) :
      Answers (.limited query offset limit) (cut offset limit rows)

/-- The database answers a query with its rows, or fails. -/
inductive Handles : (c : Call S X K W A) → Unit → c.Reply X E → Unit → Prop where
  | rows {session query rows} (hrows : db.Answers table query rows) :
      Handles (.queryRowsCtx session query) () (rows, none) ()
  | rowsFail {session query} (rows : List X) (err : E) :
      Handles (.queryRowsCtx session query) () (rows, some err) ()
  | count (session : Session S) (whereCond : W) :
      Handles (.queryCountCtx session (.select "COUNT(*)" whereCond 0 0)) ()
        (.ok (db.matching table whereCond).length) ()
  | countFail {session query} (err : E) :
      Handles (.queryCountCtx session query) () (.error err) ()

/-- The rows that a call asks for. -/
def requested (whereCond : W) (page : PageModel) (orderBy : String) : List X :=
  cut page.pageOffset page.pageSize
    (db.arrange (if orderBy = "" then none else some orderBy) (db.matching table whereCond))

/-- A result lists the rows of the page, with the number of all matching rows. -/
structure Lists (whereCond : W) (page : PageModel) (orderBy : String) (result : DefaultModel.Page X E) :
    Prop where
  list : result.list = db.requested table whereCond page orderBy
  total : result.total = (db.matching table whereCond).length

end Listing

/-! ## The pieces of `ListXByPage` -/

/-- What `GetPage` promises. -/
structure Paged (page : PageModel) (maxLimit : ℤ) : Prop where
  size_pos : 1 ≤ page.pageSize
  size_le : page.pageSize ≤ maxLimit
  now_pos : 1 ≤ page.pageNow
  offset : page.pageOffset = (page.pageNow - 1) * page.pageSize

section Pieces

variable {m : DefaultModel X K W A E} {db : Listing X W} {table : List X} {whereCond : W}

theorem selectSql_ok {columns : String} {offset limit : ℤ} {query : Query K W A}
    (h : m.sqlBuilder.selectSql columns whereCond offset limit = .ok query) :
    query = .select columns whereCond offset limit := by
  unfold SqlStruct.selectSql at h
  cases hrefuse : m.sqlBuilder.refusesQuery (.select columns whereCond offset limit) with
  | some err =>
      rw [hrefuse] at h
      exact absurd h (by simp)
  | none =>
      rw [hrefuse] at h
      exact (Except.ok.inj h).symm

/-- With a page model, `GetPage` is asked with a positive limit. -/
theorem pageOf_some {pageModel : PageModel} {maxLimit : ℤ} (hsize : 0 < pageModel.pageSize)
    (hmax : 0 ≤ maxLimit) :
    m.pageOf (some pageModel) maxLimit = m.getPage pageModel (if maxLimit = 0 then 100 else maxLimit) := by
  unfold DefaultModel.pageOf
  by_cases hzero : maxLimit = 0
  · simp [hsize, hzero]
  · have hpos : maxLimit > 0 := by omega
    simp [hzero, hpos]

/-- The query of a page: its rows are the requested ones, and it counts if there is an `orderBy`. -/
theorem pageQuery_spec (db : Listing X W) (table : List X) {page : PageModel} {maxLimit : ℤ} {orderBy : String}
    {query : Query K W A} {useCount : Bool} (hpage : Paged page maxLimit)
    (h : m.pageQuery whereCond page orderBy = .ok (query, useCount)) :
    (∀ rows, db.Answers table query rows → rows = db.requested table whereCond page orderBy) ∧
      (useCount = true ↔ orderBy ≠ "") := by
  have hsize : 0 < page.pageSize := hpage.size_pos
  have hnow : 0 < page.pageNow := hpage.now_pos
  unfold DefaultModel.pageQuery at h
  by_cases horder : orderBy = ""
  · rw [if_pos horder] at h
    cases hselect : m.sqlBuilder.selectSql "*" whereCond page.pageOffset page.pageSize with
    | error err =>
        rw [hselect] at h
        exact absurd h (by simp [Except.map])
    | ok query' =>
        obtain rfl := selectSql_ok hselect
        rw [hselect] at h
        simp only [Except.map, Except.ok.injEq, Prod.mk.injEq] at h
        obtain ⟨rfl, rfl⟩ := h
        refine ⟨?_, by simp [horder]⟩
        intro rows hrows
        unfold Listing.requested
        rw [if_pos horder]
        generalize page.pageSize = limit at hrows hsize ⊢
        generalize page.pageOffset = offset at hrows ⊢
        cases hrows with
        | all _ => omega
        | select _ _ => rfl
  · rw [if_neg horder] at h
    cases hselect : m.sqlBuilder.selectSql "*" whereCond 0 0 with
    | error err =>
        rw [hselect] at h
        exact absurd h (by simp [Except.map])
    | ok query' =>
        obtain rfl := selectSql_ok hselect
        rw [hselect] at h
        simp only [Except.map, hnow, hsize, and_self, if_true, Except.ok.injEq, Prod.mk.injEq] at h
        obtain ⟨rfl, rfl⟩ := h
        refine ⟨?_, by simp [horder]⟩
        intro rows hrows
        unfold Listing.requested
        rw [if_neg horder]
        cases hrows with
        | limited _ _ hrows =>
            cases hrows with
            | ordered _ _ => rfl

/-- A `CountX` that succeeds counts the matching rows. -/
theorem countX_spec {session : SessionArgs S} {total : ℤ}
    (h : (m.countX whereCond session).Ends (db.Handles table) () (.ok total) ()) :
    total = (db.matching table whereCond).length := by
  unfold DefaultModel.countX at h
  cases hselect : m.sqlBuilder.selectSql "COUNT(*)" whereCond 0 0 with
  | error err =>
      rw [hselect] at h
      obtain ⟨habs, _⟩ := Program.ends_ret.mp h
      exact absurd habs (by simp)
  | ok query =>
      obtain rfl := selectSql_ok hselect
      rw [hselect] at h
      obtain ⟨reply, _, hcall, hrest⟩ := Program.ends_call.mp h
      obtain ⟨hreply, _⟩ := Program.ends_ret.mp hrest
      cases hcall with
      | count _ _ => exact Except.ok.inj hreply
      | countFail err => exact absurd hreply (by simp [Except.mapError])

/-- A page holds all the rows if it starts with them and has the room, or if there are none. -/
theorem length_cut_eq {page : PageModel} {maxLimit : ℤ} (hpage : Paged page maxLimit) (rows : List X) :
    (Listing.cut page.pageOffset page.pageSize rows).length = rows.length ↔
      rows = [] ∨ page.pageNow = 1 ∧ (rows.length : ℤ) ≤ page.pageSize := by
  have hsize := hpage.size_pos
  have hnow := hpage.now_pos
  have hoffset := hpage.offset
  unfold Listing.cut
  rw [List.length_take, List.length_drop, ← List.length_eq_zero_iff]
  by_cases hone : page.pageNow = 1
  · rw [hone] at hoffset
    simp only [sub_self, zero_mul] at hoffset
    rw [hoffset]
    simp only [hone, true_and, Int.toNat_zero]
    omega
  · -- a later page leaves out the rows before it
    have hlate : page.pageSize ≤ page.pageOffset := by
      rw [hoffset]
      nlinarith [lt_of_le_of_ne hnow (Ne.symm hone)]
    simp only [hone, false_and, or_false]
    omega

/-- A call that succeeds lists the rows of the page; it counts the matching rows if there is an `orderBy`, and
    the listed ones if not. -/
theorem listXByPage_spec {pageModel : PageModel} {maxLimit limit : ℤ} {orderBy : String}
    {session : SessionArgs S} {result : DefaultModel.Page X E}
    (hpaged : Paged (m.pageOf (some pageModel) maxLimit) limit)
    (hrun : (m.listXByPage whereCond (some pageModel) maxLimit orderBy session).Ends (db.Handles table) ()
      result ())
    (hok : result.err = none) :
    result.list = db.requested table whereCond (m.pageOf (some pageModel) maxLimit) orderBy ∧
      result.total = if orderBy = "" then (result.list.length : ℤ) else (db.matching table whereCond).length := by
  unfold DefaultModel.listXByPage at hrun
  cases hquery : m.pageQuery whereCond (m.pageOf (some pageModel) maxLimit) orderBy with
  | error err =>
      rw [hquery] at hrun
      obtain ⟨rfl, _⟩ := Program.ends_ret.mp hrun
      exact absurd hok (by simp)
  | ok query =>
      obtain ⟨query, useCount⟩ := query
      obtain ⟨hrows, hcount⟩ := pageQuery_spec db table hpaged hquery
      rw [hquery] at hrun
      obtain ⟨reply, _, hcall, hrest⟩ := Program.ends_call.mp hrun
      cases hcall with
      | rowsFail rows err =>
          obtain ⟨rfl, _⟩ := Program.ends_ret.mp hrest
          exact absurd hok (by simp)
      | rows hanswer =>
          obtain rfl := hrows _ hanswer
          by_cases horder : orderBy = ""
          · rw [if_pos horder]
            have huse : useCount = false := by
              rw [← Bool.not_eq_true, hcount, not_not]
              exact horder
            subst huse
            obtain ⟨rfl, _⟩ := Program.ends_ret.mp hrest
            exact ⟨rfl, rfl⟩
          · rw [if_neg horder]
            have huse : useCount = true := hcount.mpr horder
            subst huse
            have hcounted : Program.Ends _ (m.countX whereCond session >>= _) _ _ _ := hrest
            obtain ⟨total, _, htotal, hlast⟩ := Program.ends_bind.mp hcounted
            cases total with
            | error err =>
                obtain ⟨rfl, _⟩ := Program.ends_ret.mp hlast
                exact absurd hok (by simp)
            | ok total =>
                obtain ⟨rfl, _⟩ := Program.ends_ret.mp hlast
                exact ⟨rfl, countX_spec htotal⟩

end Pieces

/-- **The total of `ListXByPage`.** A call that succeeds, with a page model and no writer beside it, lists the
    rows of the page with the number of matching rows, as `CountX` gives it, exactly when there is an
    `orderBy`, or no row matches, or the page is the first and has room for them all. -/
theorem listXByPage_lists_iff (m : DefaultModel X K W A E) (db : Listing X W) (table : List X) (whereCond : W)
    (pageModel : PageModel) (maxLimit : ℤ) (orderBy : String) (session : SessionArgs S)
    (result : DefaultModel.Page X E) (page : PageModel)
    (hpage : page = m.getPage pageModel (if maxLimit = 0 then 100 else maxLimit))
    (hsize : 0 < pageModel.pageSize) (hmax : 0 ≤ maxLimit)
    (hgetPage : ∀ p n, 0 < n → Paged (m.getPage p n) n)
    (hrun : (m.listXByPage whereCond (some pageModel) maxLimit orderBy session).Ends (db.Handles table) ()
      result ())
    (hok : result.err = none) :
    (∀ total, (m.countX whereCond session).Ends (db.Handles table) () (.ok total) () →
        total = (db.matching table whereCond).length) ∧
      (db.Lists table whereCond page orderBy result ↔
        orderBy ≠ "" ∨ db.matching table whereCond = [] ∨
          page.pageNow = 1 ∧ ((db.matching table whereCond).length : ℤ) ≤ page.pageSize) := by
  refine ⟨fun total => countX_spec, ?_⟩
  obtain rfl : page = m.pageOf (some pageModel) maxLimit := hpage.trans (pageOf_some hsize hmax).symm
  have hpaged : Paged (m.pageOf (some pageModel) maxLimit) (if maxLimit = 0 then 100 else maxLimit) := by
    rw [hpage]
    apply hgetPage
    by_cases hzero : maxLimit = 0
    · simp [hzero]
    · rw [if_neg hzero]
      omega
  obtain ⟨hlist, htotal⟩ := listXByPage_spec hpaged hrun hok
  by_cases horder : orderBy = ""
  · -- the listed rows are counted: are they all?
    rw [if_pos horder] at htotal
    have hperm := db.arrange_perm (if orderBy = "" then none else some orderBy) (db.matching table whereCond)
    have hlength := length_cut_eq hpaged
      (db.arrange (if orderBy = "" then none else some orderBy) (db.matching table whereCond))
    rw [← Listing.requested, ← hlist, hperm.length_eq, ← List.length_eq_zero_iff, hperm.length_eq,
      List.length_eq_zero_iff] at hlength
    constructor
    · intro hlists
      exact Or.inr (hlength.mp (Int.ofNat_inj.mp (htotal.symm.trans hlists.total)))
    · intro hcond
      have hcond := hcond.resolve_left (by simp [horder])
      exact ⟨hlist, htotal.trans (Int.ofNat_inj.mpr (hlength.mpr hcond))⟩
  · rw [if_neg horder] at htotal
    exact ⟨fun _ => Or.inl horder, fun _ => ⟨hlist, htotal⟩⟩

/-! ## The users -/

/-- The users come by id, or the other way round. -/
def userListing : Listing (ℕ × String) UserCond where
  holds := UserCond.holds
  arrange orderBy rows := if orderBy = some "order by id desc" then rows.reverse else rows
  arrange_perm orderBy rows := by
    by_cases horder : orderBy = some "order by id desc"
    · rw [if_pos horder]
      exact rows.reverse_perm
    · rw [if_neg horder]

theorem users_getPage (p : PageModel) (n : ℤ) (hn : 0 < n) : Paged (users.getPage p n) n where
  size_pos := by
    simp only [users]
    split <;> omega
  size_le := by
    simp only [users]
    split <;> omega
  now_pos := by
    simp only [users]
    split <;> omega
  offset := rfl

/-- Three users, two on the page: ordered, the total is three. -/
theorem listXByPage_users_ordered :
    ∃ result, (users.listXByPage (S := Unit) (.keys []) (some ⟨1, 2, 0⟩) 0 "order by id desc" []).Ends
        (userListing.Handles [(1, "ann"), (2, "bob"), (3, "cid")]) () result () ∧
      userListing.Lists [(1, "ann"), (2, "bob"), (3, "cid")] (.keys []) ⟨1, 2, 0⟩ "order by id desc"
        result := by
  have hrun : (users.listXByPage (S := Unit) (.keys []) (some ⟨1, 2, 0⟩) 0 "order by id desc" []).Ends
      (userListing.Handles [(1, "ann"), (2, "bob"), (3, "cid")]) () ⟨[(3, "cid"), (2, "bob")], 3, none⟩ () :=
    .call (.rows (.limited _ _ (.ordered _ _))) (.call (.count _ _) .ret)
  exact ⟨_, hrun, ((listXByPage_lists_iff users userListing _ _ _ _ _ _ _ _ rfl (by decide) (by decide)
    users_getPage hrun rfl).2).mpr (Or.inl (by decide))⟩

/-- The same page without an order: the total is two. -/
theorem listXByPage_users_unordered :
    ∃ result, (users.listXByPage (S := Unit) (.keys []) (some ⟨1, 2, 0⟩) 0 "" []).Ends
        (userListing.Handles [(1, "ann"), (2, "bob"), (3, "cid")]) () result () ∧ result.err = none ∧
      result.total = 2 ∧
      ¬ userListing.Lists [(1, "ann"), (2, "bob"), (3, "cid")] (.keys []) ⟨1, 2, 0⟩ "" result := by
  refine ⟨⟨[(1, "ann"), (2, "bob")], 2, none⟩, .call (.rows (.select _ (by decide))) .ret, rfl, rfl, ?_⟩
  intro hlists
  exact absurd hlists.total (by decide)

end Model
end ServiceKit
