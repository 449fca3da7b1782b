import ServiceKit.Goctl.Command

/-!
# `Goctl.Correctness.IgnoreTables` — which tables are left out

Both lists of tables are sets of entries (`mem_parseTableList`), and each entry decides alone: a table is excluded when
one of them excludes it (`ignored_iff`), whatever the order of the range. An entry is read twice, as a glob that
matches the whole name and as a regular expression that is searched for in it. What is selected, not excluded and has
one primary key column is generated (`mem_matchTables`).
-/

namespace ServiceKit
namespace Goctl
namespace Command

open Lib InfoSchema
open Lib.Glob (filepathMatch filepathMatch_iff)

/-! ## Entries -/

/-- What stands between the commas. -/
def entries (tableValue : List Text) : List Text := tableValue.flatMap (fieldsFunc fun r => r = ',')

theorem mem_parseTableList {tableValue : List Text} {e : Text} :
    e ∈ parseTableList tableValue ↔ e ∈ entries tableValue := by
  have hfold : ∀ p : Pattern, e ∈ tableValue.foldl (fun tablePattern v =>
      putAll tablePattern ((fieldsFunc (fun r => r = ',') v).map fun f => (f, ()))) p ↔
        e ∈ p ∨ e ∈ entries tableValue := by
    induction tableValue with
    | nil => simp [entries]
    | cons v vs ih =>
        intro p
        rw [List.foldl_cons, ih, mem_putAll, List.map_map, entries, entries, List.flatMap_cons, List.mem_append,
          or_assoc]
        simp
  have hempty : e ∉ (∅ : Pattern) := AList.notMem_empty e
  rw [parseTableList, hfold]
  exact or_iff_right hempty

theorem exists_range_iff (order : RangeOrder Text) (p : Pattern) (holds : Text → Prop) :
    (∃ v ∈ order.range p, holds v.1) ↔ ∃ e ∈ p, holds e := by
  constructor
  · rintro ⟨v, hv, h⟩
    exact ⟨v.1, List.mem_map_of_mem (order.mem_range.mp hv), h⟩
  · rintro ⟨e, he, h⟩
    obtain ⟨v, hv, rfl⟩ := List.mem_map.mp he
    exact ⟨v, order.mem_range.mpr hv, h⟩

theorem matchEntries_iff {s : Text} {es : List (Entry Text Unit)} :
    matchEntries s es = true ↔ ∃ v ∈ es, filepathMatch v.1 s = .ok true := by
  induction es with
  | nil => simp [matchEntries]
  | cons v rest ih =>
      rw [matchEntries, List.exists_mem_cons_iff]
      cases hmatch : filepathMatch v.1 s with
      | error e => simp [ih]
      | ok found =>
          cases found with
          | true => simp
          | false => simp [ih]

theorem matches_iff {order : RangeOrder Text} {p : Pattern} {s : Text} :
    p.matches order s = true ↔ ∃ e ∈ p, filepathMatch e s = .ok true := by
  rw [Pattern.matches, matchEntries_iff]
  exact exists_range_iff order p fun e => filepathMatch e s = .ok true

/-- A part of the name matches. -/
def PartRegexp (regexp : Compiler) (e item : Text) : Prop :=
  ∃ reg, regexp.compile e = some reg ∧ ∃ x w y, item = x ++ w ++ y ∧ Regexp.Matches reg x w y

/-- The whole name matches. -/
def WholeRegexp (regexp : Compiler) (e item : Text) : Prop :=
  ∃ reg, regexp.compile e = some reg ∧ Regexp.Matches reg [] item []

theorem foundEntry_iff {regexp : Compiler} {item : Text} {es : List (Entry Text Unit)} :
    foundEntry regexp item es = true ↔ ∃ v ∈ es, PartRegexp regexp v.1 item := by
  induction es with
  | nil => simp [foundEntry]
  | cons v rest ih =>
      rw [foundEntry, List.exists_mem_cons_iff, PartRegexp]
      cases hcompile : regexp.compile v.1 with
      | none => simp [ih]
      | some reg =>
          simp only [Option.some.injEq, exists_eq_left', ← Regexp.matchString_iff]
          cases hmatch : reg.matchString item with
          -- the first entry that is found ends the loop
          | true => simp
          | false => simp [ih]

/-- **Both readings**, over every entry. -/
theorem ignored_iff {regexp : Compiler} {order : RangeOrder Text} {p : Pattern} {item : Text} :
    ignored regexp order p item = true ↔ ∃ e ∈ p, filepathMatch e item = .ok true ∨ PartRegexp regexp e item := by
  have hmatch : p.matches order item = true ↔ ∃ e ∈ p, filepathMatch e item = .ok true := matches_iff
  have hfound : foundEntry regexp item (order.range p) = true ↔ ∃ e ∈ p, PartRegexp regexp e item := by
    rw [foundEntry_iff]
    exact exists_range_iff order p fun e => PartRegexp regexp e item
  rw [ignored]
  split
  · simp only [and_or_left, exists_or, ← hmatch, ← hfound]
    cases p.matches order item <;> simp
  · next hempty =>
      -- an empty list is not read at all
      refine iff_of_false Bool.false_ne_true ?_
      rintro ⟨e, he, -⟩
      exact hempty (List.length_pos_of_mem he)

/-! ## The tables of the loop -/

theorem convert_ok_iff {order : RangeOrder Text} {c : ColumnData} :
    (∃ table, c.convert order = .ok table) ↔
      ∃ key, c.columns.filter (fun each => indexNameOf each = some indexPri) = [key] := by
  have hcollected := getD_collect indexNameOf ∅ (c.columns.map trimComment) indexPri
  have hrows : (c.columns.map trimComment).filter (fun each => indexNameOf each = some indexPri) =
      (c.columns.filter fun each => indexNameOf each = some indexPri).map trimComment := List.filter_map
  rw [AList.lookup_empty, Option.getD_none, List.nil_append, hrows] at hcollected
  simp only [ColumnData.convert, hcollected]
  cases c.columns.filter fun each => indexNameOf each = some indexPri with
  | nil => simp
  | cons key rest =>
      cases rest with
      | nil => simp
      | cons key' rest => simp

/-- The columns of the table are found, and one row of them is in the primary key. -/
def OnePrimaryKey (sort : SortSlice) (conn : Conn) (db item : Text) : Prop :=
  ∃ columnData, findColumns sort conn db item = .ok columnData ∧
    ∃ key, columnData.columns.filter (fun each => indexNameOf each = some indexPri) = [key]

/-- **What a run of the loop leaves**: the tables that were kept and converted. -/
theorem mem_matchTables {env : Env} {arg : DataSourceArg} {conn : Conn} {db : Text} {items : List Text}
    {tables generated : GoMap Text Table} (h : matchTables env arg conn db tables items = .ok generated) {item : Text} :
    item ∈ generated ↔
      item ∈ tables ∨ item ∈ items ∧ kept env arg item = true ∧ OnePrimaryKey env.sort conn db item := by
  induction items generalizing tables with
  | nil =>
      cases h
      simp
  | cons next rest ih =>
      rw [matchTables] at h
      split at h
      · next hkept =>
          split at h
          · cases h
          · next columnData hfound =>
              have hkey : OnePrimaryKey env.sort conn db next ↔ ∃ table, columnData.convert env.order = .ok table := by
                rw [convert_ok_iff]
                simp [OnePrimaryKey, hfound]
              split at h
              · next e hconvert =>
                  -- the table is skipped, which only a missing or a joint primary key causes
                  have hno : ¬OnePrimaryKey env.sort conn db next := by simp [hkey, hconvert]
                  rw [ih h]
                  grind
              · next table hconvert =>
                  have hone : OnePrimaryKey env.sort conn db next := hkey.mpr ⟨table, hconvert⟩
                  rw [ih h, AList.mem_insert]
                  grind
      · next hkept =>
          rw [ih h]
          grind

/-! ## A run -/

def databaseSource (url db : Text) : Text := trimSuffix url ('/' :: db) ++ "/information_schema".toList

/-- A data source that can be read, with its tables. -/
structure Source (env : Env) (url db : Text) (tables : List Text) : Prop where
  nonempty : url ≠ []
  parsed : env.parseDSN url = .ok db
  all : env.getAllTables (databaseSource url db) db = .ok tables

def Generated (outcome : Outcome) (item : Text) : Prop := ∃ tables, outcome = .generate tables ∧ item ∈ tables

def Failed (outcome : Outcome) : Prop := ∃ e, outcome = .failed e

variable {env : Env} {url db : Text} {tables : List Text} {arg : DataSourceArg}

/-- What follows the loop. -/
def afterLoop : Except Failure (GoMap Text Table) → Outcome
  | .error e => .failed e
  | .ok generated => if generated.keys.length = 0 then .error "no tables matched".toList else .generate generated

theorem run_eq (hsource : Source env arg.url db tables) (hselects : arg.tablePat.keys.length ≠ 0) :
    fromMysqlDataSource env arg =
      afterLoop (matchTables env arg (env.conn (databaseSource arg.url db)) db ∅ tables) := by
  have hurl : arg.url.length ≠ 0 := fun h => hsource.nonempty (List.eq_nil_of_length_eq_zero h)
  rw [fromMysqlDataSource, if_neg hurl, if_neg hselects]
  simp only [hsource.parsed]
  have hall := hsource.all
  rw [databaseSource] at hall
  simp only [hall, databaseSource]
  cases matchTables env arg (env.conn (trimSuffix arg.url ('/' :: db) ++ "/information_schema".toList)) db ∅ tables with
  | error e => rfl
  | ok generated => rfl

theorem selects_of_kept {item : Text} (h : kept env arg item = true) : arg.tablePat.keys.length ≠ 0 := by
  rw [kept, Bool.and_eq_true] at h
  obtain ⟨e, he, -⟩ := matches_iff.mp h.1
  exact Nat.ne_of_gt (List.length_pos_of_mem he)

/-- A table that is left out is not generated, however the run ends. -/
theorem kept_of_generated (hsource : Source env arg.url db tables) {item : Text}
    (h : Generated (fromMysqlDataSource env arg) item) : kept env arg item = true := by
  obtain ⟨generated, hrun, hitem⟩ := h
  by_cases hselects : arg.tablePat.keys.length = 0
  · have hurl : arg.url.length ≠ 0 := fun h => hsource.nonempty (List.eq_nil_of_length_eq_zero h)
    rw [fromMysqlDataSource, if_neg hurl, if_pos hselects] at hrun
    cases hrun
  · rw [run_eq hsource hselects] at hrun
    cases hloop : matchTables env arg (env.conn (databaseSource arg.url db)) db ∅ tables with
    | error e =>
        rw [hloop] at hrun
        cases hrun
    | ok loaded =>
        rw [hloop, afterLoop] at hrun
        split at hrun
        · cases hrun
        · cases hrun
          rcases (mem_matchTables hloop).mp hitem with hempty | ⟨-, hkept, -⟩
          · exact absurd hempty (AList.notMem_empty item)
          · exact hkept

/-- What is kept and has one primary key column is generated, unless a query fails. -/
theorem generated_of_kept (hsource : Source env arg.url db tables) {item : Text} (hitem : item ∈ tables)
    (hkept : kept env arg item = true) (hkey : OnePrimaryKey env.sort (env.conn (databaseSource arg.url db)) db item) :
    Generated (fromMysqlDataSource env arg) item ∨ Failed (fromMysqlDataSource env arg) := by
  rw [run_eq hsource (selects_of_kept hkept)]
  cases hloop : matchTables env arg (env.conn (databaseSource arg.url db)) db ∅ tables with
  | error e => exact Or.inr ⟨e, rfl⟩
  | ok generated =>
      have hmem : item ∈ generated := (mem_matchTables hloop).mpr (Or.inr ⟨hitem, hkept, hkey⟩)
      have hlength : generated.keys.length ≠ 0 := Nat.ne_of_gt (List.length_pos_of_mem hmem)
      refine Or.inl ⟨generated, ?_, hmem⟩
      rw [afterLoop, if_neg hlength]

/-! ## The filter -/

/-- The ignore list excludes the table. -/
def Excluded (env : Env) (ignoreValue : List Text) (item : Text) : Prop :=
  ignored env.regexp env.order (parseTableList ignoreValue) item = true

def Selected (env : Env) (tableValue : List Text) (item : Text) : Prop :=
  (parseTableList tableValue).matches env.order item = true

theorem excluded_iff {ignoreValue : List Text} {item : Text} : Excluded env ignoreValue item ↔
    ∃ e ∈ entries ignoreValue, filepathMatch e item = .ok true ∨ PartRegexp env.regexp e item := by
  rw [Excluded, ignored_iff]
  simp only [mem_parseTableList]

/-- No rune of the entry has a meaning in a glob or in a regular expression. -/
def LiteralName (e : Text) : Prop := ∀ c ∈ e, c ∉ metaRunes

theorem LiteralName.match_iff {e : Text} (h : LiteralName e) (item : Text) :
    filepathMatch e item = .ok true ↔ item = e := by
  have hmeta : ∀ c ∈ ['*', '?', '[', '\\'], c ∈ metaRunes := List.forall_iff_forall_mem.mp (by decide)
  rw [filepathMatch_iff]
  exact GoSource.match_literal_iff (fun c hc hglob => h c hc (hmeta c hglob)) item

theorem entries_singleton {ignoreValue : List Text} {e : Text} (he : e ∈ entries ignoreValue) : entries [e] = [e] := by
  obtain ⟨v, -, he⟩ := List.mem_flatMap.mp he
  have hcomma : ∀ c ∈ e, decide (c = ',') = false := fieldsFunc_no_sep he
  obtain ⟨c, rest, rfl⟩ := List.exists_cons_of_ne_nil (ne_nil_of_mem_fieldsFrom he)
  rw [entries, List.flatMap_singleton, fieldsFunc, fieldsFrom_of_no_sep hcomma]
  rfl

/-- The second reading of a literal name: it excludes the tables whose names contain it. -/
theorem LiteralName.excluded_iff {ignoreValue : List Text} {e : Text} (he : e ∈ entries ignoreValue) (h : LiteralName e)
    (item : Text) : Excluded env [e] item ↔ e <:+: item := by
  have hcompile : env.regexp.compile e = some (.literal e) := env.regexp.compile_literal e h
  have hpart : PartRegexp env.regexp e item ↔ e <:+: item := by
    rw [PartRegexp, hcompile, ← Regexp.matchString_literal, Regexp.matchString_iff]
    simp
  rw [Command.excluded_iff, entries_singleton he]
  simp only [List.mem_singleton, exists_eq_left, h.match_iff, hpart]
  refine or_iff_right_of_imp ?_
  rintro rfl
  exact List.infix_refl item

/-- What `fromMysqlDataSource` makes of the lists of tables and of the tables there are. -/
structure FiltersTables (env : Env) (url db : Text) (tables tableValue ignoreValue : List Text) : Prop where
  /-- A literal name excludes its table, and is no glob for another. -/
  literal : ∀ e ∈ entries ignoreValue, LiteralName e →
    Excluded env ignoreValue e ∧ ∀ item, filepathMatch e item = .ok true ↔ item = e
  dropped : ∀ item, Excluded env ignoreValue item →
    ¬Generated (fromMysqlDataSource env ⟨url, parseTableList tableValue, parseTableList ignoreValue⟩) item
  excluded : ∀ item, Excluded env ignoreValue item →
    ∃ e ∈ entries ignoreValue, filepathMatch e item = .ok true ∨ PartRegexp env.regexp e item
  generated : ∀ item ∈ tables, Selected env tableValue item → ¬Excluded env ignoreValue item →
    OnePrimaryKey env.sort (env.conn (databaseSource url db)) db item →
    Generated (fromMysqlDataSource env ⟨url, parseTableList tableValue, parseTableList ignoreValue⟩) item ∨
      Failed (fromMysqlDataSource env ⟨url, parseTableList tableValue, parseTableList ignoreValue⟩)

/-- The filter, if each entry stood for whole names and every table converted. -/
structure FiltersNames (env : Env) (url : Text) (tables tableValue ignoreValue : List Text) : Prop where
  literal : ∀ e ∈ entries ignoreValue, LiteralName e → ∀ item, Excluded env [e] item ↔ item = e
  excluded : ∀ item ∈ tables, Selected env tableValue item → Excluded env ignoreValue item →
    ∃ e ∈ entries ignoreValue, filepathMatch e item = .ok true ∨ WholeRegexp env.regexp e item
  generated : ∀ item ∈ tables, Selected env tableValue item → ¬Excluded env ignoreValue item →
    Generated (fromMysqlDataSource env ⟨url, parseTableList tableValue, parseTableList ignoreValue⟩) item ∨
      Failed (fromMysqlDataSource env ⟨url, parseTableList tableValue, parseTableList ignoreValue⟩)

/-- The text, at the beginning. -/
def anchoredAt (t : Text) : Regexp := .concat (.assertion fun before _ => before.isNone) (.literal t)

theorem matches_anchoredAt {t w y : Text} : Regexp.Matches (anchoredAt t) [] w y ↔ w = t := by
  constructor
  · intro h
    cases h with
    | concat hbefore ht =>
        cases hbefore
        exact Regexp.matches_literal_iff.mp ht
  · rintro rfl
    exact Regexp.Matches.concat (Regexp.Matches.assertion rfl) (Regexp.matches_literal_iff.mpr rfl)

/-- Literal texts, which may be bound to the beginning. -/
def anchored : Compiler where
  compile
    | '^' :: t => if t.all fun c => c ∉ metaRunes then some (anchoredAt t) else none
    | t => if t.all fun c => c ∉ metaRunes then some (.literal t) else none
  compile_literal t h := by
    have hall : (t.all fun c => c ∉ metaRunes) = true := by simpa using h
    split
    · next t => exact absurd (by decide) (h '^' List.mem_cons_self)
    · rw [if_pos hall]

/-- A database whose tables all have the primary key `id`. -/
def shop (names : List Text) : Env where
  regexp := anchored
  order := .listed
  sort := .insertion
  parseDSN _ := .ok "shop".toList
  getAllTables _ _ := .ok names
  conn _ :=
    { columns := fun _ _ =>
        .ok [⟨"id".toList, "bigint".toList, "bigint".toList, [], [], none, "NO".toList, 1⟩]
      index := fun _ _ _ => .ok [⟨indexPri, 0, 1⟩] }

theorem source_shop (names : List Text) : Source (shop names) "root@/shop".toList "shop".toList names :=
  ⟨by decide, rfl, rfl⟩

end Command
end Goctl
end ServiceKit
