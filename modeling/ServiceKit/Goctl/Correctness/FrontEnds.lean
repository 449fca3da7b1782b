import ServiceKit.Goctl.Correctness.ConvertedTable

/-!
# `FrontEnds` — one table, two ways to its model

A table that MySQL creates from a statement is read from the DDL (`Parse`) and from the database
(`ConvertDataType`). The models agree on the primary key, the fields and the unique indexes exactly when the table is
`Regular` (`frontEnds_agree_iff`).
-/

namespace ServiceKit
namespace Goctl

open Lib Ddl Converter Goctl.Parser

variable {C : Collation} {d : TableDefinition C}

/-- Two tables that the generators make the same model of. -/
structure Agree (a b : Parser.Table) : Prop where
  primaryKey : signature a.primaryKey.toField = signature b.primaryKey.toField
  autoIncrement : a.primaryKey.autoIncrement = b.primaryKey.autoIncrement
  fields : a.fields.map signature = b.fields.map signature
  uniqueIndex : ∀ columns, columns ∈ indexColumns a ↔ columns ∈ indexColumns b

/-- The column is nullable to both sides, or to none: it is the primary key, or it has constraints, and it says
    `NOT NULL` or has a default if it is `AUTO_INCREMENT`. -/
def NullKept (d : TableDefinition C) (c : Ddl.Column) : Prop :=
  c.name = d.primaryKey ∨
    ∃ k, c.constraint = some k ∧ (k.autoIncrement = true → k.notNull = true ∨ k.hasDefaultValue = true)

/-- What a table has to be for its models to agree. -/
structure Regular (d : TableDefinition C) : Prop where
  /-- The primary key is a constraint of the table, which names its column as that is written. -/
  primary : ∃ e ∈ d.table.constraints, e.columnPrimaryKey = [d.primaryKey]
  types : ∀ c ∈ d.table.columns, ¬Renamed c.dataType
  nulls : ∀ c ∈ d.table.columns, c.dataType ≠ .bit → NullKept d c
  /-- A unique key is the last under its joined name, which is not the name of the primary key. -/
  kept : ∀ key ∈ d.uniqueIndexes, key ≠ [d.primaryKey] →
    lastUnder d.table key = some key ∧ indexNameGen key ≠ d.primaryKey
  /-- Unique keys that are joined by commas do not look the same. -/
  apart : ∀ key ∈ d.uniqueIndexes, ∀ other ∈ d.uniqueIndexes, key ≠ [d.primaryKey] → other ≠ [d.primaryKey] →
    [','].intercalate key = [','].intercalate other → key = other

/-! ## The primary key -/

section Primary

variable {fileName : Text} {keys : Keys} (h : collectKeys fileName d.table = .ok keys)
include h

theorem primaryColumn_eq (hprimary : ∃ e ∈ d.table.constraints, e.columnPrimaryKey = [d.primaryKey]) :
    keys.primaryColumn = d.primaryKey ∧ ∀ c ∈ d.table.columns, c.declares ColumnConstraint.key = false := by
  obtain ⟨e, he, hkey⟩ := hprimary
  have hmem : d.primaryKey ∈ d.table.constraints.flatMap TableConstraint.columnPrimaryKey :=
    List.mem_flatMap.mpr ⟨e, he, by rw [hkey]; exact List.mem_singleton_self _⟩
  rcases d.primary_cases with hnil | ⟨hkeys, written, hone, -⟩
  · rw [hnil] at hmem
    cases hmem
  · refine ⟨?_, hkeys⟩
    rw [hone] at hmem
    rw [(collectKeys_ok h).1, hone, List.mem_singleton.mp hmem]
    exact Eq.refl _

/-- Otherwise `Parse` finds no column for the primary key. -/
theorem primaryColumn_missing (hprimary : ¬∃ e ∈ d.table.constraints, e.columnPrimaryKey = [d.primaryKey]) :
    ∀ c ∈ d.table.columns, c.name ≠ keys.primaryColumn := by
  intro c hc heq
  have hcolumn := (collectKeys_ok h).1
  rcases d.primary_cases with hnil | ⟨-, written, hone, hresolve⟩
  · rw [hnil] at hcolumn
    exact d.named c hc (heq.trans hcolumn)
  · rw [hone] at hcolumn
    have hwritten : c.name = written := heq.trans hcolumn
    rw [← hwritten, d.resolve_name hc] at hresolve
    obtain ⟨e, he, hmem⟩ := List.mem_flatMap.mp (hone ▸ List.mem_singleton_self written :
      written ∈ d.table.constraints.flatMap TableConstraint.columnPrimaryKey)
    have hsub : e.columnPrimaryKey.Sublist [written] :=
      hone ▸ List.sublist_flatten_of_mem (List.mem_map.mpr ⟨e, he, Eq.refl _⟩)
    refine hprimary ⟨e, he, ?_⟩
    rcases List.sublist_singleton.mp hsub with hnil | hkey
    · rw [hnil] at hmem
      cases hmem
    · rw [hkey, ← hwritten, Option.some.inj hresolve]

end Primary

/-! ## Go types -/

theorem isDefaultNull_eq_iff (c : Ddl.Column) :
    isDefaultNull d.primaryKey c = (!c.declares ColumnConstraint.hasDefaultValue && !d.notNull c) ↔ NullKept d c := by
  unfold NullKept isDefaultNull TableDefinition.notNull Ddl.Column.declares
  cases c.constraint with
  | none => simp
  | some k =>
      by_cases hname : c.name = d.primaryKey
      · simp [hname]
      · cases hnotNull : k.notNull <;> cases hdefault : k.hasDefaultValue <;> cases hauto : k.autoIncrement <;>
          simp [hname, hnotNull, hdefault, hauto]

theorem ddlType_eq_iff {c : Ddl.Column} (hknown : Known c) {strict : Bool} :
    ddlType d.primaryKey strict c = dbTypeOf d strict c ↔
      ¬Renamed c.dataType ∧ (c.dataType ≠ .bit → NullKept d c) := by
  obtain ⟨tp, htp⟩ := hknown
  rw [ddlType, dbTypeOf, htp, Option.getD_some, convert_eq_iff htp, isDefaultNull_eq_iff]

/-! ## Unique indexes -/

/-- The unique keys that `Parse` keeps are unique indexes of the table. -/
theorem uniqueKeyMap_sub {strict : Bool} {fileName : Text} {keys : Keys} {a : Parser.Table}
    (hkeys : collectKeys fileName d.table = .ok keys) (ha : Parsed d.table strict keys a)
    (hprimary : ∃ e ∈ d.table.constraints, e.columnPrimaryKey = [d.primaryKey]) {e : Entry Text (List Text)}
    (he : e ∈ keys.uniqueKeyMap.entries) : e.2 ∈ d.uniqueIndexes ∧ e.2 ≠ [d.primaryKey] := by
  obtain ⟨hcolumn, hnone⟩ := primaryColumn_eq hkeys hprimary
  obtain ⟨-, hlast, hname⟩ := (mem_uniqueKeyMap hkeys hnone).mp he
  constructor
  · have hmem : e.2 ∈ d.table.uniqueKeys := (List.mem_filter.mp (List.mem_of_getLast? hlast)).1
    refine List.mem_map.mpr ⟨e.2, hmem, ?_⟩
    have hresolve : ∀ n ∈ e.2, resolve C d.table n = some n := by
      intro n hn
      obtain ⟨c, hc, rfl⟩ := List.mem_map.mp (ha.written e he n hn)
      exact d.resolve_name hc
    rw [List.filterMap_congr hresolve, List.filterMap_some]
  · intro heq
    rw [heq, indexNameGen_singleton] at hname
    exact hname hcolumn.symm

/-! ## The two models -/

section Models

variable {U : Unicode} {rows : Rows} {ddlFrom : Text → Except Text (List Ddl.Table)}
  {filename database : Text} {strict : Bool}

theorem parse_one {order : Nat → RangeOrder Text} {t : Ddl.Table} {list : List Parser.Table}
    (hddl : ddlFrom filename = .ok [t]) :
    parse U Env.plain ddlFrom order filename database strict = .ok list ↔
      ∃ a, parseTable U Env.plain (order 0) (FilePath.base filename) database strict t = .ok a ∧ list = [a] := by
  rw [parse, hddl]
  show List.mapM _ [(t, 0)] = Except.ok list ↔ _
  rw [List.mapM_cons, bind_ok_iff]
  refine exists_congr fun a => and_congr_right fun _ => ?_
  show Except.ok [a] = Except.ok list ↔ _
  rw [Except.ok.injEq, eq_comm]

theorem agree_of_regular (hregular : Regular d) {keys : Keys} {fileName : Text} {a b : Parser.Table}
    (hkeys : collectKeys fileName d.table = .ok keys) (ha : Parsed d.table strict keys a)
    (hb : Converted d strict b) : Agree a b := by
  obtain ⟨hcolumn, hnone⟩ := primaryColumn_eq hkeys hregular.primary
  have htypes : ∀ c ∈ d.table.columns, ddlType keys.primaryColumn strict c = dbTypeOf d strict c := by
    intro c hc
    rw [hcolumn]
    exact (ddlType_eq_iff (ha.known c hc)).mpr ⟨hregular.types c hc, hregular.nulls c hc⟩
  obtain ⟨c, hc, hname⟩ := d.exists_primary
  obtain ⟨hsignature, hauto⟩ := ha.primary.found c hc (hname.trans hcolumn.symm)
  obtain ⟨hsignature', hauto'⟩ := hb.primary c hc hname
  have hsub := fun e he => @uniqueKeyMap_sub _ _ _ _ _ _ hkeys ha hregular.primary e he
  refine ⟨?_, hauto.trans hauto'.symm, ?_, ?_⟩
  · rw [hsignature, hsignature', htypes c hc]
  · rw [ha.fields, hb.fields]
    exact List.map_congr_left fun c hc => by rw [htypes c hc]
  · intro columns
    constructor
    · intro hcolumns
      obtain ⟨e, he, rfl⟩ := ha.indexes columns hcolumns
      obtain ⟨hmem, hne⟩ := hsub e he
      exact hb.complete hregular.apart e.2 hmem hne
    · intro hcolumns
      obtain ⟨key, hmem, hne, rfl⟩ := hb.indexes columns hcolumns
      obtain ⟨hlast, hjoined⟩ := hregular.kept key hmem hne
      have hentry : ⟨uniqueName key, key⟩ ∈ keys.uniqueKeyMap.entries :=
        (mem_uniqueKeyMap hkeys hnone).mpr ⟨Eq.refl _, hlast, by rw [hcolumn]; exact hjoined⟩
      refine ha.complete (fun e he e' he' hjoined => ?_) ⟨uniqueName key, key⟩ hentry
      exact hregular.apart e.2 (hsub e he).1 e'.2 (hsub e' he').1 (hsub e he).2 (hsub e' he').2 hjoined

section OfAgree

variable (hrows : Describes d rows) {keys : Keys} {fileName : Text} {a : Parser.Table}
  (hkeys : collectKeys fileName d.table = .ok keys) (ha : Parsed d.table strict keys a)
include ha

include hkeys in
/-- Without the primary key that `Parse` looks for, its table has none. -/
theorem primary_of_agree {b : Parser.Table} (hb : Converted d strict b) (hok : Agree a b) :
    ∃ e ∈ d.table.constraints, e.columnPrimaryKey = [d.primaryKey] := by
  by_contra hnone
  have hzero := ha.primary.missing (primaryColumn_missing hkeys hnone)
  obtain ⟨c, hc, hname⟩ := d.exists_primary
  have hsignature := hok.primaryKey
  rw [hzero, (hb.primary c hc hname).1] at hsignature
  exact d.named c hc (congrArg Prod.fst hsignature).symm

include hrows in
/-- Of two unique keys that look the same, each is the one that is kept in some order. -/
theorem apart_of_agree
    (hagree : ∀ sort order order' b, ConvertsTo U sort order order' rows.conn database d.table.name strict b →
      Agree a b) {key other : List Text} (hkey : key ∈ d.uniqueIndexes) (hother : other ∈ d.uniqueIndexes)
    (hne : key ≠ [d.primaryKey]) (hne' : other ≠ [d.primaryKey])
    (hjoined : [','].intercalate key = [','].intercalate other) : key = other := by
  have hstart := fun key hkey hne => @convertsTo_startingAt _ d U strict rows hrows ha.known SortSlice.insertion
    RangeOrder.listed database d.table.name key hkey hne
  obtain ⟨order, b₁, hb₁, hmem₁, -⟩ := hstart key hkey hne
  obtain ⟨order', b₂, hb₂, -, honly⟩ := hstart other hother hne'
  have hmem := ((hagree _ _ _ b₁ hb₁).uniqueIndex _).mpr hmem₁
  exact honly key hjoined (((hagree _ _ _ b₂ hb₂).uniqueIndex _).mp hmem)

include hrows hkeys in
theorem regular_of_agree
    (hagree : ∀ sort order order' b, ConvertsTo U sort order order' rows.conn database d.table.name strict b →
      Agree a b) : Regular d := by
  obtain ⟨b, hb⟩ := exists_convertsTo hrows ha.known U strict SortSlice.insertion RangeOrder.listed RangeOrder.listed
    database d.table.name
  have hok := hagree _ _ _ b hb
  have hconv := converted_of_convertsTo hrows ha.known hb
  have hprimary := primary_of_agree hkeys ha hconv hok
  obtain ⟨hcolumn, hnone⟩ := primaryColumn_eq hkeys hprimary
  have htypes : ∀ c ∈ d.table.columns, ¬Renamed c.dataType ∧ (c.dataType ≠ .bit → NullKept d c) := by
    intro c hc
    have hfields := hok.fields
    rw [ha.fields, hconv.fields, hcolumn] at hfields
    exact (ddlType_eq_iff (ha.known c hc)).mp (congrArg Prod.snd (List.map_inj_left.mp hfields c hc))
  have hapart := fun key hkey other hother hne hne' => @apart_of_agree _ d U rows database strict hrows keys a ha
    hagree key other hkey hother hne hne'
  refine ⟨hprimary, fun c hc => (htypes c hc).1, fun c hc => (htypes c hc).2, ?_, hapart⟩
  intro key hkey hne
  have hmem := (hok.uniqueIndex _).mpr (hconv.complete hapart key hkey hne)
  obtain ⟨e, he, hcolumns⟩ := ha.indexes _ hmem
  obtain rfl : key = e.2 := List.map_injective_iff.mpr (Option.some_injective _) hcolumns
  obtain ⟨-, hlast, hjoined⟩ := (mem_uniqueKeyMap hkeys hnone).mp he
  exact ⟨hlast, by rw [← hcolumn]; exact hjoined⟩

end OfAgree

/-- The models agree, whatever the orders that Go and the sort leave open. -/
def FrontEndsAgree (U : Unicode) (ddlFrom : Text → Except Text (List Ddl.Table)) (filename database : Text)
    (strict : Bool) (d : TableDefinition C) (rows : Rows) : Prop :=
  ∀ order a sort order₁ order₂ b,
    parse U Env.plain ddlFrom order filename database strict = .ok [a] →
    ConvertsTo U sort order₁ order₂ rows.conn database d.table.name strict b → Agree a b

/-- `Parse` on the DDL of a table and `ConvertDataType` on its rows make the same model if and only if the table is
    regular. -/
theorem frontEnds_agree_iff (hrows : Describes d rows) (hddl : ddlFrom filename = .ok [d.table])
    (hparse : ∃ order list, parse U Env.plain ddlFrom order filename database strict = .ok list) :
    FrontEndsAgree U ddlFrom filename database strict d rows ↔ Regular d := by
  constructor
  · intro hagree
    obtain ⟨order, list, hlist⟩ := hparse
    obtain ⟨a, ha, rfl⟩ := (parse_one hddl).mp hlist
    obtain ⟨keys, hkeys, hparsed⟩ := parseTable_ok d.nodup_names ha
    exact regular_of_agree hrows hkeys hparsed fun sort order₁ order₂ b hb => hagree _ a sort order₁ order₂ b hlist hb
  · intro hregular order a sort order₁ order₂ b hlist hb
    obtain ⟨a', ha, heq⟩ := (parse_one hddl).mp hlist
    obtain rfl := List.singleton_injective heq
    obtain ⟨keys, hkeys, hparsed⟩ := parseTable_ok d.nodup_names ha
    exact agree_of_regular hregular hkeys hparsed (converted_of_convertsTo hrows hparsed.known hb)

end Models

/-! ## A table of users -/

/-- A table of users, whose column `class` is `bigint` or `smallint`. -/
def userTable (wide : Bool) : Ddl.Table where
  name := "user".toList
  columns :=
    [⟨"id".toList, .bigInt, false, some ⟨true, false, true, false, false, false, []⟩⟩,
      ⟨"class".toList, if wide then .bigInt else .smallInt, false,
        some ⟨true, false, false, false, false, false, []⟩⟩,
      ⟨"name".toList, .varChar, false, some ⟨false, false, false, false, false, false, []⟩⟩]
  constraints := [⟨["id".toList], []⟩, ⟨[], ["class".toList, "name".toList]⟩]

def userDefinition (wide : Bool) : TableDefinition Collation.binary where
  table := userTable wide
  primaryKey := "id".toList
  distinct := by cases wide <;> decide
  named := by cases wide <;> decide
  primary := ⟨"id".toList, by cases wide <;> decide, by cases wide <;> decide⟩
  unique := by cases wide <;> decide
  unique_nodup := by cases wide <;> decide

def userIndexes : List Index :=
  [⟨InfoSchema.indexPri, ["id".toList]⟩, ⟨"class_name".toList, ["class".toList, "name".toList]⟩]

/-- What the database says of the table. -/
def userRows (wide : Bool) : Rows where
  columns :=
    [⟨"id".toList, "bigint".toList, "bigint".toList, "auto_increment".toList, [], none, "NO".toList, 1⟩,
      ⟨"class".toList, if wide then "bigint".toList else "smallint".toList,
        if wide then "bigint".toList else "smallint".toList, [], [], none, "NO".toList, 2⟩,
      ⟨"name".toList, "varchar".toList, "varchar(255)".toList, [], [], none, "YES".toList, 3⟩]
  statistics := userIndexes.flatMap Index.statistics

theorem userRows_describe (wide : Bool) : Describes (userDefinition wide) (userRows wide) where
  columns := by
    refine ⟨_, List.Perm.refl _, .cons ?_ (.cons ?_ (.cons ?_ .nil))⟩
    all_goals cases wide <;> constructor <;> decide
  statistics := by
    refine ⟨userIndexes, [], ⟨by decide, List.mem_cons_self, ?_, ?_⟩, List.forall_mem_nil _,
      List.Perm.of_eq (List.append_nil _).symm⟩
    · cases wide <;> decide
    · cases wide <;> decide

/-- `Parse` accepts the table. -/
theorem parse_userTable (wide strict : Bool) : ∃ order list,
    parse Unicode.ascii Env.plain (fun _ => .ok [userTable wide]) order "user.sql".toList [] strict = .ok list := by
  have hok : (parse Unicode.ascii Env.plain (fun _ => .ok [userTable wide]) (fun _ => RangeOrder.listed)
      "user.sql".toList [] strict).isOk = true := by
    cases wide <;> cases strict <;> decide +kernel
  refine ⟨fun _ => RangeOrder.listed, ?_⟩
  cases hparse : parse Unicode.ascii Env.plain (fun _ => .ok [userTable wide]) (fun _ => RangeOrder.listed)
      "user.sql".toList [] strict with
  | error failure =>
      rw [hparse] at hok
      cases hok
  | ok list => exact ⟨list, Eq.refl _⟩

theorem regular_userDefinition : Regular (userDefinition true) where
  primary := by decide
  types := by decide
  nulls := by
    have hnull : ∀ c ∈ (userDefinition true).table.columns, isDefaultNull (userDefinition true).primaryKey c =
        (!c.declares ColumnConstraint.hasDefaultValue && !(userDefinition true).notNull c) := by decide
    exact fun c hc _ => (isDefaultNull_eq_iff c).mp (hnull c hc)
  kept := by decide
  apart := by decide

/-- With `class` a `bigint`, the two models of the table of users agree. -/
theorem frontEnds_agree_iff_user :
    Regular (userDefinition true) ∧
      FrontEndsAgree Unicode.ascii (fun _ => .ok [userTable true]) "user.sql".toList [] true (userDefinition true)
        (userRows true) :=
  ⟨regular_userDefinition,
    (frontEnds_agree_iff (userRows_describe true) (Eq.refl _) (parse_userTable true true)).mpr
      regular_userDefinition⟩

/-- With `class` a `smallint`, they do not: it is an `int64` in one of them and an `int32` in the other. -/
theorem not_frontEndsAgree :
    ¬∀ (U : Unicode) (ddlFrom : Text → Except Text (List Ddl.Table)) (filename database : Text) (strict : Bool)
      (C : Collation) (d : TableDefinition C) (rows : Rows), Describes d rows → ddlFrom filename = .ok [d.table] →
      (∃ order list, parse U Env.plain ddlFrom order filename database strict = .ok list) →
      (∃ sort order order' b, ConvertsTo U sort order order' rows.conn database d.table.name strict b) →
      FrontEndsAgree U ddlFrom filename database strict d rows := by
  intro h
  obtain ⟨order, list, hlist⟩ := parse_userTable false true
  obtain ⟨a, ha, rfl⟩ := (parse_one (Eq.refl _)).mp hlist
  obtain ⟨keys, hkeys, hparsed⟩ := parseTable_ok (userDefinition false).nodup_names ha
  have hrows := userRows_describe false
  obtain ⟨b, hb⟩ := exists_convertsTo hrows hparsed.known Unicode.ascii true SortSlice.insertion
    RangeOrder.listed RangeOrder.listed [] (userTable false).name
  have hagree := h Unicode.ascii (fun _ => .ok [userTable false]) "user.sql".toList [] true _ (userDefinition false) _
    hrows (Eq.refl _) ⟨order, _, hlist⟩ ⟨_, _, _, b, hb⟩
  have hregular := regular_of_agree hrows hkeys hparsed fun sort order₁ order₂ b hb =>
    hagree _ a sort order₁ order₂ b hlist hb
  have htypes : ¬∀ c ∈ (userTable false).columns, ¬Renamed c.dataType := by decide
  exact htypes hregular.types

end Goctl
end ServiceKit
