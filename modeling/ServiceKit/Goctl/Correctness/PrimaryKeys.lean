import ServiceKit.Goctl.Correctness.ParsedTable

/-!
# `PrimaryKeys` — the primary key that `Parse` finds

A column is written `PRIMARY KEY`, or a constraint of the table names it. Both count where `Parse` looks for a second
column, but only the constraint tells it which column to take (`Finds`), and `KEY` alone is no primary key to it at all.
So `Parse` detects primary keys exactly on the files that are `Detected` (`detectsPrimary_iff`).
-/

namespace ServiceKit
namespace Goctl

open Lib Ddl Converter Goctl.Parser

variable {C : Collation}

/-! ## Statements -/

/-- A `CREATE TABLE` whose primary keys are columns of it, however many are declared. -/
structure Statement (C : Collation) where
  table : Ddl.Table
  distinct : table.columns.Pairwise fun c d => C.same c.name d.name = false
  named : ∀ c ∈ table.columns, c.name ≠ []
  primary : ∀ e ∈ table.constraints, ∀ n ∈ e.columnPrimaryKey, (resolve C table n).isSome
  primary_nodup : ∀ e ∈ table.constraints, (e.columnPrimaryKey.map (resolve C table)).Nodup

/-- A column of the primary key: it is written on the column, or in a constraint. -/
def Statement.isPrimary (s : Statement C) (c : Ddl.Column) : Bool :=
  c.declares ColumnConstraint.primary || c.declares ColumnConstraint.key ||
    s.table.constraints.any fun e => e.columnPrimaryKey.any fun n => C.same c.name n

def Statement.primaryColumns (s : Statement C) : List Ddl.Column := s.table.columns.filter s.isPrimary

theorem Statement.nodup_names (s : Statement C) : (s.table.columns.map Ddl.Column.name).Nodup :=
  C.nodup_names s.distinct

/-- The column of a name in a constraint. -/
theorem Statement.exists_primary (s : Statement C) {e : TableConstraint} (he : e ∈ s.table.constraints) {n : Text}
    (hn : n ∈ e.columnPrimaryKey) : ∃ c ∈ s.primaryColumns, resolve C s.table n = some c.name := by
  have hsome := s.primary e he n hn
  unfold resolve at hsome ⊢
  cases hfind : s.table.columns.find? (fun c => C.same c.name n) with
  | none => simp [hfind] at hsome
  | some c =>
      have hsame : C.same c.name n = true := by simpa using List.find?_some hfind
      refine ⟨c, List.mem_filter.mpr ⟨List.mem_of_find?_eq_some hfind, ?_⟩, Eq.refl _⟩
      have hany : (s.table.constraints.any fun e => e.columnPrimaryKey.any fun n => C.same c.name n) = true :=
        List.any_eq_true.mpr ⟨e, he, List.any_eq_true.mpr ⟨n, hn, hsame⟩⟩
      rw [Statement.isPrimary, hany, Bool.or_true]

/-! ## What is asked of `Parse` -/

/-- The Go type has no null. -/
def NotNull (goType : Text) : Prop := ¬"sql.Null".toList <+: goType

/-- The table that `Parse` makes of a statement has this column as its primary key. -/
structure Finds (U : Unicode) (env : Env) (strict : Bool) (t : Ddl.Table) (c : Ddl.Column) (a : Parser.Table) : Prop where
  name : a.primaryKey.name = c.name
  /-- The Go type is that of a column which is `NOT NULL`. -/
  goType : ∃ thirdPkg, Converter.convertDataType U env c.dataType false c.unsigned strict =
    .ok (a.primaryKey.dataType, thirdPkg)
  /-- It has no null, unless the types are those of an external configuration. -/
  notNull : (env.useExperimental = true → env.typesMap = none) → NotNull a.primaryKey.dataType
  autoIncrement : a.primaryKey.autoIncrement = c.declares ColumnConstraint.autoIncrement
  fields : a.fields.map Field.name = t.columns.map Ddl.Column.name
  listed : ∃ f ∈ a.fields, signature f = signature a.primaryKey.toField
  notAlone : [some c.name] ∉ indexColumns a

/-- `Parse` finds the primary keys of the tables of a file. -/
structure DetectsPrimary (U : Unicode) (env : Env) (filename database : Text) (strict : Bool)
    (tables : List (Statement C)) : Prop where
  /-- A primary key of one column is found. -/
  finds : ∀ ddlFrom order list, ddlFrom filename = .ok (tables.map Statement.table) →
    parse U env ddlFrom order filename database strict = .ok list →
      List.Forall₂ (fun s a => ∀ c, s.primaryColumns = [c] → Finds U env strict s.table c a) tables list
  /-- Tables with such a key are taken. -/
  takes : (∀ s ∈ tables, ∃ c, s.primaryColumns = [c]) →
    ∀ ddlFrom order, ddlFrom filename = .ok (tables.map Statement.table) →
      ∃ list, parse U env ddlFrom order filename database strict = .ok list
  /-- Primary keys of several columns are refused. -/
  refuses : (∃ s ∈ tables, 2 ≤ s.primaryColumns.length) →
    ∀ ddlFrom order, ddlFrom filename = .ok (tables.map Statement.table) →
      ∃ e, parse U env ddlFrom order filename database strict = .error e

/-! ## Tables that are taken -/

/-- The column that the constraints of a table name last. -/
def keyColumn (t : Ddl.Table) : Text := (t.constraints.flatMap TableConstraint.columnPrimaryKey).getLast?.getD []

/-- A table that `Parse` takes. -/
structure Accepted (U : Unicode) (env : Env) (strict : Bool) (t : Ddl.Table) : Prop where
  oneName : OneName t
  /-- The types of the columns have Go types. -/
  types : ∀ c ∈ t.columns, ∃ r,
    Converter.convertDataType U env c.dataType (isDefaultNull (keyColumn t) c) c.unsigned strict = .ok r
  /-- A unique key that stays has the names of columns, as these are written. -/
  written : ∀ key ∈ t.uniqueKeys, lastUnder t key = some key → indexNameGen key ≠ keyColumn t →
    ∀ n ∈ key, n ∈ t.columns.map Ddl.Column.name

section Table

variable {U : Unicode} {env : Env} {strict : Bool} {t : Ddl.Table} {fileName database : Text}

theorem primaryColumn_eq_keyColumn {keys : Keys} (h : collectKeys fileName t = .ok keys) :
    keys.primaryColumn = keyColumn t := (collectKeys_ok h).1

theorem convertColumn_iff {primaryColumn : Text} {c : Ddl.Column} :
    (∃ f, convertColumn U env primaryColumn strict c = .ok f) ↔
      ∃ r, Converter.convertDataType U env c.dataType (isDefaultNull primaryColumn c) c.unsigned strict = .ok r := by
  unfold convertColumn
  cases Converter.convertDataType U env c.dataType (isDefaultNull primaryColumn c) c.unsigned strict with
  | error e => exact ⟨nofun, nofun⟩
  | ok r => exact ⟨fun _ => ⟨r, Eq.refl _⟩, fun _ => ⟨_, Eq.refl _⟩⟩

section Fields

variable {primaryColumn : Text} {primaryKey : Primary} {fieldM : GoMap Text Field}
  (hnodup : (t.columns.map Ddl.Column.name).Nodup)
  (h : convertColumns U env primaryColumn strict {} ∅ t.columns = .ok (primaryKey, fieldM))
include hnodup h

/-- The field of a column, with its original name. -/
theorem lookup_of_column {c : Ddl.Column} (hc : c ∈ t.columns) :
    ∃ f g, convertColumn U env primaryColumn strict c = .ok f ∧
      (nameOriginals fieldM t.columns).lookup c.name = some g ∧ signature g = signature f := by
  obtain ⟨f, hf, hlookup⟩ := (convertColumns_inv hnodup h).1 c hc
  have hsignature := lookup_nameOriginals fieldM t.columns c.name
  rw [hlookup, Option.map_some] at hsignature
  obtain ⟨g, hg, heq⟩ := Option.map_eq_some_iff.mp hsignature
  exact ⟨f, g, hf, hg, heq⟩

/-- The columns that have fields are those of the table. -/
theorem exists_lookup_iff (n : Text) :
    (∃ f, (nameOriginals fieldM t.columns).lookup n = some f) ↔ n ∈ t.columns.map Ddl.Column.name := by
  constructor
  · rintro ⟨f, hf⟩
    by_contra hn
    have hsignature := lookup_nameOriginals fieldM t.columns n
    rw [hf, (convertColumns_inv hnodup h).2.1 n hn, AList.lookup_empty] at hsignature
    cases hsignature
  · intro hn
    obtain ⟨c, hc, rfl⟩ := List.mem_map.mp hn
    obtain ⟨-, g, -, hg, -⟩ := lookup_of_column hnodup h hc
    exact ⟨g, hg⟩

theorem name_of_lookup {n : Text} {f : Field} (hf : (nameOriginals fieldM t.columns).lookup n = some f) : f.name = n := by
  obtain ⟨c, hc, rfl⟩ := List.mem_map.mp ((exists_lookup_iff hnodup h n).mp ⟨f, hf⟩)
  obtain ⟨f', g, hf', hg, heq⟩ := lookup_of_column hnodup h hc
  rw [hg] at hf
  rw [← Option.some.inj hf]
  exact (congrArg Prod.fst heq).trans (convertColumn_name hf')

/-- The fields have the names of the columns, in their order. -/
theorem map_name_fields :
    (t.columns.filterMap fun c => (nameOriginals fieldM t.columns).lookup c.name).map Field.name =
      t.columns.map Ddl.Column.name := by
  rw [List.map_filterMap, ← List.filterMap_eq_map]
  refine List.filterMap_congr fun c hc => ?_
  obtain ⟨-, g, -, hg, -⟩ := lookup_of_column hnodup h hc
  rw [hg, Option.map_some, name_of_lookup hnodup h hg]
  exact Eq.refl _

end Fields

/-- The names in `uniqueKeyMap` are columns where they are in the unique keys that stay. -/
theorem written_iff {keys : Keys} (h : collectKeys fileName t = .ok keys) :
    (∀ e ∈ keys.uniqueKeyMap.entries, ∀ n ∈ e.2, n ∈ t.columns.map Ddl.Column.name) ↔
      ∀ key ∈ t.uniqueKeys, lastUnder t key = some key → indexNameGen key ≠ keyColumn t →
        ∀ n ∈ key, n ∈ t.columns.map Ddl.Column.name := by
  rw [← primaryColumn_eq_keyColumn h]
  constructor
  · intro hall key hkey hlast hname
    exact hall ⟨uniqueName key, key⟩ ((mem_uniqueKeyMap_unique h hkey).mpr ⟨hlast, hname⟩)
  · rintro hall ⟨m, key⟩ he n hn
    rcases uniqueKeyMap_cases h he with ⟨hkey, rfl⟩ | ⟨c, hc, -, -, rfl⟩
    · obtain ⟨hlast, hname⟩ := (mem_uniqueKeyMap_unique h hkey).mp he
      exact hall key hkey hlast hname n hn
    · rw [List.mem_singleton.mp hn]
      exact List.mem_map.mpr ⟨c, hc, Eq.refl _⟩

/-- `Parse` takes a table, whatever the order of its map. -/
theorem exists_parseTable_iff (hnodup : (t.columns.map Ddl.Column.name).Nodup) (order : RangeOrder Text) :
    (∃ a, parseTable U env order fileName database strict t = .ok a) ↔ Accepted U env strict t := by
  have hindexes : ∀ keys primaryKey fieldM, collectKeys fileName t = .ok keys →
      convertColumns U env keys.primaryColumn strict {} ∅ t.columns = .ok (primaryKey, fieldM) →
      ((∃ uniqueIndex, uniqueIndexes t.name (nameOriginals fieldM t.columns) ∅ (order.range keys.uniqueKeyMap) =
        .ok uniqueIndex) ↔ ∀ e ∈ keys.uniqueKeyMap.entries, ∀ n ∈ e.2, n ∈ t.columns.map Ddl.Column.name) := by
    intro keys primaryKey fieldM hkeys hcolumns
    simp only [uniqueIndexes_iff, fieldsOf_iff, exists_lookup_iff hnodup hcolumns, order.mem_range]
  constructor
  · rintro ⟨a, ha⟩
    obtain ⟨keys, primaryKey, fieldM, uniqueIndex, hkeys, hcolumns, hunique, -⟩ := parseTable_iff.mp ha
    refine ⟨collectKeys_iff.mp ⟨keys, hkeys⟩, ?_, (written_iff hkeys).mp
      ((hindexes keys primaryKey fieldM hkeys hcolumns).mp ⟨uniqueIndex, hunique⟩)⟩
    intro c hc
    rw [← primaryColumn_eq_keyColumn hkeys]
    exact convertColumn_iff.mp (convertColumns_iff.mp ⟨_, hcolumns⟩ c hc)
  · rintro ⟨hone, htypes, hwritten⟩
    obtain ⟨keys, hkeys⟩ := collectKeys_iff.mpr hone
    rw [← primaryColumn_eq_keyColumn hkeys] at htypes
    obtain ⟨⟨primaryKey, fieldM⟩, hcolumns⟩ := convertColumns_iff.mpr fun c hc => convertColumn_iff.mpr (htypes c hc)
    obtain ⟨uniqueIndex, hunique⟩ := (hindexes keys primaryKey fieldM hkeys hcolumns).mpr
      ((written_iff hkeys).mpr hwritten)
    exact ⟨_, parseTable_iff.mpr ⟨keys, primaryKey, fieldM, uniqueIndex, hkeys, hcolumns, hunique, Eq.refl _⟩⟩

end Table

/-! ## Go types -/

theorem notNull_of_nullable : ∀ tp ∈ "byte".toList :: nullable, ∀ unsigned strict : Bool,
    NotNull (mayConvertNullType tp false unsigned strict) := by
  unfold NotNull
  decide +kernel

theorem notNull_of_named : ∀ e ∈ commonMysqlDataTypeMapString, NotNull e.2 ∧ ∀ unsigned strict : Bool,
    NotNull (mayConvertNullType e.2 false unsigned strict) := by
  unfold NotNull
  decide +kernel

/-- Without an external configuration, a column that is `NOT NULL` has a Go type without null. -/
theorem notNull_of_convertDataType {U : Unicode} {env : Env} (henv : env.useExperimental = true → env.typesMap = none)
    {t : DataType} {unsigned strict : Bool} {goType thirdPkg : Text}
    (h : Converter.convertDataType U env t false unsigned strict = .ok (goType, thirdPkg)) : NotNull goType := by
  unfold Converter.convertDataType at h
  cases hexperimental : env.useExperimental with
  | true =>
      rw [hexperimental, if_pos (Eq.refl true)] at h
      cases htp : commonMysqlDataTypeMap t with
      | none => simp [htp] at h
      | some tp =>
          rw [htp] at h
          obtain ⟨⟨goType', thirdPkg', _⟩, hname, h⟩ := bind_ok_iff.mp h
          obtain ⟨rfl, -⟩ := ok_pair_inj h
          rw [convertStringDataType, hexperimental, if_pos (Eq.refl true)] at hname
          simp only [convertDatatypeWithConfig, henv hexperimental, List.length_nil, ne_eq, not_true_eq_false,
            if_false] at hname
          unfold convertName at hname
          cases hlookup : commonMysqlDataTypeMapString.lookup (tp.map U.toLower) with
          | none => simp [hlookup] at hname
          | some tp' =>
              rw [hlookup] at hname
              obtain ⟨before, after, hsplit, -⟩ := List.lookup_eq_some_iff.mp hlookup
              obtain ⟨hplain, hnotNull⟩ := notNull_of_named (tp.map U.toLower, tp') (by
                rw [hsplit]
                exact List.mem_append_right _ List.mem_cons_self)
              dsimp only at hname
              split at hname
              · obtain ⟨rfl, -⟩ := ok_pair_inj hname
                exact hplain
              · obtain ⟨rfl, -⟩ := ok_pair_inj hname
                exact hnotNull unsigned strict
  | false =>
      rw [hexperimental, if_neg Bool.false_ne_true] at h
      cases htp : commonMysqlDataTypeMapInt t with
      | none => simp [htp] at h
      | some tp =>
          rw [htp] at h
          obtain ⟨rfl, -⟩ := ok_pair_inj h
          refine notNull_of_nullable tp ?_ unsigned strict
          by_cases hbit : t = .bit
          · subst hbit
            obtain rfl := Option.some.inj htp
            exact List.mem_cons_self
          · exact List.mem_cons_of_mem _ (mem_nullable htp hbit)

/-! ## The primary key of a table -/

section PrimaryKey

variable {U : Unicode} {env : Env} {strict : Bool} {fileName database : Text} {order : RangeOrder Text}
  {s : Statement C} {c : Ddl.Column} {a : Parser.Table}

theorem keyColumn_of_declared (hone : OneName s.table)
    (hdeclared : ∃ e ∈ s.table.constraints, e.columnPrimaryKey = [c.name]) :
    keyColumn s.table = c.name := by
  obtain ⟨e, he, hkey⟩ := hdeclared
  have hmem : c.name ∈ s.table.constraints.flatMap TableConstraint.columnPrimaryKey :=
    List.mem_flatMap.mpr ⟨e, he, by rw [hkey]; exact List.mem_singleton_self _⟩
  have hne := List.ne_nil_of_mem hmem
  rw [keyColumn, List.getLast?_eq_some_getLast hne, Option.getD_some]
  exact hone.same _ (List.mem_append_right _ (List.getLast_mem hne)) _ (List.mem_append_right _ hmem)

/-- The indexes of a table have no key that is filed under its primary key. -/
theorem notAlone_of_parseTable (h : parseTable U env order fileName database strict s.table = .ok a)
    (hcolumn : keyColumn s.table = c.name) : [some c.name] ∉ indexColumns a := by
  obtain ⟨keys, primaryKey, fieldM, uniqueIndex, hkeys, hcolumns, hindexes, rfl⟩ := parseTable_iff.mp h
  rw [← primaryColumn_eq_keyColumn hkeys] at hcolumn
  intro halone
  obtain ⟨e, he, hnames⟩ := (mem_indexColumns (Eq.refl _) _).mp halone
  obtain ⟨x, hx, -, hok⟩ := (mem_uniqueIndexes hindexes e).mp
    (order.mem_range.mp ((firstOfEach_sublist _ _ _).subset he))
  rw [fieldsOf_ok (fun n f => name_of_lookup s.nodup_names hcolumns) hok] at hnames
  have hkey : x.2 = [c.name] := List.map_injective_iff.mpr (Option.some_injective _) hnames
  rcases uniqueKeyMap_cases hkeys hx with ⟨hmem, hunique⟩ | ⟨e, -, -, hne, heq⟩
  · have hentry : ⟨uniqueName x.2, x.2⟩ ∈ keys.uniqueKeyMap.entries := hunique ▸ hx
    obtain ⟨-, hne⟩ := (mem_uniqueKeyMap_unique hkeys hmem).mp hentry
    rw [hkey, indexNameGen_singleton] at hne
    exact hne hcolumn.symm
  · rw [hkey] at heq
    exact hne ((List.singleton_inj.mp heq).symm.trans hcolumn.symm)

theorem isDefaultNull_primary (c : Ddl.Column) : isDefaultNull c.name c = false := by
  unfold isDefaultNull
  cases c.constraint with
  | none => exact Eq.refl _
  | some k => exact if_pos (Eq.refl _)

/-- The Go type of the field is what the converter says. -/
theorem goType_of_convertColumn {primaryColumn : Text} {f : Field}
    (h : convertColumn U env primaryColumn strict c = .ok f) : ∃ thirdPkg,
      Converter.convertDataType U env c.dataType (isDefaultNull primaryColumn c) c.unsigned strict =
        .ok (f.dataType, thirdPkg) := by
  obtain ⟨⟨goType, thirdPkg⟩, hconvert, hf⟩ := bind_ok_iff.mp h
  cases hf
  refine ⟨thirdPkg, ?_⟩
  unfold ofConverter at hconvert
  split at hconvert
  · next r heq => rw [heq, Except.ok.inj hconvert]
  · cases hconvert

/-- A primary key that a constraint names is found. -/
theorem finds_of_declared (hone : s.primaryColumns = [c])
    (hdeclared : ∃ e ∈ s.table.constraints, e.columnPrimaryKey = [c.name])
    (h : parseTable U env order fileName database strict s.table = .ok a) : Finds U env strict s.table c a := by
  have haccepted := (exists_parseTable_iff s.nodup_names order).mp ⟨a, h⟩
  have hcolumn := keyColumn_of_declared haccepted.oneName hdeclared
  have halone := notAlone_of_parseTable h hcolumn
  obtain ⟨keys, primaryKey, fieldM, uniqueIndex, hkeys, hcolumns, -, rfl⟩ := parseTable_iff.mp h
  have hc : c ∈ s.table.columns := by
    have hmem : c ∈ s.primaryColumns := by simp [hone]
    exact (List.mem_filter.mp hmem).1
  rw [primaryColumn_eq_keyColumn hkeys, hcolumn] at hcolumns
  obtain ⟨f, hf, rfl⟩ := (convertColumns_inv s.nodup_names hcolumns).2.2.1 c hc (Eq.refl _)
  obtain ⟨thirdPkg, hgoType⟩ := goType_of_convertColumn hf
  rw [isDefaultNull_primary] at hgoType
  refine ⟨convertColumn_name hf, ⟨thirdPkg, hgoType⟩, fun henv => notNull_of_convertDataType henv hgoType, Eq.refl _,
    map_name_fields s.nodup_names hcolumns, ?_, halone⟩
  obtain ⟨f', g, hf', hg, heq⟩ := lookup_of_column s.nodup_names hcolumns hc
  rw [hf] at hf'
  obtain rfl := Except.ok.inj hf'
  exact ⟨g, List.mem_filterMap.mpr ⟨c, hc, hg⟩, heq⟩

/-- The primary key that is found is one that a constraint names. -/
theorem declared_of_finds (hc : c ∈ s.table.columns) (h : parseTable U env order fileName database strict s.table = .ok a)
    (hname : a.primaryKey.name = c.name) : ∃ e ∈ s.table.constraints, e.columnPrimaryKey = [c.name] := by
  obtain ⟨keys, primaryKey, fieldM, uniqueIndex, hkeys, hcolumns, -, rfl⟩ := parseTable_iff.mp h
  obtain ⟨-, -, hfound, hmissing⟩ := convertColumns_inv s.nodup_names hcolumns
  have hne := s.named c hc
  have hcolumn : keys.primaryColumn = c.name := by
    by_cases hall : ∀ e ∈ s.table.columns, e.name ≠ keys.primaryColumn
    · have hempty : primaryKey.name = [] := by
        rw [hmissing hall]
      exact absurd (hname.symm.trans hempty) hne
    · push Not at hall
      obtain ⟨e, he, heq⟩ := hall
      obtain ⟨f, hf, rfl⟩ := hfound e he heq
      have hfield : f.name = c.name := hname
      rw [← heq, ← convertColumn_name hf, hfield]
  rw [primaryColumn_eq_keyColumn hkeys, keyColumn] at hcolumn
  cases hlast : (s.table.constraints.flatMap TableConstraint.columnPrimaryKey).getLast? with
  | none =>
      rw [hlast] at hcolumn
      exact absurd hcolumn.symm hne
  | some n =>
      rw [hlast] at hcolumn
      have hn : n = c.name := hcolumn
      obtain ⟨e, he, hmem⟩ := List.mem_flatMap.mp (List.mem_of_getLast? hlast)
      have hsingle := (collectKeys_iff.mp ⟨keys, hkeys⟩).single e he
      refine ⟨e, he, ?_⟩
      have hlength : e.columnPrimaryKey.length = 1 := by
        have hpos := List.length_pos_of_mem hmem
        omega
      obtain ⟨m, hm⟩ := List.length_eq_one_iff.mp hlength
      rw [hm] at hmem ⊢
      rw [← List.mem_singleton.mp hmem, hn]

end PrimaryKey

/-! ## Files -/

section File

variable {U : Unicode} {env : Env} {strict : Bool} {filename database : Text} {tables : List (Statement C)}
  {ddlFrom : Text → Except Text (List Ddl.Table)} (hddl : ddlFrom filename = .ok (tables.map Statement.table))
include hddl

/-- The tables of a file are made one by one. -/
theorem forall₂_of_parse {order : Nat → RangeOrder Text} {list : List Parser.Table}
    (h : parse U env ddlFrom order filename database strict = .ok list) :
    List.Forall₂ (fun s a => ∃ order, parseTable U env order (FilePath.base filename) database strict s.table = .ok a)
      tables list := by
  rw [parse, hddl] at h
  have heach : List.Forall₂ (fun (e : Ddl.Table × Nat) a => ∃ order,
      parseTable U env order (FilePath.base filename) database strict e.1 = .ok a)
      (tables.map Statement.table).zipIdx list := (mapM_ok_iff.mp h).imp fun e a ha => ⟨order e.2, ha⟩
  have hfst : List.Forall₂ (fun t a => ∃ order,
      parseTable U env order (FilePath.base filename) database strict t = .ok a)
      ((tables.map Statement.table).zipIdx.map Prod.fst) list := List.forall₂_map_left_iff.mpr heach
  rw [List.zipIdx_map_fst] at hfst
  exact List.forall₂_map_left_iff.mp hfst

/-- A file is taken where all its tables are. -/
theorem exists_parse_iff (order : Nat → RangeOrder Text) :
    (∃ list, parse U env ddlFrom order filename database strict = .ok list) ↔
      ∀ s ∈ tables, Accepted U env strict s.table := by
  rw [parse, hddl]
  show (∃ list, List.mapM _ _ = Except.ok list) ↔ _
  rw [exists_mapM_iff]
  constructor
  · intro hall s hs
    have hmem : s.table ∈ (tables.map Statement.table).zipIdx.map Prod.fst := by
      rw [List.zipIdx_map_fst]
      exact List.mem_map.mpr ⟨s, hs, Eq.refl _⟩
    obtain ⟨e, he, htable⟩ := List.mem_map.mp hmem
    have hok := hall e he
    rw [htable] at hok
    exact (exists_parseTable_iff s.nodup_names _).mp hok
  · intro hall e he
    have hmem : e.1 ∈ tables.map Statement.table := by
      rw [← List.zipIdx_map_fst 0 (tables.map Statement.table)]
      exact List.mem_map.mpr ⟨e, he, Eq.refl _⟩
    obtain ⟨s, hs, htable⟩ := List.mem_map.mp hmem
    rw [← htable]
    exact (exists_parseTable_iff s.nodup_names _).mpr (hall s hs)

end File

/-- What the tables of a file have to be for `Parse` to find their primary keys. -/
structure Detected (U : Unicode) (env : Env) (strict : Bool) (tables : List (Statement C)) : Prop where
  /-- A constraint names the column of a primary key, as that is written. -/
  declared : (∀ s ∈ tables, Accepted U env strict s.table) → ∀ s ∈ tables, ∀ c, s.primaryColumns = [c] →
    ∃ e ∈ s.table.constraints, e.columnPrimaryKey = [c.name]
  accepted : (∀ s ∈ tables, ∃ c, s.primaryColumns = [c]) → ∀ s ∈ tables, Accepted U env strict s.table
  refused : (∃ s ∈ tables, 2 ≤ s.primaryColumns.length) → ∃ s ∈ tables, ¬Accepted U env strict s.table

/-- **`Parse` detects the primary keys** of a file exactly when its tables declare them in the way that it knows. -/
theorem detectsPrimary_iff (U : Unicode) (env : Env) (filename database : Text) (strict : Bool)
    (tables : List (Statement C)) :
    DetectsPrimary U env filename database strict tables ↔ Detected U env strict tables := by
  have hfile : ∃ ddlFrom : Text → Except Text (List Ddl.Table), ddlFrom filename = .ok (tables.map Statement.table) :=
    ⟨fun _ => .ok (tables.map Statement.table), Eq.refl _⟩
  constructor
  · intro hdetects
    obtain ⟨ddlFrom, hddl⟩ := hfile
    constructor
    · intro hall s hs c hone
      obtain ⟨list, hlist⟩ :=
        (@exists_parse_iff _ U env strict filename database tables ddlFrom hddl fun _ => .listed).mpr hall
      have hboth := List.Forall₂.mp (fun s a hparse hfinds => And.intro hparse hfinds) (forall₂_of_parse hddl hlist)
        (hdetects.finds ddlFrom _ list hddl hlist)
      obtain ⟨a, -, ⟨order, ha⟩, hfinds⟩ := exists_mem_right hboth s hs
      have hc : c ∈ s.primaryColumns := by simp [hone]
      exact declared_of_finds (List.mem_filter.mp hc).1 ha (hfinds c hone).name
    · intro hone
      exact (exists_parse_iff hddl _).mp (hdetects.takes hone ddlFrom (fun _ => .listed) hddl)
    · intro hmany
      obtain ⟨e, he⟩ := hdetects.refuses hmany ddlFrom (fun _ => .listed) hddl
      by_contra hall
      push Not at hall
      obtain ⟨list, hlist⟩ :=
        (@exists_parse_iff _ U env strict filename database tables ddlFrom hddl fun _ => .listed).mpr hall
      rw [he] at hlist
      cases hlist
  · intro hdetected
    constructor
    · intro ddlFrom order list hddl hlist
      have hall := (exists_parse_iff hddl order).mp ⟨list, hlist⟩
      have hdeclared := hdetected.declared hall
      refine ((List.forall₂_and_left _ _).mpr ⟨hdeclared, forall₂_of_parse hddl hlist⟩).imp ?_
      rintro s a ⟨hdeclared, order', ha⟩ c hone
      exact finds_of_declared hone (hdeclared c hone) ha
    · intro hone ddlFrom order hddl
      exact (exists_parse_iff hddl order).mpr (hdetected.accepted hone)
    · intro hmany ddlFrom order hddl
      cases hparse : parse U env ddlFrom order filename database strict with
      | error e => exact ⟨e, Eq.refl _⟩
      | ok list =>
          obtain ⟨s, hs, hnot⟩ := hdetected.refused hmany
          exact absurd ((exists_parse_iff hddl order).mp ⟨list, hparse⟩ s hs) hnot

/-! ## A table of one column -/

/-- `CREATE TABLE t (id bigint PRIMARY KEY)`. -/
def inlineKey : Statement Collation.binary where
  table :=
    { name := "t".toList
      columns := [⟨"id".toList, .bigInt, false, some ⟨false, false, false, true, false, false, []⟩⟩]
      constraints := [] }
  distinct := by decide
  named := by decide
  primary := by decide
  primary_nodup := by decide

/-- A primary key that is only written on its column is not found. -/
theorem not_detectsPrimary :
    ¬∀ (U : Unicode) (env : Env) (filename database : Text) (strict : Bool) (C : Collation) (tables : List (Statement C)),
      DetectsPrimary U env filename database strict tables := by
  intro h
  have hdetects := h Unicode.ascii Env.plain [] [] true _ [inlineKey]
  have hname : (parse Unicode.ascii Env.plain (fun _ => .ok [inlineKey.table]) (fun _ => .listed) [] []
      true).toOption.map (fun list => list.map fun a => a.primaryKey.name) = some [[]] := by decide +kernel
  cases hparse : parse Unicode.ascii Env.plain (fun _ => .ok [inlineKey.table]) (fun _ => .listed) [] [] true with
  | error e =>
      rw [hparse] at hname
      cases hname
  | ok list =>
      have hfinds := hdetects.finds (fun _ => .ok [inlineKey.table]) _ list (Eq.refl _) hparse
      obtain ⟨a, list, hfound, hrest, rfl⟩ := List.forall₂_cons_left_iff.mp hfinds
      rw [hparse] at hname
      have hnil : a.primaryKey.name = [] := (List.cons.inj (Option.some.inj hname)).1
      rw [(hfound _ (Eq.refl _)).name] at hnil
      cases hnil

end Goctl
end ServiceKit
