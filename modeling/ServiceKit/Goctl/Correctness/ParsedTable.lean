import Mathlib.Data.List.ReduceOption
import ServiceKit.Goctl.Correctness.DataTypes
import ServiceKit.Goctl.Correctness.Keys

/-!
# `ParsedTable` — the table that `Parse` makes of a statement

The columns are converted one by one and found again by name, so that, where no name is there twice, each column has
its own field (`convertColumns_ok`). The unique indexes are those of `uniqueKeyMap`, up to the ones that
`checkDuplicateUniqueIndex` takes for the same (`Parsed`).
-/

namespace ServiceKit
namespace Goctl

open Lib Ddl Converter Goctl.Parser

/-- What the generators take from a field: its name and its Go type. -/
def signature (f : Field) : Text × Text := (f.name, f.dataType)

/-- The names of the columns of each unique index. -/
def indexColumns (t : Parser.Table) : List (List (Option Text)) :=
  t.uniqueIndex.entries.map fun e => e.2.map (Option.map Field.name)

/-- The Go type that `Parse` gives a column. -/
def ddlType (primaryColumn : Text) (strict : Bool) (c : Ddl.Column) : Text :=
  mayConvertNullType ((commonMysqlDataTypeMapInt c.dataType).getD []) (isDefaultNull primaryColumn c) c.unsigned strict

/-- The DDL parser's token of the type has a Go type. -/
def Known (c : Ddl.Column) : Prop := ∃ tp, commonMysqlDataTypeMapInt c.dataType = some tp

/-! ## Columns -/

section Columns

variable {U : Unicode} {env : Env} {primaryColumn : Text} {strict : Bool}

theorem convertColumn_name {c : Ddl.Column} {f : Field} (h : convertColumn U env primaryColumn strict c = .ok f) :
    f.name = c.name := by
  obtain ⟨_, -, hf⟩ := bind_ok_iff.mp h
  cases hf
  exact Eq.refl _

/-- The columns are converted where each is. -/
theorem convertColumns_iff {primaryKey : Primary} {fieldM : GoMap Text Field} {columns : List Ddl.Column} :
    (∃ r, convertColumns U env primaryColumn strict primaryKey fieldM columns = .ok r) ↔
      ∀ c ∈ columns, ∃ f, convertColumn U env primaryColumn strict c = .ok f := by
  induction columns generalizing primaryKey fieldM with
  | nil => exact ⟨fun _ => List.forall_mem_nil _, fun _ => ⟨_, Eq.refl _⟩⟩
  | cons c columns ih =>
      rw [List.forall_mem_cons]
      constructor
      · rintro ⟨r, h⟩
        obtain ⟨f, hf, hrest⟩ := bind_ok_iff.mp h
        exact ⟨⟨f, hf⟩, ih.mp ⟨r, hrest⟩⟩
      · rintro ⟨⟨f, hf⟩, hrest⟩
        obtain ⟨r, hr⟩ := ih.mpr hrest
        exact ⟨r, bind_ok_iff.mpr ⟨f, hf, hr⟩⟩

/-- Where no name is there twice, each column has its own field, and the primary key is that of its column. -/
theorem convertColumns_inv {primaryKey primaryKey' : Primary} {fieldM fieldM' : GoMap Text Field}
    {columns : List Ddl.Column} (hnodup : (columns.map Ddl.Column.name).Nodup)
    (h : convertColumns U env primaryColumn strict primaryKey fieldM columns = .ok (primaryKey', fieldM')) :
    (∀ c ∈ columns, ∃ f, convertColumn U env primaryColumn strict c = .ok f ∧ fieldM'.lookup c.name = some f) ∧
      (∀ n, n ∉ columns.map Ddl.Column.name → fieldM'.lookup n = fieldM.lookup n) ∧
      (∀ c ∈ columns, c.name = primaryColumn → ∃ f, convertColumn U env primaryColumn strict c = .ok f ∧
        primaryKey' = { f with autoIncrement := c.declares ColumnConstraint.autoIncrement }) ∧
      ((∀ c ∈ columns, c.name ≠ primaryColumn) → primaryKey' = primaryKey) := by
  induction columns generalizing primaryKey fieldM with
  | nil =>
      obtain ⟨rfl, rfl⟩ := ok_pair_inj h
      exact ⟨List.forall_mem_nil _, fun _ _ => Eq.refl _, List.forall_mem_nil _, fun _ => Eq.refl _⟩
  | cons c columns ih =>
      obtain ⟨hc, hcolumns⟩ := List.nodup_cons.mp hnodup
      obtain ⟨f, hf, hrest⟩ := bind_ok_iff.mp h
      have hname := convertColumn_name hf
      obtain ⟨hlookups, hothers, hfound, hmissing⟩ := ih hcolumns hrest
      have hhead : fieldM'.lookup c.name = some f := by
        rw [hothers c.name hc, hname, AList.lookup_insert]
      refine ⟨List.forall_mem_cons.mpr ⟨⟨f, hf, hhead⟩, hlookups⟩, ?_, ?_, ?_⟩
      · intro n hn
        rw [List.map_cons, List.mem_cons, not_or] at hn
        rw [hothers n hn.2, hname, AList.lookup_insert_ne hn.1]
      · intro e he hprimaryColumn
        rcases List.mem_cons.mp he with rfl | he
        · have hrest : ∀ e' ∈ columns, e'.name ≠ primaryColumn := by
            intro e' he' heq
            exact hc (List.mem_map.mpr ⟨e', he', heq.trans hprimaryColumn.symm⟩)
          rw [hmissing hrest, if_pos (hname.trans hprimaryColumn)]
          exact ⟨f, hf, Eq.refl _⟩
        · exact hfound e he hprimaryColumn
      · intro hnone
        obtain ⟨hne, hnone⟩ := List.forall_mem_cons.mp hnone
        rw [hmissing hnone, if_neg (fun heq => hne (hname.symm.trans heq))]

theorem convertColumn_ok {c : Ddl.Column} {f : Field}
    (h : convertColumn U Env.plain primaryColumn strict c = .ok f) :
    Known c ∧ signature f = (c.name, ddlType primaryColumn strict c) := by
  obtain ⟨⟨dataType, thirdPkg⟩, hconvert, hf⟩ := bind_ok_iff.mp h
  cases htp : commonMysqlDataTypeMapInt c.dataType with
  | none => simp [Converter.convertDataType, Env.plain, htp, ofConverter] at hconvert
  | some tp =>
      rw [convertDataType_plain U htp] at hconvert
      obtain ⟨rfl, -⟩ := ok_pair_inj hconvert
      cases hf
      exact ⟨⟨tp, htp⟩, by rw [ddlType, htp]; exact Eq.refl _⟩

/-- The primary key after the columns: that of the column with this name, if there is one. -/
structure FoundPrimary (primaryColumn : Text) (strict : Bool) (primaryKey primaryKey' : Primary)
    (columns : List Ddl.Column) : Prop where
  found : ∀ c ∈ columns, c.name = primaryColumn →
    signature primaryKey'.toField = (c.name, ddlType primaryColumn strict c) ∧
      primaryKey'.autoIncrement = c.declares ColumnConstraint.autoIncrement
  missing : (∀ c ∈ columns, c.name ≠ primaryColumn) → primaryKey' = primaryKey

theorem convertColumns_ok {primaryKey primaryKey' : Primary} {fieldM fieldM' : GoMap Text Field}
    {columns : List Ddl.Column} (hnodup : (columns.map Ddl.Column.name).Nodup)
    (h : convertColumns U Env.plain primaryColumn strict primaryKey fieldM columns = .ok (primaryKey', fieldM')) :
    (∀ c ∈ columns, Known c) ∧
      (∀ c ∈ columns, (fieldM'.lookup c.name).map signature = some (c.name, ddlType primaryColumn strict c)) ∧
      (∀ n, n ∉ columns.map Ddl.Column.name → fieldM'.lookup n = fieldM.lookup n) ∧
      FoundPrimary primaryColumn strict primaryKey primaryKey' columns := by
  obtain ⟨hlookups, hothers, hfound, hmissing⟩ := convertColumns_inv hnodup h
  refine ⟨?_, ?_, hothers, ?_, hmissing⟩
  · intro c hc
    obtain ⟨f, hf, -⟩ := hlookups c hc
    exact (convertColumn_ok hf).1
  · intro c hc
    obtain ⟨f, hf, hlookup⟩ := hlookups c hc
    rw [hlookup, Option.map_some, (convertColumn_ok hf).2]
  · intro c hc hprimaryColumn
    obtain ⟨f, hf, rfl⟩ := hfound c hc hprimaryColumn
    exact ⟨(convertColumn_ok hf).2, Eq.refl _⟩

theorem lookup_nameOriginals (fieldM : GoMap Text Field) (columns : List Ddl.Column) (n : Text) :
    ((nameOriginals fieldM columns).lookup n).map signature = (fieldM.lookup n).map signature := by
  induction columns generalizing fieldM with
  | nil => exact Eq.refl _
  | cons c columns ih =>
      rw [nameOriginals]
      cases hlookup : fieldM.lookup c.name with
      | none => exact ih fieldM
      | some f =>
          rw [ih]
          by_cases hn : n = c.name
          · subst hn
            rw [AList.lookup_insert, hlookup]
            exact Eq.refl _
          · rw [AList.lookup_insert_ne hn]

/-- The fields of the columns, in their order. -/
theorem map_signature_filterMap {fieldM : GoMap Text Field} {columns : List Ddl.Column}
    (h : ∀ c ∈ columns, (fieldM.lookup c.name).map signature = some (c.name, ddlType primaryColumn strict c)) :
    (columns.filterMap fun c => fieldM.lookup c.name).map signature =
      columns.map fun c => (c.name, ddlType primaryColumn strict c) := by
  rw [List.map_filterMap, List.filterMap_congr h, ← List.filterMap_eq_map]
  exact Eq.refl _

end Columns

/-! ## Unique indexes -/

section Indexes

variable {tableName : Text} {fieldM : GoMap Text Field}

/-- The fields of an index are the columns that it names. -/
theorem fieldsOf_ok (hname : ∀ n f, fieldM.lookup n = some f → f.name = n) {key : List Text}
    {fields : List (Option Field)} (h : fieldsOf tableName fieldM key = .ok fields) :
    fields.map (Option.map Field.name) = key.map some := by
  unfold fieldsOf at h
  induction key generalizing fields with
  | nil =>
      cases h
      exact Eq.refl _
  | cons n key ih =>
      rw [List.mapM_cons] at h
      obtain ⟨f, hf, h⟩ := bind_ok_iff.mp h
      obtain ⟨fs, hfs, h⟩ := bind_ok_iff.mp h
      cases h
      cases hlookup : fieldM.lookup n with
      | none => simp [hlookup] at hf
      | some g =>
          rw [hlookup] at hf
          cases hf
          rw [List.map_cons, List.map_cons, ih hfs, Option.map_some, hname n g hlookup]

/-- An index has fields where each of its columns has one. -/
theorem fieldsOf_iff {key : List Text} :
    (∃ fields, fieldsOf tableName fieldM key = .ok fields) ↔ ∀ n ∈ key, ∃ f, fieldM.lookup n = some f := by
  unfold fieldsOf
  rw [exists_mapM_iff]
  refine forall₂_congr fun n _ => ?_
  cases hlookup : fieldM.lookup n with
  | none => simp
  | some f => simp

/-- The text that tells one index from another. -/
theorem joined_eq {fields : List (Option Field)} {key : List Text}
    (h : fields.map (Option.map Field.name) = key.map some) : joined fields = [','].intercalate key := by
  have hnames : fields.reduceOption.map Field.name = key := by
    have hreduce := congrArg List.reduceOption h
    rw [List.reduceOption_map] at hreduce
    rw [hreduce]
    simp [List.reduceOption, List.filterMap_map]
  rw [joined, hnames]

theorem uniqueIndexes_ok {uniqueIndex uniqueIndex' : GoMap Text (List (Option Field))}
    {es : List (Entry Text (List Text))} (hnodup : (es.map Sigma.fst).Nodup)
    (h : uniqueIndexes tableName fieldM uniqueIndex es = .ok uniqueIndex') {e : Entry Text (List (Option Field))} :
    e ∈ uniqueIndex'.entries ↔ e ∈ uniqueIndex.entries ∧ e.1 ∉ es.map Sigma.fst ∨
      ∃ x ∈ es, x.1 = e.1 ∧ fieldsOf tableName fieldM x.2 = .ok e.2 := by
  induction es generalizing uniqueIndex with
  | nil =>
      cases h
      simp
  | cons x es ih =>
      obtain ⟨hx, hes⟩ := List.nodup_cons.mp hnodup
      obtain ⟨fields, hfields, hrest⟩ := bind_ok_iff.mp h
      rw [ih hes hrest, mem_entries_insert]
      constructor
      · rintro (⟨rfl | ⟨hne, hmem⟩, hnot⟩ | ⟨y, hy, hkey, hok⟩)
        · exact Or.inr ⟨x, List.mem_cons_self, Eq.refl _, hfields⟩
        · exact Or.inl ⟨hmem, by simp [hne, hnot]⟩
        · exact Or.inr ⟨y, List.mem_cons_of_mem x hy, hkey, hok⟩
      · rintro (⟨hmem, hnot⟩ | ⟨y, hy, hkey, hok⟩)
        · rw [List.map_cons, List.mem_cons, not_or] at hnot
          exact Or.inl ⟨Or.inr ⟨hnot.1, hmem⟩, hnot.2⟩
        · rcases List.mem_cons.mp hy with rfl | hy
          · rw [hfields] at hok
            refine Or.inl ⟨Or.inl ?_, hkey ▸ hx⟩
            obtain ⟨n, v⟩ := e
            cases hkey
            cases hok
            exact Eq.refl _
          · exact Or.inr ⟨y, hy, hkey, hok⟩

theorem uniqueIndexes_iff {uniqueIndex : GoMap Text (List (Option Field))} {es : List (Entry Text (List Text))} :
    (∃ uniqueIndex', uniqueIndexes tableName fieldM uniqueIndex es = .ok uniqueIndex') ↔
      ∀ e ∈ es, ∃ fields, fieldsOf tableName fieldM e.2 = .ok fields := by
  induction es generalizing uniqueIndex with
  | nil => exact ⟨fun _ => List.forall_mem_nil _, fun _ => ⟨_, Eq.refl _⟩⟩
  | cons x es ih =>
      rw [List.forall_mem_cons]
      constructor
      · rintro ⟨uniqueIndex', h⟩
        obtain ⟨fields, hfields, hrest⟩ := bind_ok_iff.mp h
        exact ⟨⟨fields, hfields⟩, ih.mp ⟨uniqueIndex', hrest⟩⟩
      · rintro ⟨⟨fields, hfields⟩, hrest⟩
        obtain ⟨uniqueIndex', h⟩ := ih.mpr hrest
        exact ⟨uniqueIndex', bind_ok_iff.mpr ⟨fields, hfields, h⟩⟩

/-- The indexes that are left are the first of each joined name. -/
theorem mem_dropDuplicates {uniqueIndex : GoMap Text (List (Option Field))} {seen : Finset Text}
    {es : List (Entry Text (List (Option Field)))} (hnodup : (es.map Sigma.fst).Nodup)
    (hes : ∀ e ∈ es, e ∈ uniqueIndex.entries) {e : Entry Text (List (Option Field))} :
    e ∈ (dropDuplicates uniqueIndex seen es).entries ↔ e ∈ uniqueIndex.entries ∧ e.1 ∉ es.map Sigma.fst ∨
      e ∈ firstOfEach (fun e => joined e.2) seen es := by
  induction es generalizing uniqueIndex seen with
  | nil => simp [dropDuplicates, firstOfEach]
  | cons x es ih =>
      obtain ⟨hx, hnodup⟩ := List.nodup_cons.mp hnodup
      obtain ⟨hmem, hes⟩ := List.forall_mem_cons.mp hes
      have hne : ∀ e ∈ es, e.1 ≠ x.1 := fun e he heq => hx (heq ▸ List.mem_map.mpr ⟨e, he, Eq.refl _⟩)
      rw [dropDuplicates, firstOfEach]
      split
      · rw [ih hnodup (fun e he => mem_entries_erase.mpr ⟨hne e he, hes e he⟩), mem_entries_erase]
        simp only [List.map_cons, List.mem_cons, not_or]
        tauto
      · rw [ih hnodup hes, List.mem_cons]
        have hkey : e ∈ uniqueIndex.entries → e.1 = x.1 → e = x := fun he hfst =>
          uniqueIndex.nodupKeys.eq_of_fst_eq he hmem hfst
        simp only [List.map_cons, List.mem_cons, not_or]
        constructor
        · rintro (⟨he, hnot⟩ | hfirst)
          · by_cases hfst : e.1 = x.1
            · exact Or.inr (Or.inl (hkey he hfst))
            · exact Or.inl ⟨he, hfst, hnot⟩
          · exact Or.inr (Or.inr hfirst)
        · rintro (⟨he, -, hnot⟩ | rfl | hfirst)
          · exact Or.inl ⟨he, hnot⟩
          · exact Or.inl ⟨hmem, hx⟩
          · exact Or.inr hfirst

theorem mem_checkDuplicateUniqueIndex (order : RangeOrder Text) (uniqueIndex : GoMap Text (List (Option Field)))
    {e : Entry Text (List (Option Field))} :
    e ∈ (checkDuplicateUniqueIndex order uniqueIndex).entries ↔
      e ∈ firstOfEach (fun e => joined e.2) ∅ (order.range uniqueIndex) := by
  rw [checkDuplicateUniqueIndex,
    mem_dropDuplicates (order.nodup_keys uniqueIndex) (fun e he => order.mem_range.mp he)]
  refine ⟨?_, Or.inr⟩
  rintro (⟨he, hnot⟩ | hfirst)
  · exact absurd (List.mem_map.mpr ⟨e, order.mem_range.mpr he, Eq.refl _⟩) hnot
  · exact hfirst

end Indexes

/-! ## The table -/

/-- The table that `Parse` makes of a statement, with the keys that it collects. -/
structure Parsed (t : Ddl.Table) (strict : Bool) (keys : Keys) (a : Parser.Table) : Prop where
  known : ∀ c ∈ t.columns, Known c
  fields : a.fields.map signature = t.columns.map fun c => (c.name, ddlType keys.primaryColumn strict c)
  primary : FoundPrimary keys.primaryColumn strict {} a.primaryKey t.columns
  /-- The names in the unique keys are those of the columns, as these are written. -/
  written : ∀ e ∈ keys.uniqueKeyMap.entries, ∀ n ∈ e.2, n ∈ t.columns.map Ddl.Column.name
  indexes : ∀ columns ∈ indexColumns a, ∃ e ∈ keys.uniqueKeyMap.entries, columns = e.2.map some
  /-- No index is lost where the joined names tell the indexes apart. -/
  complete : (∀ e ∈ keys.uniqueKeyMap.entries, ∀ e' ∈ keys.uniqueKeyMap.entries,
      [','].intercalate e.2 = [','].intercalate e'.2 → e.2 = e'.2) →
    ∀ e ∈ keys.uniqueKeyMap.entries, e.2.map some ∈ indexColumns a

/-- The fields of the columns, each under the name of its column. -/
structure ColumnFields (t : Ddl.Table) (primaryColumn : Text) (strict : Bool) (fieldM : GoMap Text Field) : Prop where
  named : ∀ c ∈ t.columns, (fieldM.lookup c.name).map signature = some (c.name, ddlType primaryColumn strict c)
  found : ∀ n f, fieldM.lookup n = some f → n ∈ t.columns.map Ddl.Column.name ∧ f.name = n

theorem columnFields_nameOriginals {t : Ddl.Table} {primaryColumn : Text} {strict : Bool} {fieldM : GoMap Text Field}
    (hlookups : ∀ c ∈ t.columns,
      (fieldM.lookup c.name).map signature = some (c.name, ddlType primaryColumn strict c))
    (hothers : ∀ n, n ∉ t.columns.map Ddl.Column.name → fieldM.lookup n = none) :
    ColumnFields t primaryColumn strict (nameOriginals fieldM t.columns) := by
  constructor
  · intro c hc
    rw [lookup_nameOriginals, hlookups c hc]
  · intro n f hf
    have hsignature := lookup_nameOriginals fieldM t.columns n
    rw [hf, Option.map_some] at hsignature
    by_cases hn : n ∈ t.columns.map Ddl.Column.name
    · obtain ⟨c, hc, rfl⟩ := List.mem_map.mp hn
      rw [hlookups c hc] at hsignature
      exact ⟨hn, congrArg Prod.fst (Option.some.inj hsignature)⟩
    · rw [hothers n hn] at hsignature
      cases hsignature

/-- The unique indexes of the table, before the duplicates are dropped, are the keys. -/
theorem mem_uniqueIndexes {tableName : Text} {order : RangeOrder Text} {m : GoMap Text (List Text)}
    {fieldM : GoMap Text Field} {uniqueIndex : GoMap Text (List (Option Field))}
    (h : uniqueIndexes tableName fieldM ∅ (order.range m) = .ok uniqueIndex) (e : Entry Text (List (Option Field))) :
    e ∈ uniqueIndex.entries ↔ ∃ x ∈ m.entries, x.1 = e.1 ∧ fieldsOf tableName fieldM x.2 = .ok e.2 := by
  rw [uniqueIndexes_ok (order.nodup_keys m) h, AList.empty_entries]
  simp only [List.not_mem_nil, false_and, false_or, order.mem_range]

theorem mem_indexColumns {t : Parser.Table} {order : RangeOrder Text} {uniqueIndex : GoMap Text (List (Option Field))}
    (h : t.uniqueIndex = checkDuplicateUniqueIndex order uniqueIndex) (columns : List (Option Text)) :
    columns ∈ indexColumns t ↔ ∃ e ∈ firstOfEach (fun e => joined e.2) ∅ (order.range uniqueIndex),
      e.2.map (Option.map Field.name) = columns := by
  simp only [indexColumns, h, List.mem_map, mem_checkDuplicateUniqueIndex]

/-- The parts that a table is made of. -/
theorem parseTable_iff {U : Unicode} {env : Env} {order : RangeOrder Text} {fileName database : Text} {strict : Bool}
    {t : Ddl.Table} {a : Parser.Table} : parseTable U env order fileName database strict t = .ok a ↔
      ∃ keys primaryKey fieldM uniqueIndex, collectKeys fileName t = .ok keys ∧
        convertColumns U env keys.primaryColumn strict {} ∅ t.columns = .ok (primaryKey, fieldM) ∧
        uniqueIndexes t.name (nameOriginals fieldM t.columns) ∅ (order.range keys.uniqueKeyMap) = .ok uniqueIndex ∧
        a = { name := t.name, db := database, primaryKey := primaryKey
              uniqueIndex := checkDuplicateUniqueIndex order uniqueIndex
              fields := t.columns.filterMap fun c => (nameOriginals fieldM t.columns).lookup c.name
              containsPQ := false } := by
  constructor
  · intro h
    obtain ⟨keys, hkeys, h⟩ := bind_ok_iff.mp h
    obtain ⟨⟨primaryKey, fieldM⟩, hcolumns, h⟩ := bind_ok_iff.mp h
    obtain ⟨uniqueIndex, hindexes, h⟩ := bind_ok_iff.mp h
    exact ⟨keys, primaryKey, fieldM, uniqueIndex, hkeys, hcolumns, hindexes, (Except.ok.inj h).symm⟩
  · rintro ⟨keys, primaryKey, fieldM, uniqueIndex, hkeys, hcolumns, hindexes, rfl⟩
    refine bind_ok_iff.mpr ⟨keys, hkeys, bind_ok_iff.mpr ⟨(primaryKey, fieldM), hcolumns, ?_⟩⟩
    exact bind_ok_iff.mpr ⟨uniqueIndex, hindexes, Eq.refl _⟩

theorem parseTable_ok {U : Unicode} {order : RangeOrder Text} {fileName database : Text} {strict : Bool}
    {t : Ddl.Table} (hnodup : (t.columns.map Ddl.Column.name).Nodup) {a : Parser.Table}
    (h : parseTable U Env.plain order fileName database strict t = .ok a) :
    ∃ keys, collectKeys fileName t = .ok keys ∧ Parsed t strict keys a := by
  obtain ⟨keys, primaryKey, fieldM, uniqueIndex, hkeys, hcolumns, hindexes, rfl⟩ := parseTable_iff.mp h
  obtain ⟨hknown, hlookups, hothers, hprimary⟩ := convertColumns_ok hnodup hcolumns
  have hfields := columnFields_nameOriginals hlookups fun n hn => (hothers n hn).trans (AList.lookup_empty n)
  have hname := fun n f hf => (hfields.found n f hf).2
  have hmem := mem_uniqueIndexes hindexes
  have hfieldsOf := fun x hx => uniqueIndexes_iff.mp ⟨_, hindexes⟩ x (order.mem_range.mpr hx)
  refine ⟨keys, hkeys, hknown, map_signature_filterMap hfields.named, hprimary, ?_, ?_, ?_⟩
  · intro x hx n hn
    obtain ⟨f, hf⟩ := fieldsOf_iff.mp (hfieldsOf x hx) n hn
    exact (hfields.found n f hf).1
  · intro columns hcolumns
    obtain ⟨e, he, rfl⟩ := (mem_indexColumns (Eq.refl _) columns).mp hcolumns
    obtain ⟨x, hx, -, hok⟩ := (hmem e).mp (order.mem_range.mp ((firstOfEach_sublist _ _ _).subset he))
    exact ⟨x, hx, fieldsOf_ok hname hok⟩
  · intro hinj x hx
    obtain ⟨fields, hok⟩ := hfieldsOf x hx
    refine (mem_indexColumns (Eq.refl _) _).mpr ((exists_value_firstOfEach _ _ _ ?_ _).mpr
      ⟨⟨x.1, fields⟩, order.mem_range.mpr ((hmem _).mpr ⟨x, hx, Eq.refl _, hok⟩), fieldsOf_ok hname hok⟩)
    intro e he e' he' hjoined
    obtain ⟨y, hy, -, hok⟩ := (hmem e).mp (order.mem_range.mp he)
    obtain ⟨y', hy', -, hok'⟩ := (hmem e').mp (order.mem_range.mp he')
    have hcolumns := fieldsOf_ok hname hok
    have hcolumns' := fieldsOf_ok hname hok'
    rw [joined_eq hcolumns, joined_eq hcolumns'] at hjoined
    rw [hcolumns, hcolumns', hinj y hy y' hy' hjoined]

end Goctl
end ServiceKit
