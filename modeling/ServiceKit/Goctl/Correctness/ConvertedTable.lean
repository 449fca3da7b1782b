import ServiceKit.Goctl.Correctness.DatabaseRows
import ServiceKit.Goctl.Correctness.ParsedTable

/-!
# `ConvertedTable` — the table that `ConvertDataType` makes of the rows

The fields come sorted by the position of their columns. The unique indexes are those of the table, less the one on
the primary key and the ones whose joined names were met before: which of these are met first is up to the range
(`convertDataType_startingAt`).
-/

namespace ServiceKit
namespace Goctl

open Lib Ddl Converter Goctl.Parser

variable {C : Collation} {d : TableDefinition C} {U : Unicode} {strict : Bool}

/-- The Go type that `ConvertDataType` gives a column. -/
def dbTypeOf (d : TableDefinition C) (strict : Bool) (c : Ddl.Column) : Text :=
  mayConvertNullType (byName c.dataType ((commonMysqlDataTypeMapInt c.dataType).getD []))
    (!c.declares ColumnConstraint.hasDefaultValue && !d.notNull c) c.unsigned strict

theorem dbType_of_row (U : Unicode) (strict : Bool) {c : Ddl.Column} {position : Nat} {each : InfoSchema.Column}
    (hrow : Row d c position each.toDbColumn) (hknown : Known c) :
    dbType U Env.plain strict each = .ok (dbTypeOf d strict c, [], false) := by
  obtain ⟨tp, htp⟩ := hknown
  have hdefault : each.columnDefault.isNone = !c.declares ColumnConstraint.hasDefaultValue := by
    rw [Bool.eq_iff_iff, Option.isNone_iff_eq_none, hrow.columnDefault, Bool.not_eq_true']
  have hnull : decide (each.isNullAble = "YES".toList) = !d.notNull c := by
    rw [hrow.isNullAble]
    cases d.notNull c <;> decide
  have hunsigned : c.dataType ≠ .enum → c.dataType ≠ .set →
      decide ("unsigned".toList <:+: each.columnType) = c.unsigned := by
    intro henum hset
    rw [Bool.eq_iff_iff, decide_eq_true_iff, hrow.columnType henum hset]
  rw [dbType, convertStringDataType_reported U htp hrow.dataType, hdefault, hnull, convert_unsigned htp hunsigned,
    dbTypeOf, htp]
  exact Eq.refl _

/-! ## Fields -/

/-- The fields that `getTableFields` finds for a table. -/
structure TableFields (d : TableDefinition C) (strict : Bool) (fieldM : GoMap Text Field) : Prop where
  found : ∀ n f, fieldM.lookup n = some f → ∃ e ∈ d.table.columns.zipIdx 1,
    n = e.1.name ∧ signature f = (e.1.name, dbTypeOf d strict e.1) ∧ f.ordinalPosition = e.2
  all : ∀ c ∈ d.table.columns, ∃ f, fieldM.lookup c.name = some f

theorem getTableFields_ok (U : Unicode) (strict : Bool) {columns : List InfoSchema.Column}
    (hknown : ∀ c ∈ d.table.columns, Known c)
    (hrow : ∀ each ∈ columns, ∃ e ∈ d.table.columns.zipIdx 1, Row d e.1 e.2 each.toDbColumn)
    (fieldM : GoMap Text Field) :
    ∃ fieldM', getTableFields U Env.plain strict fieldM columns = .ok fieldM' ∧
      (∀ n f, fieldM'.lookup n = some f → fieldM.lookup n = some f ∨ ∃ e ∈ d.table.columns.zipIdx 1,
        n = e.1.name ∧ signature f = (e.1.name, dbTypeOf d strict e.1) ∧ f.ordinalPosition = e.2) ∧
      (∀ n, (∃ each ∈ columns, each.name = n) ∨ (∃ f, fieldM.lookup n = some f) → ∃ f, fieldM'.lookup n = some f) := by
  induction columns generalizing fieldM with
  | nil =>
      refine ⟨fieldM, Eq.refl _, fun n f h => Or.inl h, ?_⟩
      rintro n (⟨each, heach, -⟩ | hf)
      · cases heach
      · exact hf
  | cons each columns ih =>
      obtain ⟨⟨e, he, heach⟩, hrow⟩ := List.forall_mem_cons.mp hrow
      have htype := dbType_of_row U strict heach (hknown e.1 (List.fst_mem_of_mem_zipIdx he))
      let field : Field :=
        { nameOriginal := each.name, name := each.name, thirdPkg := [], dataType := dbTypeOf d strict e.1
          comment := each.comment, seqInIndex := seqInIndexOf each, ordinalPosition := each.ordinalPosition
          containsPQ := false }
      obtain ⟨fieldM', hok, hfound, hall⟩ := ih hrow (fieldM.insert each.name field)
      refine ⟨fieldM', ?_, ?_, ?_⟩
      · rw [getTableFields, htype]
        exact hok
      · intro n f hf
        rcases hfound n f hf with hold | hnew
        · by_cases hn : n = each.name
          · subst hn
            rw [AList.lookup_insert] at hold
            obtain rfl := Option.some.inj hold
            refine Or.inr ⟨e, he, heach.name, ?_, heach.ordinalPosition⟩
            show (each.name, dbTypeOf d strict e.1) = _
            rw [heach.name]
          · rw [AList.lookup_insert_ne hn] at hold
            exact Or.inl hold
        · exact Or.inr hnew
      · intro n hn
        by_cases hname : n = each.name
        · subst hname
          exact hall _ (Or.inr ⟨field, AList.lookup_insert _⟩)
        · refine hall n ?_
          rcases hn with ⟨each', heach', hn⟩ | ⟨f, hf⟩
          · rcases List.mem_cons.mp heach' with rfl | heach'
            · exact absurd hn.symm hname
            · exact Or.inl ⟨each', heach', hn⟩
          · exact Or.inr ⟨f, by rw [AList.lookup_insert_ne hname, hf]⟩

/-- A field with its position, and a column with its position. -/
def placed (f : Field) : (Text × Text) × Nat := (signature f, f.ordinalPosition)

def place (d : TableDefinition C) (strict : Bool) (e : Ddl.Column × Nat) : (Text × Text) × Nat :=
  ((e.1.name, dbTypeOf d strict e.1), e.2)

section Fields

variable {fieldM : GoMap Text Field} (h : TableFields d strict fieldM) (order : RangeOrder Text)
include h

theorem TableFields.place_of_mem {e : Entry Text Field} (he : e ∈ order.range fieldM) :
    ∃ c ∈ d.table.columns.zipIdx 1, e.1 = c.1.name ∧ placed e.2 = place d strict c := by
  obtain ⟨c, hc, hn, hsignature, hposition⟩ :=
    h.found e.1 e.2 (Option.mem_def.mp (AList.mem_lookup_iff.mpr (order.mem_range.mp he)))
  exact ⟨c, hc, hn, Prod.ext hsignature hposition⟩

theorem TableFields.nodup_placed : (((order.range fieldM).map Sigma.snd).map placed).Nodup := by
  refine List.Nodup.of_map (fun x : (Text × Text) × Nat => x.1.1) ?_
  rw [List.map_map, List.map_map]
  have hkeys : (order.range fieldM).map (((fun x : (Text × Text) × Nat => x.1.1) ∘ placed) ∘ Sigma.snd) =
      (order.range fieldM).map Sigma.fst := by
    refine List.map_congr_left fun e he => ?_
    obtain ⟨c, -, hn, hplace⟩ := h.place_of_mem order he
    rw [hn]
    exact congrArg (fun x : (Text × Text) × Nat => x.1.1) hplace
  rw [hkeys]
  exact order.nodup_keys fieldM

omit h in
theorem nodup_place : ((d.table.columns.zipIdx 1).map (place d strict)).Nodup := by
  refine List.Nodup.of_map (fun x : (Text × Text) × Nat => x.1.1) ?_
  rw [List.map_map]
  show ((d.table.columns.zipIdx 1).map fun e => e.1.name).Nodup
  rw [map_zipIdx_name]
  exact d.nodup_names

theorem TableFields.perm_place : (((order.range fieldM).map Sigma.snd).map placed).Perm
    ((d.table.columns.zipIdx 1).map (place d strict)) := by
  refine (List.perm_ext_iff_of_nodup (h.nodup_placed order) nodup_place).mpr fun x => ?_
  simp only [List.mem_map]
  constructor
  · rintro ⟨f, ⟨e, he, rfl⟩, rfl⟩
    obtain ⟨c, hc, -, hplace⟩ := h.place_of_mem order he
    exact ⟨c, hc, hplace.symm⟩
  · rintro ⟨c, hc, rfl⟩
    obtain ⟨f, hf⟩ := h.all c.1 (List.fst_mem_of_mem_zipIdx hc)
    have he : ⟨c.1.name, f⟩ ∈ order.range fieldM := order.mem_range.mpr (AList.mem_lookup_iff.mp hf)
    obtain ⟨c', hc', hn, hplace⟩ := h.place_of_mem order he
    have hnames : ((d.table.columns.zipIdx 1).map fun e => e.1.name).Nodup := by
      rw [map_zipIdx_name]
      exact d.nodup_names
    have hsame : c' = c := List.inj_on_of_nodup_map hnames hc' hc hn.symm
    exact ⟨f, ⟨⟨c.1.name, f⟩, he, Eq.refl _⟩, by rw [hplace, hsame]⟩

omit h in
theorem pairwise_zipIdx_snd {α : Type} (xs : List α) (n : Nat) :
    (xs.zipIdx n).Pairwise (fun x y => x.2 < y.2) := by
  have hrange := List.pairwise_lt_range' (s := n) (n := xs.length)
  rw [← List.zipIdx_map_snd n xs, List.pairwise_map] at hrange
  exact hrange

/-- The fields of a table, sorted by their positions, are its columns in their order. -/
theorem map_signature_slice (sort : SortSlice) :
    (sort.slice fieldLess ((order.range fieldM).map Sigma.snd)).map signature =
      d.table.columns.map fun c => (c.name, dbTypeOf d strict c) := by
  have hranks : ((d.table.columns.zipIdx 1).map (place d strict)).Pairwise (fun x y => x.2 < y.2) :=
    List.pairwise_map.mpr (pairwise_zipIdx_snd d.table.columns 1)
  have hsorted := sort.map_slice_eq fieldLess placed Prod.snd (fun x _ y _ => Eq.refl _) (h.perm_place order) hranks
  have hboth := congrArg (List.map Prod.fst) hsorted
  rw [List.map_map, List.map_map] at hboth
  have hfst : Prod.fst ∘ place d strict = (fun c : Ddl.Column => (c.name, dbTypeOf d strict c)) ∘ Prod.fst := Eq.refl _
  show (sort.slice fieldLess ((order.range fieldM).map Sigma.snd)).map (Prod.fst ∘ placed) = _
  rw [hboth, hfst, ← List.map_map, List.zipIdx_map_fst]

end Fields

/-! ## Unique indexes -/

/-- The columns of an index, in its order. -/
def sortedNames (sort : SortSlice) (e : Entry Text (List InfoSchema.Column)) : List Text :=
  (sort.slice seqLess e.2).map fun each => each.name

theorem mem_convertIndexes {sort : SortSlice} {primaryName : Text} {fieldM : GoMap Text Field}
    {uniqueIndex : GoMap Text (List (Option Field))} {seen : Finset Text}
    {es : List (Entry Text (List InfoSchema.Column))} (hnodup : (es.map Sigma.fst).Nodup)
    (hnew : ∀ x ∈ es, ∀ e ∈ uniqueIndex.entries, e.1 ≠ x.1) {e : Entry Text (List (Option Field))} :
    e ∈ (convertIndexes sort primaryName fieldM uniqueIndex seen es).entries ↔ e ∈ uniqueIndex.entries ∨
      ∃ x ∈ firstOfEach (fun x => [','].intercalate (sortedNames sort x)) seen
        (es.filter fun x => sortedNames sort x ≠ [primaryName]),
        e = ⟨x.1, (sortedNames sort x).map fieldM.lookup⟩ := by
  induction es generalizing uniqueIndex seen with
  | nil => simp [convertIndexes, firstOfEach]
  | cons x es ih =>
      obtain ⟨hx, hnodup⟩ := List.nodup_cons.mp hnodup
      obtain ⟨hhead, hnew⟩ := List.forall_mem_cons.mp hnew
      have hprimary : ((sort.slice seqLess x.2).length = 1 ∧ ∀ one ∈ sort.slice seqLess x.2, one.name = primaryName) ↔
          sortedNames sort x = [primaryName] := by
        unfold sortedNames
        cases sort.slice seqLess x.2 with
        | nil => simp
        | cons one rest =>
            cases rest with
            | nil => simp
            | cons two rest => simp
      simp only [convertIndexes, hprimary]
      by_cases hskip : sortedNames sort x = [primaryName]
      · rw [if_pos hskip, List.filter_cons_of_neg (by simpa using hskip)]
        exact ih hnodup hnew
      · rw [if_neg hskip, List.filter_cons_of_pos (by simpa using hskip), firstOfEach]
        show e ∈ AList.entries (if [','].intercalate (sortedNames sort x) ∈ seen then _ else _) ↔ _
        split
        · exact ih hnodup hnew
        · rw [ih hnodup, mem_entries_insert]
          · have hvalue : (sort.slice seqLess x.2).map (fun c => fieldM.lookup c.name) =
                (sortedNames sort x).map fieldM.lookup := by
              rw [sortedNames, List.map_map]
              exact Eq.refl _
            rw [hvalue, List.exists_mem_cons_iff, or_assoc]
            constructor
            · rintro (he | he | he)
              · exact Or.inr (Or.inl he)
              · exact Or.inl he.2
              · exact Or.inr (Or.inr he)
            · rintro (he | he | he)
              · exact Or.inr (Or.inl ⟨hhead e he, he⟩)
              · exact Or.inl he
              · exact Or.inr (Or.inr he)
          · intro y hy e he
            rcases mem_entries_insert.mp he with rfl | ⟨-, he⟩
            · exact fun heq => hx (heq ▸ List.mem_map.mpr ⟨y, hy, Eq.refl _⟩)
            · exact hnew y hy e he

/-- The entry of an index, as `Convert` files it, has the columns of the index. -/
theorem sortedNames_eq {indexes : List Index} {table : InfoSchema.Table} (h : Filed d indexes table)
    (sort : SortSlice) {ix : Index} (hix : ix ∈ indexes) :
    sortedNames sort ⟨ix.name, table.columns.filter fun each => InfoSchema.indexNameOf each = some ix.name⟩ =
      ix.columns := by
  have hsorted := sort.map_slice_eq seqLess part Prod.snd ?_ (h.listed.index ix hix) (pairwise_zipIdx_snd ix.columns 1)
  · have hnames := congrArg (List.map Prod.fst) hsorted
    rw [List.map_map, List.zipIdx_map_fst] at hnames
    exact hnames
  · intro x hx y hy
    obtain ⟨i, hi, -⟩ := Option.map_eq_some_iff.mp (of_decide_eq_true (List.mem_filter.mp hx).2)
    obtain ⟨j, hj, -⟩ := Option.map_eq_some_iff.mp (of_decide_eq_true (List.mem_filter.mp hy).2)
    simp [seqLess, part, seqInIndexOf, hi, hj]

/-- The entries of `UniqueIndex` are the unique indexes of the table. -/
theorem sortedNames_mem {indexes : List Index} {table : InfoSchema.Table} (hindexes : Indexes d indexes)
    (h : Filed d indexes table) (sort : SortSlice) {e : Entry Text (List InfoSchema.Column)}
    (he : e ∈ table.uniqueIndex.entries) : sortedNames sort e ∈ d.uniqueIndexes := by
  obtain ⟨ix, hix, hname, rfl⟩ := (h.unique e).mp he
  rw [sortedNames_eq h sort hix]
  exact hindexes.unique ix hix hname

theorem exists_sortedNames {indexes : List Index} {table : InfoSchema.Table} (hindexes : Indexes d indexes)
    (h : Filed d indexes table) (sort : SortSlice) {key : List Text} (hkey : key ∈ d.uniqueIndexes) :
    ∃ e ∈ table.uniqueIndex.entries, sortedNames sort e = key := by
  obtain ⟨ix, hix, hname, rfl⟩ := hindexes.complete key hkey
  exact ⟨_, (h.unique _).mpr ⟨ix, hix, hname, Eq.refl _⟩, sortedNames_eq h sort hix⟩

/-! ## The table -/

/-- The indexes that `ConvertDataType` keeps, in the order of the range. -/
def keptIndexes (sort : SortSlice) (order : RangeOrder Text) (primaryName : Text) (table : InfoSchema.Table) :
    List (Entry Text (List InfoSchema.Column)) :=
  firstOfEach (fun x => [','].intercalate (sortedNames sort x)) ∅
    ((order.range table.uniqueIndex).filter fun x => sortedNames sort x ≠ [primaryName])

theorem mem_keptIndexes {indexes : List Index} {table : InfoSchema.Table} (hindexes : Indexes d indexes)
    (h : Filed d indexes table) {sort : SortSlice} {order : RangeOrder Text} {x : Entry Text (List InfoSchema.Column)}
    (hx : x ∈ keptIndexes sort order d.primaryKey table) :
    sortedNames sort x ∈ d.uniqueIndexes ∧ sortedNames sort x ≠ [d.primaryKey] := by
  obtain ⟨hrange, hne⟩ := List.mem_filter.mp ((firstOfEach_sublist _ _ _).subset hx)
  exact ⟨sortedNames_mem hindexes h sort (order.mem_range.mp hrange), of_decide_eq_true hne⟩

/-- The fields of an index are found under the names of its columns. -/
theorem TableFields.map_name_lookup {fieldM : GoMap Text Field} (h : TableFields d strict fieldM) {key : List Text}
    (hkey : ∀ n ∈ key, n ∈ d.table.columns.map Ddl.Column.name) :
    (key.map fieldM.lookup).map (Option.map Field.name) = key.map some := by
  rw [List.map_map]
  refine List.map_congr_left fun n hn => ?_
  obtain ⟨c, hc, rfl⟩ := List.mem_map.mp (hkey n hn)
  obtain ⟨f, hf⟩ := h.all c hc
  obtain ⟨e, -, hname, hsignature, -⟩ := h.found c.name f hf
  show (fieldM.lookup c.name).map Field.name = some c.name
  rw [hf, Option.map_some]
  exact congrArg some ((congrArg Prod.fst hsignature).trans hname.symm)

/-- The fields and the primary key of the table that `ConvertDataType` makes. -/
structure ConvertedFields (d : TableDefinition C) (strict : Bool) (b : Parser.Table) : Prop where
  fields : b.fields.map signature = d.table.columns.map fun c => (c.name, dbTypeOf d strict c)
  primary : ∀ c ∈ d.table.columns, c.name = d.primaryKey →
    signature b.primaryKey.toField = (c.name, dbTypeOf d strict c) ∧
      b.primaryKey.autoIncrement = c.declares ColumnConstraint.autoIncrement

theorem convertDataType_ok (U : Unicode) (strict : Bool) {indexes : List Index} {table : InfoSchema.Table}
    (hindexes : Indexes d indexes)
    (h : Filed d indexes table) (hknown : ∀ c ∈ d.table.columns, Known c) (sort : SortSlice)
    (order : RangeOrder Text) :
    ∃ b, Parser.convertDataType U Env.plain sort order table strict = .ok b ∧ ConvertedFields d strict b ∧
      ∀ columns, columns ∈ indexColumns b ↔
        ∃ x ∈ keptIndexes sort order d.primaryKey table, columns = (sortedNames sort x).map some := by
  obtain ⟨fieldM, hfieldM, hfound, hall⟩ := getTableFields_ok U strict hknown h.listed.row ∅
  have hfields : TableFields d strict fieldM := by
    refine ⟨fun n f hf => (hfound n f hf).resolve_left (by simp), fun c hc => hall c.name (Or.inl ?_)⟩
    exact h.listed.column c hc
  obtain ⟨e, he, hrow⟩ := h.listed.row table.primaryKey h.primary_mem
  have he₁ := List.fst_mem_of_mem_zipIdx he
  have hprimary := dbType_of_row U strict hrow (hknown e.1 he₁)
  refine ⟨_, by rw [Parser.convertDataType, hprimary, hfieldM]; exact Eq.refl _, ⟨?_, ?_⟩, ?_⟩
  · exact map_signature_slice hfields order sort
  · intro c hc hname
    have hsame : e.1 = c := by
      refine List.inj_on_of_nodup_map d.nodup_names he₁ hc ?_
      rw [← hrow.name, h.primary_name, hname]
    refine ⟨?_, ?_⟩
    · show (table.primaryKey.name, dbTypeOf d strict e.1) = _
      rw [hrow.name, hsame]
    · show decide ("auto_increment".toList <:+: table.primaryKey.extra) = _
      rw [Bool.eq_iff_iff, decide_eq_true_iff, hrow.extra, hsame]
  · intro columns
    have hempty : ∀ x ∈ order.range table.uniqueIndex, ∀ e ∈ (∅ : GoMap Text (List (Option Field))).entries,
        e.1 ≠ x.1 := fun _ _ _ he => absurd he List.not_mem_nil
    have hlookup : ∀ x ∈ keptIndexes sort order d.primaryKey table,
        ((sortedNames sort x).map fieldM.lookup).map (Option.map Field.name) = (sortedNames sort x).map some :=
      fun x hx => hfields.map_name_lookup
        (TableDefinition.mem_names_of_uniqueIndexes (mem_keptIndexes hindexes h hx).1)
    show columns ∈ (convertIndexes sort table.primaryKey.name fieldM ∅ ∅ (order.range table.uniqueIndex)).entries.map
      _ ↔ _
    rw [h.primary_name, List.mem_map]
    constructor
    · rintro ⟨e, he, rfl⟩
      rcases (mem_convertIndexes (order.nodup_keys _) hempty).mp he with he | ⟨x, hx, rfl⟩
      · exact absurd he List.not_mem_nil
      · exact ⟨x, hx, hlookup x hx⟩
    · rintro ⟨x, hx, rfl⟩
      exact ⟨_, (mem_convertIndexes (order.nodup_keys _) hempty).mpr (Or.inr ⟨x, hx, Eq.refl _⟩), hlookup x hx⟩

/-- `b` is what goctl makes of the rows that the database has on a table. -/
def ConvertsTo (U : Unicode) (sort : SortSlice) (order order' : RangeOrder Text) (conn : InfoSchema.Conn)
    (db table : Text) (strict : Bool) (b : Parser.Table) : Prop :=
  ∃ data filed, InfoSchema.findColumns sort conn db table = .ok data ∧ data.convert order = .ok filed ∧
    Parser.convertDataType U Env.plain sort order' filed strict = .ok b

/-- `FindColumns` and `Convert` find the indexes of the table, whatever the orders. -/
theorem filed_of_describes {rows : Rows} (h : Describes d rows) :
    ∃ indexes, Indexes d indexes ∧ ∀ sort order db table, ∃ data filed,
      InfoSchema.findColumns sort rows.conn db table = .ok data ∧ data.convert order = .ok filed ∧
        Filed d indexes filed := by
  obtain ⟨indexes, hindexes, hlisted⟩ := listed_of_describes h
  refine ⟨indexes, hindexes, fun sort order db table => ?_⟩
  obtain ⟨filed, hfiled, hok⟩ := convert_ok ⟨db, table, sort.slice InfoSchema.positionLess
    (rows.columns.flatMap (listedOf rows))⟩ hindexes (hlisted _ (sort.perm _ _)) order
  exact ⟨_, filed, findColumns_ok sort rows db table, hfiled, hok⟩

/-- The table that goctl makes of the rows. -/
structure Converted (d : TableDefinition C) (strict : Bool) (b : Parser.Table) : Prop
    extends ConvertedFields d strict b where
  indexes : ∀ columns ∈ indexColumns b, ∃ key ∈ d.uniqueIndexes, key ≠ [d.primaryKey] ∧ columns = key.map some
  /-- No index is lost where the joined names tell the indexes apart. -/
  complete : (∀ key ∈ d.uniqueIndexes, ∀ other ∈ d.uniqueIndexes, key ≠ [d.primaryKey] → other ≠ [d.primaryKey] →
      [','].intercalate key = [','].intercalate other → key = other) →
    ∀ key ∈ d.uniqueIndexes, key ≠ [d.primaryKey] → key.map some ∈ indexColumns b

section ConvertsTo

variable {rows : Rows} (h : Describes d rows) (hknown : ∀ c ∈ d.table.columns, Known c)
include h hknown

/-- Some table is made, whatever the orders. -/
theorem exists_convertsTo (U : Unicode) (strict : Bool) (sort : SortSlice) (order order' : RangeOrder Text)
    (db table : Text) :
    ∃ b, ConvertsTo U sort order order' rows.conn db table strict b := by
  obtain ⟨indexes, hindexes, hfiled⟩ := filed_of_describes h
  obtain ⟨data, filed, hdata, hconvert, hfiled⟩ := hfiled sort order db table
  obtain ⟨b, hb, -, -⟩ := convertDataType_ok U strict hindexes hfiled hknown sort order'
  exact ⟨b, data, filed, hdata, hconvert, hb⟩

theorem converted_of_convertsTo {sort : SortSlice} {order order' : RangeOrder Text} {db table : Text}
    {b : Parser.Table} (hb : ConvertsTo U sort order order' rows.conn db table strict b) : Converted d strict b := by
  obtain ⟨indexes, hindexes, hfiled⟩ := filed_of_describes h
  obtain ⟨data, filed, hdata, hconvert, hfiled⟩ := hfiled sort order db table
  obtain ⟨data', filed', hdata', hconvert', hb⟩ := hb
  obtain rfl := Except.ok.inj (hdata.symm.trans hdata')
  obtain rfl := Except.ok.inj (hconvert.symm.trans hconvert')
  obtain ⟨b', hb', hfields, hcolumns⟩ :=
    convertDataType_ok U strict hindexes hfiled hknown sort order'
  obtain rfl := Except.ok.inj (hb'.symm.trans hb)
  refine ⟨hfields, ?_, ?_⟩
  · intro columns hmem
    obtain ⟨x, hx, rfl⟩ := (hcolumns columns).mp hmem
    obtain ⟨hkey, hne⟩ := mem_keptIndexes hindexes hfiled hx
    exact ⟨sortedNames sort x, hkey, hne, Eq.refl _⟩
  · intro hinj key hkey hne
    obtain ⟨e, he, rfl⟩ := exists_sortedNames hindexes hfiled sort hkey
    have hall : ∀ x ∈ (order'.range filed.uniqueIndex).filter (fun x => sortedNames sort x ≠ [d.primaryKey]),
        sortedNames sort x ∈ d.uniqueIndexes ∧ sortedNames sort x ≠ [d.primaryKey] := by
      intro x hx
      obtain ⟨hrange, hne⟩ := List.mem_filter.mp hx
      exact ⟨sortedNames_mem hindexes hfiled sort (order'.mem_range.mp hrange), of_decide_eq_true hne⟩
    obtain ⟨x, hx, hvalue⟩ := (exists_value_firstOfEach (fun x => [','].intercalate (sortedNames sort x))
      (sortedNames sort) _ (fun x hx y hy hjoined => hinj _ (hall x hx).1 _ (hall y hy).1 (hall x hx).2 (hall y hy).2
        hjoined) (sortedNames sort e)).mpr
        ⟨e, List.mem_filter.mpr ⟨order'.mem_range.mpr he, decide_eq_true hne⟩, Eq.refl _⟩
    exact (hcolumns _).mpr ⟨x, hx, by rw [hvalue]⟩

/-- When the range starts at an index, that index is kept, and none that has the same joined name. -/
theorem convertsTo_startingAt (sort : SortSlice) (order : RangeOrder Text) (db table : Text) {key : List Text}
    (hkey : key ∈ d.uniqueIndexes) (hne : key ≠ [d.primaryKey]) :
    ∃ order' b, ConvertsTo U sort order order' rows.conn db table strict b ∧ key.map some ∈ indexColumns b ∧
      ∀ other : List Text, [','].intercalate other = [','].intercalate key → other.map some ∈ indexColumns b →
        other = key := by
  obtain ⟨indexes, hindexes, hfiled⟩ := filed_of_describes h
  obtain ⟨data, filed, hdata, hconvert, hfiled⟩ := hfiled sort order db table
  obtain ⟨e, he, rfl⟩ := exists_sortedNames hindexes hfiled sort hkey
  obtain ⟨rest, hrange⟩ := RangeOrder.range_startingAt he
  obtain ⟨b, hb, -, hcolumns⟩ := convertDataType_ok U strict hindexes hfiled hknown sort
    (RangeOrder.startingAt e.1)
  have hkept : keptIndexes sort (RangeOrder.startingAt e.1) d.primaryKey filed =
      firstOfEach (fun x => [','].intercalate (sortedNames sort x)) ∅
        (e :: rest.filter fun x => sortedNames sort x ≠ [d.primaryKey]) := by
    rw [keptIndexes, hrange]
    exact congrArg (firstOfEach _ ∅) (List.filter_cons_of_pos (decide_eq_true hne))
  refine ⟨RangeOrder.startingAt e.1, b, ⟨data, filed, hdata, hconvert, hb⟩, ?_, ?_⟩
  · exact (hcolumns _).mpr ⟨e, hkept ▸ mem_firstOfEach_cons _ e _, Eq.refl _⟩
  · intro other hjoined hother
    obtain ⟨x, hx, hnames⟩ := (hcolumns _).mp hother
    have hnames : other = sortedNames sort x := List.map_injective_iff.mpr (Option.some_injective _) hnames
    rw [hkept] at hx
    have hsame := eq_of_mem_firstOfEach_cons _ hx (by rw [← hnames]; exact hjoined)
    rw [hnames, hsame]

end ConvertsTo

end Goctl
end ServiceKit
