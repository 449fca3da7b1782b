import ServiceKit.Goctl.Correctness.DataTypes
import ServiceKit.Goctl.Correctness.Keys

/-!
# `DatabaseRows` — what `FindColumns` and `Convert` make of the rows of a table

`FindColumns` lists a column once for each index on it. Filed by the name of the index, the columns of a unique index
come back complete (`Listed`), and `Convert` finds the one column of the primary key and the other unique indexes
(`Filed`).
-/

namespace ServiceKit
namespace Goctl

open Lib Ddl InfoSchema

variable {C : Collation}

/-- The name of a column, and its place in the index that it is listed for. -/
def part (each : InfoSchema.Column) : Text × Nat := (each.name, Parser.seqInIndexOf each)

/-- The columns that are listed for a table. -/
structure Listed (d : TableDefinition C) (indexes : List Index) (columns : List InfoSchema.Column) : Prop where
  row : ∀ each ∈ columns, ∃ e ∈ d.table.columns.zipIdx 1, Row d e.1 e.2 each.toDbColumn
  column : ∀ c ∈ d.table.columns, ∃ each ∈ columns, each.name = c.name
  index : ∀ ix ∈ indexes,
    ((columns.filter fun each => indexNameOf each = some ix.name).map part).Perm (ix.columns.zipIdx 1)
  unique : ∀ each ∈ columns, ∀ i, each.index = some i →
    (i.nonUnique = 0 ↔ i.indexName ∈ indexes.map Index.name)

/-! ## Listing -/

/-- What is listed for one row. -/
def listedOf (rows : Rows) (item : DbColumn) : List InfoSchema.Column :=
  match (rows.statistics.filter fun s => s.1 = item.name).map Prod.snd with
  | [] => [⟨item, none⟩]
  | index => index.map fun i => ⟨item, some i⟩

theorem listed_eq (rows : Rows) (db table : Text) (item : DbColumn) :
    listed rows.conn db table item = .ok (listedOf rows item) := by
  simp only [listed, Rows.conn, listedOf]
  cases (rows.statistics.filter fun s => s.1 = item.name).map Prod.snd <;> exact Eq.refl _

theorem mapM_listed (rows : Rows) (db table : Text) (items : List DbColumn) :
    items.mapM (listed rows.conn db table) = .ok (items.map (listedOf rows)) := by
  induction items with
  | nil => exact Eq.refl _
  | cons item items ih => rw [List.mapM_cons, listed_eq, ih]; exact Eq.refl _

theorem findColumns_ok (sort : SortSlice) (rows : Rows) (db table : Text) :
    findColumns sort rows.conn db table =
      .ok ⟨db, table, sort.slice positionLess (rows.columns.flatMap (listedOf rows))⟩ := by
  show (do
    let list ← rows.columns.mapM (listed rows.conn db table)
    Except.ok (⟨db, table, sort.slice positionLess list.flatten⟩ : ColumnData)) = _
  rw [mapM_listed, List.flatMap_def]
  exact Eq.refl _

theorem mem_listedOf {rows : Rows} {item : DbColumn} {each : InfoSchema.Column} (h : each ∈ listedOf rows item) :
    each.toDbColumn = item ∧ ∀ i, each.index = some i → (item.name, i) ∈ rows.statistics := by
  unfold listedOf at h
  split at h
  · obtain rfl := List.mem_singleton.mp h
    exact ⟨Eq.refl _, fun i hi => by cases hi⟩
  · obtain ⟨i, hi, rfl⟩ := List.mem_map.mp h
    obtain ⟨s, hs, rfl⟩ := List.mem_map.mp hi
    obtain ⟨hmem, hname⟩ := List.mem_filter.mp hs
    refine ⟨Eq.refl _, fun j hj => ?_⟩
    obtain rfl := Option.some.inj hj
    rw [← of_decide_eq_true hname]
    exact hmem

theorem listedOf_ne_nil (rows : Rows) (item : DbColumn) : listedOf rows item ≠ [] := by
  unfold listedOf
  split
  · exact List.cons_ne_nil _ []
  · next hne => exact fun h => hne (List.map_eq_nil_iff.mp h)

/-- The columns that one row is listed as, for an index. -/
theorem filter_listedOf (rows : Rows) (item : DbColumn) (n : Text) :
    ((listedOf rows item).filter fun each => indexNameOf each = some n).map part =
      ((rows.statistics.filter fun s => s.2.indexName = n).filter fun s => s.1 = item.name).map
        fun s => (s.1, s.2.seqInIndex) := by
  have hcommon : ((rows.statistics.filter fun s => s.2.indexName = n).filter fun s => s.1 = item.name) =
      (rows.statistics.filter fun s => s.1 = item.name).filter fun s => s.2.indexName = n := by
    rw [List.filter_filter, List.filter_filter]
    exact List.filter_congr fun s _ => Bool.and_comm _ _
  rw [hcommon]
  have hnames : ∀ s ∈ rows.statistics.filter fun s => s.1 = item.name, s.1 = item.name :=
    fun s hs => of_decide_eq_true (List.mem_filter.mp hs).2
  unfold listedOf
  generalize rows.statistics.filter (fun s => s.1 = item.name) = statistics at hnames
  cases statistics with
  | nil => simp [indexNameOf]
  | cons s statistics =>
      show ((((s :: statistics).map Prod.snd).map fun i => (⟨item, some i⟩ : InfoSchema.Column)).filter _).map part = _
      rw [List.map_map, List.filter_map, List.map_map]
      refine (List.map_congr_left fun e he => ?_).trans (congrArg (List.map _) (List.filter_congr fun e _ => ?_))
      · show (item.name, e.2.seqInIndex) = (e.1, e.2.seqInIndex)
        rw [hnames e (List.mem_filter.mp he).1]
      · simp [indexNameOf]

/-! ## The rows of a table -/

theorem map_eq_map_of_forall₂ {α β γ : Type} {R : α → β → Prop} {f : α → γ} {g : β → γ}
    (hR : ∀ x y, R x y → f x = g y) {xs : List α} {ys : List β} (h : List.Forall₂ R xs ys) : xs.map f = ys.map g := by
  induction h with
  | nil => exact Eq.refl _
  | cons hxy _ ih => rw [List.map_cons, List.map_cons, hR _ _ hxy, ih]

theorem map_zipIdx_name (columns : List Ddl.Column) (n : Nat) :
    (columns.zipIdx n).map (fun e => e.1.name) = columns.map Ddl.Column.name := by
  have hcomp : (fun e : Ddl.Column × Nat => e.1.name) = Ddl.Column.name ∘ Prod.fst := Eq.refl _
  rw [hcomp, ← List.map_map, List.zipIdx_map_fst]

variable {d : TableDefinition C} {rows : Rows}

theorem map_name_of_describes (h : Describes d rows) :
    (rows.columns.map DbColumn.name).Perm (d.table.columns.map Ddl.Column.name) := by
  obtain ⟨list, hperm, hrows⟩ := h.columns
  refine (hperm.map DbColumn.name).trans (List.Perm.of_eq ?_)
  rw [← map_zipIdx_name d.table.columns 1]
  exact (map_eq_map_of_forall₂ (fun e row hrow => hrow.name.symm) hrows).symm

theorem TableDefinition.mem_names_of_resolve {written name : Text} (h : resolve C d.table written = some name) :
    name ∈ d.table.columns.map Ddl.Column.name := by
  obtain ⟨c, hc, -, hname⟩ := d.resolve_eq_some.mp h
  exact List.mem_map.mpr ⟨c, hc, hname⟩

theorem TableDefinition.mem_names_of_uniqueIndexes {key : List Text} (h : key ∈ d.uniqueIndexes) :
    ∀ n ∈ key, n ∈ d.table.columns.map Ddl.Column.name := by
  intro n hn
  obtain ⟨written, -, rfl⟩ := List.mem_map.mp h
  obtain ⟨w, -, hw⟩ := List.mem_filterMap.mp hn
  exact TableDefinition.mem_names_of_resolve hw

/-- The columns of an index are columns of the table. -/
theorem Indexes.columns_mem {indexes : List Index} (h : Indexes d indexes) {ix : Index} (hix : ix ∈ indexes) :
    ∀ n ∈ ix.columns, n ∈ d.table.columns.map Ddl.Column.name := by
  by_cases hname : ix.name = indexPri
  · have hprimary : ix = ⟨indexPri, [d.primaryKey]⟩ :=
      List.inj_on_of_nodup_map h.names hix h.primary hname
    intro n hn
    rw [hprimary] at hn
    obtain rfl := List.mem_singleton.mp hn
    obtain ⟨c, hc, hc'⟩ := d.exists_primary
    exact List.mem_map.mpr ⟨c, hc, hc'⟩
  · exact TableDefinition.mem_names_of_uniqueIndexes (h.unique ix hix hname)

/-- An index that is unique has its own rows, and no others. -/
theorem filter_statistics {indexes : List Index} (hnodup : (indexes.map Index.name).Nodup) {ix : Index}
    (hix : ix ∈ indexes) :
    ((indexes.flatMap Index.statistics).filter fun s => s.2.indexName = ix.name) = ix.statistics := by
  have hnames : ∀ iy : Index, ∀ s ∈ iy.statistics, s.2.indexName = iy.name := by
    intro iy s hs
    obtain ⟨e, -, rfl⟩ := List.mem_map.mp hs
    exact Eq.refl _
  induction indexes with
  | nil => cases hix
  | cons iy indexes ih =>
      obtain ⟨hiy, hnodup⟩ := List.nodup_cons.mp hnodup
      rw [List.flatMap_cons, List.filter_append]
      rcases List.mem_cons.mp hix with rfl | hix
      · have hrest : (indexes.flatMap Index.statistics).filter (fun s => s.2.indexName = ix.name) = [] := by
          refine List.filter_eq_nil_iff.mpr fun s hs heq => hiy ?_
          obtain ⟨iz, hiz, hmem⟩ := List.mem_flatMap.mp hs
          exact List.mem_map.mpr ⟨iz, hiz, (hnames iz s hmem).symm.trans (of_decide_eq_true heq)⟩
        have hown : ix.statistics.filter (fun s => s.2.indexName = ix.name) = ix.statistics :=
          List.filter_eq_self.mpr fun s hs => decide_eq_true (hnames ix s hs)
        rw [hrest, hown, List.append_nil]
      · have hother : iy.statistics.filter (fun s => s.2.indexName = ix.name) = [] := by
          refine List.filter_eq_nil_iff.mpr fun s hs heq => hiy ?_
          exact List.mem_map.mpr ⟨ix, hix, (of_decide_eq_true heq).symm.trans (hnames iy s hs)⟩
        rw [hother, List.nil_append, ih hnodup hix]

theorem Describes.row_of_mem (h : Describes d rows) {item : DbColumn} (hitem : item ∈ rows.columns) :
    ∃ e ∈ d.table.columns.zipIdx 1, Row d e.1 e.2 item := by
  obtain ⟨list, hperm, hrows⟩ := h.columns
  exact exists_mem_left hrows item (hperm.mem_iff.mp hitem)

/-- The comment of a column is no part of what describes it. -/
theorem Row.trimComment {c : Ddl.Column} {position : Nat} {each : InfoSchema.Column}
    (h : Row d c position each.toDbColumn) : Row d c position (trimComment each).toDbColumn :=
  ⟨h.name, h.dataType, h.columnType, h.extra, h.columnDefault, h.isNullAble, h.ordinalPosition⟩

/-! ## The rows of an index -/

section OfIndex

variable {indexes : List Index} {others : List (Text × DbIndex)} (hindexes : Indexes d indexes)
  (hothers : ∀ s ∈ others, s.2.nonUnique ≠ 0 ∧ s.2.indexName ∉ indexes.map Index.name)
  (hstatistics : rows.statistics.Perm (indexes.flatMap Index.statistics ++ others))
include hindexes hothers hstatistics

theorem statistics_of_index {ix : Index} (hix : ix ∈ indexes) :
    (rows.statistics.filter fun s => s.2.indexName = ix.name).Perm ix.statistics := by
  have hnone : others.filter (fun s => s.2.indexName = ix.name) = [] := by
    refine List.filter_eq_nil_iff.mpr fun s hs heq => (hothers s hs).2 ?_
    rw [of_decide_eq_true heq]
    exact List.mem_map.mpr ⟨ix, hix, Eq.refl _⟩
  have hall := hstatistics.filter fun s => s.2.indexName = ix.name
  rw [List.filter_append, hnone, List.append_nil, filter_statistics hindexes.names hix] at hall
  exact hall

/-- The columns that are listed for an index are those of the index, each with its place. -/
theorem parts_of_index (hnames : (rows.columns.map DbColumn.name).Perm (d.table.columns.map Ddl.Column.name))
    {ix : Index} (hix : ix ∈ indexes) :
    (((rows.columns.flatMap (listedOf rows)).filter fun each => indexNameOf each = some ix.name).map part).Perm
      (ix.columns.zipIdx 1) := by
  have hown := statistics_of_index hindexes hothers hstatistics hix
  have hjoined : (rows.columns.flatMap fun item =>
      (rows.statistics.filter fun s => s.2.indexName = ix.name).filter fun s => s.1 = item.name).Perm
      (rows.statistics.filter fun s => s.2.indexName = ix.name) := by
    refine flatMap_filter_perm DbColumn.name Prod.fst (hnames.nodup_iff.mpr d.nodup_names) fun s hs => ?_
    obtain ⟨e, he, rfl⟩ := List.mem_map.mp (hown.mem_iff.mp hs)
    exact hnames.mem_iff.mpr (hindexes.columns_mem hix e.1 (List.fst_mem_of_mem_zipIdx he))
  have hplaces : ix.statistics.map (fun s => (s.1, s.2.seqInIndex)) = ix.columns.zipIdx 1 := by
    rw [Index.statistics, List.map_map]
    exact List.map_id _
  rw [List.filter_flatMap, List.map_flatMap, ← hplaces]
  have hparts := (hjoined.trans hown).map fun s => (s.1, s.2.seqInIndex)
  rw [List.map_flatMap] at hparts
  exact (List.Perm.of_eq (List.flatMap_congr fun item _ => filter_listedOf rows item ix.name)).trans hparts

omit hindexes in
/-- The rows that are not unique are not of the indexes. -/
theorem nonUnique_iff {name : Text} {i : DbIndex} (h : (name, i) ∈ rows.statistics) :
    i.nonUnique = 0 ↔ i.indexName ∈ indexes.map Index.name := by
  rcases List.mem_append.mp (hstatistics.mem_iff.mp h) with hown | hother
  · obtain ⟨ix, hix, hmem⟩ := List.mem_flatMap.mp hown
    obtain ⟨e, -, he⟩ := List.mem_map.mp hmem
    obtain rfl := congrArg Prod.snd he
    exact ⟨fun _ => List.mem_map.mpr ⟨ix, hix, Eq.refl _⟩, fun _ => Eq.refl _⟩
  · obtain ⟨hunique, hname⟩ := hothers _ hother
    exact ⟨fun h => absurd h hunique, fun h => absurd h hname⟩

end OfIndex

/-- However `FindColumns` orders the columns, they are those of the table. -/
theorem listed_of_describes (h : Describes d rows) :
    ∃ indexes, Indexes d indexes ∧ ∀ columns : List InfoSchema.Column,
      columns.Perm (rows.columns.flatMap (listedOf rows)) → Listed d indexes (columns.map trimComment) := by
  have hnames := map_name_of_describes h
  obtain ⟨indexes, others, hindexes, hothers, hstatistics⟩ := h.statistics
  refine ⟨indexes, hindexes, fun columns hcolumns => ?_⟩
  have hmem : ∀ each ∈ columns.map trimComment, ∃ each', each = trimComment each' ∧
      ∃ item ∈ rows.columns, each' ∈ listedOf rows item := by
    intro each heach
    obtain ⟨each', hmem, rfl⟩ := List.mem_map.mp heach
    exact ⟨each', Eq.refl _, List.mem_flatMap.mp (hcolumns.mem_iff.mp hmem)⟩
  refine ⟨?_, ?_, ?_, ?_⟩
  · intro each heach
    obtain ⟨each, rfl, item, hitem, hlisted⟩ := hmem each heach
    obtain ⟨e, he, hrow⟩ := h.row_of_mem hitem
    rw [← (mem_listedOf hlisted).1] at hrow
    exact ⟨e, he, hrow.trimComment⟩
  · intro c hc
    have hname : c.name ∈ rows.columns.map DbColumn.name :=
      hnames.mem_iff.mpr (List.mem_map.mpr ⟨c, hc, Eq.refl _⟩)
    obtain ⟨item, hitem, hname⟩ := List.mem_map.mp hname
    obtain ⟨each, heach⟩ := List.exists_mem_of_ne_nil _ (listedOf_ne_nil rows item)
    have hcolumn := hcolumns.mem_iff.mpr (List.mem_flatMap.mpr ⟨item, hitem, heach⟩)
    refine ⟨trimComment each, List.mem_map.mpr ⟨each, hcolumn, Eq.refl _⟩, ?_⟩
    show each.name = c.name
    rw [(mem_listedOf heach).1, hname]
  · intro ix hix
    rw [List.filter_map, List.map_map]
    exact ((hcolumns.filter _).map part).trans (parts_of_index hindexes hothers hstatistics hnames hix)
  · intro each heach i hi
    obtain ⟨each, rfl, item, -, hlisted⟩ := hmem each heach
    exact nonUnique_iff hothers hstatistics ((mem_listedOf hlisted).2 i hi)

/-! ## Filing -/

/-- An index is filed as unique when one of its columns says so. -/
def saysUnique (columns : List InfoSchema.Column) : Bool :=
  columns.any fun one => one.index.any fun i => i.nonUnique = 0

theorem fileColumns_fst (n : Text) (columns : List InfoSchema.Column)
    (filed : GoMap Text (List InfoSchema.Column) × GoMap Text (List InfoSchema.Column))
    (rest : List InfoSchema.Column) :
    (fileColumns n columns filed rest).1 = if saysUnique rest then filed.1.insert n columns else filed.1 := by
  induction rest generalizing filed with
  | nil => exact Eq.refl _
  | cons one rest ih =>
      obtain ⟨unique, normal⟩ := filed
      cases hindex : one.index with
      | none => simp [fileColumns, saysUnique, hindex, ih]
      | some i =>
          by_cases hunique : i.nonUnique = 0
          · simp [fileColumns, saysUnique, hindex, hunique, ih, AList.insert_insert]
          · simp [fileColumns, saysUnique, hindex, hunique, ih]

theorem mem_fileIndexes {filed : GoMap Text (List InfoSchema.Column) × GoMap Text (List InfoSchema.Column)}
    {es : List (Entry Text (List InfoSchema.Column))} (hnodup : (es.map Sigma.fst).Nodup)
    (hnew : ∀ x ∈ es, ∀ e ∈ filed.1.entries, e.1 ≠ x.1) {e : Entry Text (List InfoSchema.Column)} :
    e ∈ (fileIndexes filed es).1.entries ↔
      e ∈ filed.1.entries ∨ e ∈ es ∧ e.1 ≠ indexPri ∧ saysUnique e.2 = true := by
  induction es generalizing filed with
  | nil => simp [fileIndexes]
  | cons x es ih =>
      obtain ⟨hx, hnodup⟩ := List.nodup_cons.mp hnodup
      obtain ⟨hhead, hnew⟩ := List.forall_mem_cons.mp hnew
      rw [fileIndexes]
      by_cases hfiled : x.1 ≠ indexPri ∧ saysUnique x.2 = true
      · have hinsert : (fileColumns x.1 x.2 filed x.2).1 = filed.1.insert x.1 x.2 := by
          rw [fileColumns_fst, if_pos hfiled.2]
        have hmem : ∀ e, e ∈ (fileColumns x.1 x.2 filed x.2).1.entries ↔ e = x ∨ e ∈ filed.1.entries := by
          intro e
          rw [hinsert, mem_entries_insert]
          exact or_congr_right ⟨fun h => h.2, fun h => ⟨hhead e h, h⟩⟩
        rw [if_neg hfiled.1, ih hnodup, hmem, List.mem_cons]
        · constructor
          · rintro ((rfl | he) | he)
            · exact Or.inr ⟨Or.inl (Eq.refl _), hfiled⟩
            · exact Or.inl he
            · exact Or.inr ⟨Or.inr he.1, he.2⟩
          · rintro (he | ⟨rfl | he, hboth⟩)
            · exact Or.inl (Or.inr he)
            · exact Or.inl (Or.inl (Eq.refl _))
            · exact Or.inr ⟨he, hboth⟩
        · intro y hy e he
          rcases (hmem e).mp he with rfl | he
          · exact fun heq => hx (heq ▸ List.mem_map.mpr ⟨y, hy, Eq.refl _⟩)
          · exact hnew y hy e he
      · have hsame : (if x.1 = indexPri then filed else fileColumns x.1 x.2 filed x.2).1 = filed.1 := by
          split
          · exact Eq.refl _
          · next hname => rw [fileColumns_fst, if_neg (fun h => hfiled ⟨hname, h⟩)]
        rw [ih hnodup (by rw [hsame]; exact hnew), hsame, List.mem_cons]
        constructor
        · rintro (he | ⟨he, hboth⟩)
          · exact Or.inl he
          · exact Or.inr ⟨Or.inr he, hboth⟩
        · rintro (he | ⟨rfl | he, hboth⟩)
          · exact Or.inl he
          · exact absurd hboth hfiled
          · exact Or.inr ⟨he, hboth⟩

theorem TableDefinition.ne_nil_of_mem_uniqueIndexes {key : List Text} (h : key ∈ d.uniqueIndexes) : key ≠ [] := by
  obtain ⟨written, hwritten, rfl⟩ := List.mem_map.mp h
  obtain ⟨w, hw⟩ := List.exists_mem_of_ne_nil _ (ne_nil_of_mem_uniqueKeys hwritten)
  obtain ⟨name, hname⟩ := Option.isSome_iff_exists.mp (d.unique written hwritten w hw)
  exact List.ne_nil_of_mem (List.mem_filterMap.mpr ⟨w, hw, hname⟩)

/-- The table that `Convert` makes of the columns. -/
structure Filed (d : TableDefinition C) (indexes : List Index) (table : InfoSchema.Table) : Prop where
  listed : Listed d indexes table.columns
  primary_mem : table.primaryKey ∈ table.columns
  primary_name : table.primaryKey.name = d.primaryKey
  unique : ∀ e, e ∈ table.uniqueIndex.entries ↔ ∃ ix ∈ indexes, ix.name ≠ indexPri ∧
    e = ⟨ix.name, table.columns.filter fun each => indexNameOf each = some ix.name⟩

theorem convert_ok (data : ColumnData) {indexes : List Index} (hindexes : Indexes d indexes)
    (hlisted : Listed d indexes (data.columns.map trimComment)) (order : RangeOrder Text) :
    ∃ table, data.convert order = .ok table ∧ Filed d indexes table := by
  have hparts := hlisted.index _ hindexes.primary
  have hcollected := fun n v => @lookup_collect _ _ _ indexNameOf (data.columns.map trimComment) n v
  have hone := List.perm_singleton.mp hparts
  obtain ⟨primaryKey, hprimary, hpart⟩ := List.map_eq_singleton_iff.mp hone
  have hlookup := (hcollected indexPri [primaryKey]).mpr ⟨List.cons_ne_nil _ [], hprimary⟩
  have hmem : primaryKey ∈ data.columns.map trimComment := by
    have hfiltered : primaryKey ∈ (data.columns.map trimComment).filter _ := hprimary ▸ List.mem_singleton_self _
    exact (List.mem_filter.mp hfiltered).1
  refine ⟨_, by rw [ColumnData.convert, hlookup]; exact Eq.refl _, hlisted, hmem, congrArg Prod.fst hpart, ?_⟩
  intro e
  show e ∈ (fileIndexes (∅, ∅) (order.range _)).1.entries ↔ _
  rw [mem_fileIndexes (order.nodup_keys _) (fun x _ e he => absurd he List.not_mem_nil), order.mem_range]
  obtain ⟨n, v⟩ := e
  have hentry : ⟨n, v⟩ ∈ (collect indexNameOf ∅ (data.columns.map trimComment)).entries ↔
      v ≠ [] ∧ (data.columns.map trimComment).filter (fun each => indexNameOf each = some n) = v := by
    rw [← AList.mem_lookup_iff, Option.mem_def, hcollected]
  rw [hentry]
  constructor
  · rintro (hnil | ⟨⟨-, rfl⟩, hname, hunique⟩)
    · exact absurd hnil List.not_mem_nil
    · obtain ⟨one, hone, hindex⟩ := List.any_eq_true.mp hunique
      obtain ⟨i, hi, hnonUnique⟩ := (Option.any_eq_true _ _).mp hindex
      obtain ⟨hone, hn⟩ := List.mem_filter.mp hone
      have hin := (hlisted.unique one hone i hi).mp (of_decide_eq_true hnonUnique)
      have hin' : i.indexName = n := by
        have hsome := of_decide_eq_true hn
        rw [indexNameOf, hi] at hsome
        exact Option.some.inj hsome
      obtain ⟨ix, hix, hix'⟩ := List.mem_map.mp hin
      obtain rfl := hix'.trans hin'
      exact ⟨ix, hix, hname, Eq.refl _⟩
  · rintro ⟨ix, hix, hname, heq⟩
    cases heq
    have hcolumns := TableDefinition.ne_nil_of_mem_uniqueIndexes (hindexes.unique ix hix hname)
    have hne : (data.columns.map trimComment).filter (fun each => indexNameOf each = some ix.name) ≠ [] := by
      intro hnil
      have hempty := hlisted.index ix hix
      rw [hnil, List.map_nil] at hempty
      exact hcolumns (List.zipIdx_eq_nil_iff.mp hempty.nil_eq.symm)
    refine Or.inr ⟨⟨hne, Eq.refl _⟩, hname, ?_⟩
    obtain ⟨one, hone⟩ := List.exists_mem_of_ne_nil _ hne
    obtain ⟨hmem, hn⟩ := List.mem_filter.mp hone
    obtain ⟨i, hi, hi'⟩ := Option.map_eq_some_iff.mp (of_decide_eq_true hn)
    have hunique := (hlisted.unique one hmem i hi).mpr (List.mem_map.mpr ⟨ix, hix, hi'.symm⟩)
    exact List.any_eq_true.mpr ⟨one, hone, by rw [hi]; exact decide_eq_true hunique⟩

end Goctl
end ServiceKit
