import ServiceKit.Goctl.Parser

/-!
# `Goctl.TableDefinition` — what a `CREATE TABLE` means to MySQL

A table that MySQL creates from a statement, with a primary key of one column (`TableDefinition`), and what the
database then says of it: the rows of `COLUMNS` and of `STATISTICS` (`Describes`). The names in a key denote columns
up to the collation of names, the parser leaves them as they are written.
-/

namespace ServiceKit
namespace Goctl

open Lib Ddl InfoSchema

/-- How the database compares the names of columns. -/
structure Collation where
  same : Text → Text → Bool
  refl : ∀ n, same n n = true
  symm : ∀ m n, same m n = same n m
  trans : ∀ l m n, same l m = true → same m n = true → same l n = true

/-- Names compared rune by rune. -/
def Collation.binary : Collation where
  same m n := m = n
  refl n := decide_eq_true (Eq.refl n)
  symm m n := by simp [eq_comm]
  trans l m n hlm hmn := by simp_all

/-! ## The keys that are declared -/

/-- The primary keys, as they are written. -/
def Ddl.Table.primaryKeys (t : Ddl.Table) : List (List Text) :=
  (t.columns.filter fun c => c.declares ColumnConstraint.primary || c.declares ColumnConstraint.key).map
      (fun c => [c.name]) ++
    (t.constraints.map TableConstraint.columnPrimaryKey).filter (· ≠ [])

/-- The unique keys, as they are written. -/
def Ddl.Table.uniqueKeys (t : Ddl.Table) : List (List Text) :=
  (t.columns.filter fun c => c.declares ColumnConstraint.unique).map (fun c => [c.name]) ++
    (t.constraints.map TableConstraint.columnUniqueKey).filter (· ≠ [])

/-- The name of the column that a name denotes. -/
def resolve (C : Collation) (t : Ddl.Table) (name : Text) : Option Text :=
  (t.columns.find? fun c => C.same c.name name).map Ddl.Column.name

/-- A table that MySQL creates. -/
structure TableDefinition (C : Collation) where
  table : Ddl.Table
  /-- The column of the primary key. -/
  primaryKey : Text
  distinct : table.columns.Pairwise fun c d => C.same c.name d.name = false
  named : ∀ c ∈ table.columns, c.name ≠ []
  /-- One primary key is declared, on this column. -/
  primary : ∃ written, table.primaryKeys = [[written]] ∧ resolve C table written = some primaryKey
  /-- The columns of a unique key are columns of the table. -/
  unique : ∀ key ∈ table.uniqueKeys, ∀ name ∈ key, (resolve C table name).isSome
  unique_nodup : ∀ key ∈ table.uniqueKeys, (key.map (resolve C table)).Nodup

variable {C : Collation}

/-- The columns of each unique key. -/
def TableDefinition.uniqueIndexes (d : TableDefinition C) : List (List Text) :=
  d.table.uniqueKeys.map fun key => key.filterMap (resolve C d.table)

/-- What makes a column `NOT NULL`. -/
def TableDefinition.notNull (d : TableDefinition C) (c : Ddl.Column) : Bool :=
  c.declares ColumnConstraint.notNull || c.declares ColumnConstraint.autoIncrement || c.name = d.primaryKey

/-! ## What the database says -/

/-- The types of the texts and of the byte strings of any length. -/
def textTypes : List String :=
  ["varchar", "varbinary", "tinytext", "text", "mediumtext", "longtext", "tinyblob", "blob", "mediumblob", "longblob"]

/-- The types that a column can have in `DATA_TYPE`: synonyms are replaced, and a type that is declared with a length
    or a character set can be one of its family. -/
def reported : DataType → List String
  | .bit => ["bit"]
  | .tinyInt | .int1 | .bool | .boolean => ["tinyint"]
  | .smallInt | .int2 => ["smallint"]
  | .mediumInt | .middleInt | .int3 => ["mediumint"]
  | .int | .integer | .int4 => ["int"]
  | .bigInt | .int8 => ["bigint"]
  | .float | .float4 | .float8 | .double | .real => ["float", "double"]
  | .decimal | .dec | .fixed | .numeric => ["decimal"]
  | .date => ["date"]
  | .dateTime => ["datetime"]
  | .timestamp => ["timestamp"]
  | .time => ["time"]
  | .year => ["year"]
  | .char | .nChar | .character => ["char", "binary"]
  | .varChar | .nVarChar | .longVarChar | .varBinary | .tinyText | .text | .mediumText | .longText | .blob | .longBlob
  | .mediumBlob | .tinyBlob => textTypes
  | .binary => ["binary"]
  | .lineString => ["linestring"]
  | .multiLineString => ["multilinestring"]
  | .enum => ["enum"]
  | .set => ["set"]
  | .json => ["json"]
  | .other _ => []

/-- The row of a column in `COLUMNS`, where the column has a position in the table. -/
structure Row (d : TableDefinition C) (c : Ddl.Column) (position : Nat) (row : DbColumn) : Prop where
  name : row.name = c.name
  dataType : row.dataType ∈ (reported c.dataType).map String.toList
  /-- The literals of `ENUM` and `SET` are part of the text. -/
  columnType : c.dataType ≠ .enum → c.dataType ≠ .set → ("unsigned".toList <:+: row.columnType ↔ c.unsigned = true)
  extra : "auto_increment".toList <:+: row.extra ↔ c.declares ColumnConstraint.autoIncrement = true
  columnDefault : row.columnDefault = none ↔ c.declares ColumnConstraint.hasDefaultValue = false
  isNullAble : row.isNullAble = if d.notNull c then "NO".toList else "YES".toList
  ordinalPosition : row.ordinalPosition = position

/-- An index that is unique. -/
structure Index where
  name : Text
  columns : List Text

/-- The rows of an index in `STATISTICS`, with the column of each. -/
def Index.statistics (ix : Index) : List (Text × DbIndex) :=
  (ix.columns.zipIdx 1).map fun e => (e.1, ⟨ix.name, 0, e.2⟩)

/-- The unique indexes of a table, under names that the statement or the database chose. -/
structure Indexes (d : TableDefinition C) (indexes : List Index) : Prop where
  names : (indexes.map Index.name).Nodup
  primary : ⟨indexPri, [d.primaryKey]⟩ ∈ indexes
  unique : ∀ ix ∈ indexes, ix.name ≠ indexPri → ix.columns ∈ d.uniqueIndexes
  complete : ∀ key ∈ d.uniqueIndexes, ∃ ix ∈ indexes, ix.name ≠ indexPri ∧ ix.columns = key

/-- The rows on one table. -/
structure Rows where
  columns : List DbColumn
  statistics : List (Text × DbIndex)

/-- The connection to a database with these rows. -/
def Rows.conn (rows : Rows) : Conn where
  columns _ _ := .ok rows.columns
  index _ _ column := .ok ((rows.statistics.filter fun s => s.1 = column).map Prod.snd)

/-- The rows describe the table: they come in any order, and there can be indexes that are not unique. -/
structure Describes (d : TableDefinition C) (rows : Rows) : Prop where
  columns : ∃ list, rows.columns.Perm list ∧
    List.Forall₂ (fun e row => Row d e.1 e.2 row) (d.table.columns.zipIdx 1) list
  statistics : ∃ indexes others, Indexes d indexes ∧
    (∀ s ∈ others, s.2.nonUnique ≠ 0 ∧ s.2.indexName ∉ indexes.map Index.name) ∧
    rows.statistics.Perm (indexes.flatMap Index.statistics ++ others)

end Goctl
end ServiceKit
