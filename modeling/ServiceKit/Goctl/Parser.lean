import Mathlib.Data.Finset.Card
import ServiceKit.Lib.FilePath
import ServiceKit.Goctl.Converter
import ServiceKit.Goctl.InfoSchema

/-!
# `Goctl.Parser` — the two ways to a table

Package `parser` makes the table that the generators read, from DDL (`parse`) or from what the database says of the
table (`convertDataType`). Warnings are not modelled, and `stringx.String` is its source.
-/

namespace ServiceKit
namespace Goctl
namespace Parser

open Lib InfoSchema

/-! ## Tables -/

structure Field where
  nameOriginal : Text := []
  name : Text := []
  thirdPkg : Text := []
  dataType : Text := []
  comment : Text := []
  seqInIndex : Nat := 0
  ordinalPosition : Nat := 0
  containsPQ : Bool := false

/-- The primary key, which may count by itself. -/
structure Primary extends Field where
  autoIncrement : Bool := false

/-- A table, as the generators read it. -/
structure Table where
  name : Text
  db : Text
  primaryKey : Primary
  /-- The fields of each index; `none` is a nil pointer. -/
  uniqueIndex : GoMap Text (List (Option Field))
  fields : List Field
  containsPQ : Bool

/-- Why there is no table. -/
inductive Failure where
  | ddl (message : Text)
  | joinPrimaryKey (fileName : Text)
  | converter (e : Converter.Failure)
  | uniqueKey (table columnName : Text)

/-- `err` of the converter, as it is returned. -/
def ofConverter {α : Type} : Except Converter.Failure α → Except Failure α
  | .ok a => .ok a
  | .error e => .error (.converter e)

/-! ## From DDL -/

/-- The name of an index that has none. -/
def indexNameGen (column : List Text) : Text := ['_'].intercalate column

/-- What `Parse` collects of a table before it converts the columns. -/
structure Keys where
  primaryColumn : Text
  primaryColumnSet : Finset Text
  uniqueKeyMap : GoMap Text (List Text)

/-- The keys that the constraint of a column declares, each under the name made for it. -/
def keysOfColumn (s : Keys) (column : Ddl.Column) : Keys :=
  match column.constraint with
  | none => s
  | some constraint =>
      let s := if constraint.primary then { s with primaryColumnSet := insert column.name s.primaryColumnSet } else s
      let s :=
        if constraint.unique then
          { s with uniqueKeyMap :=
              s.uniqueKeyMap.insert (indexNameGen [column.name, "unique".toList]) [column.name] }
        else s
      if constraint.key then
        { s with uniqueKeyMap := s.uniqueKeyMap.insert (indexNameGen [column.name, "idx".toList]) [column.name] }
      else s

/-- The keys after the primary key of a constraint, when it has one column. -/
def withPrimary (s : Keys) : List Text → Keys
  | [p] => { s with primaryColumn := p, primaryColumnSet := insert p s.primaryColumnSet }
  | _ => s

/-- The keys that a constraint of the table declares; a primary key of several columns is an error. -/
def keysOfConstraint (fileName : Text) (s : Keys) (e : Ddl.TableConstraint) : Except Failure Keys :=
  if e.columnPrimaryKey.length > 1 then .error (.joinPrimaryKey fileName)
  else
    let s := withPrimary s e.columnPrimaryKey
    if e.columnUniqueKey.length > 0 then
      .ok { s with uniqueKeyMap :=
              s.uniqueKeyMap.insert (indexNameGen (e.columnUniqueKey ++ ["unique".toList])) e.columnUniqueKey }
    else .ok s

/-- The keys of a table, less those on its primary key. -/
def collectKeys (fileName : Text) (t : Ddl.Table) : Except Failure Keys := do
  let s := t.columns.foldl keysOfColumn ⟨[], ∅, ∅⟩
  let s ← t.constraints.foldlM (keysOfConstraint fileName) s
  if s.primaryColumnSet.card > 1 then .error (.joinPrimaryKey fileName)
  else
    let m := s.uniqueKeyMap.erase (indexNameGen [s.primaryColumn, "idx".toList])
    .ok { s with uniqueKeyMap := m.erase (indexNameGen [s.primaryColumn, "unique".toList]) }

section Columns

variable (U : Unicode) (env : Converter.Env)

/-- The column may be null: not the primary key, not `NOT NULL`, and without a default. -/
def isDefaultNull (primaryColumn : Text) (column : Ddl.Column) : Bool :=
  match column.constraint with
  | none => false
  | some constraint =>
      if column.name = primaryColumn then false
      else if !constraint.notNull && constraint.hasDefaultValue then false
      else !constraint.notNull

/-- The field of a column. -/
def convertColumn (primaryColumn : Text) (strict : Bool) (column : Ddl.Column) : Except Failure Field := do
  let (dataType, thirdPkg) ← ofConverter
    (Converter.convertDataType U env column.dataType (isDefaultNull primaryColumn column) column.unsigned strict)
  .ok { name := column.name, thirdPkg := thirdPkg, dataType := dataType
        comment := trimNewLine (column.constraint.elim [] Ddl.ColumnConstraint.comment) }

/-- The loop over the columns: the primary key and the fields by name. -/
def convertColumns (primaryColumn : Text) (strict : Bool) :
    Primary → GoMap Text Field → List Ddl.Column → Except Failure (Primary × GoMap Text Field)
  | primaryKey, fieldM, [] => .ok (primaryKey, fieldM)
  | primaryKey, fieldM, column :: columns => do
      let field ← convertColumn U env primaryColumn strict column
      let primaryKey := if field.name = primaryColumn
        then { field with autoIncrement := column.declares Ddl.ColumnConstraint.autoIncrement } else primaryKey
      convertColumns primaryColumn strict primaryKey (fieldM.insert field.name field) columns

/-- The loop that puts the original names into the fields: they are pointers, so `fieldM` has them, too. -/
def nameOriginals (fieldM : GoMap Text Field) : List Ddl.Column → GoMap Text Field
  | [] => fieldM
  | c :: columns =>
      match fieldM.lookup c.name with
      | some field => nameOriginals (fieldM.insert c.name { field with nameOriginal := c.name }) columns
      | none => nameOriginals fieldM columns

/-- The fields of an index; a column that is not there is an error. -/
def fieldsOf (tableName : Text) (fieldM : GoMap Text Field) (each : List Text) :
    Except Failure (List (Option Field)) :=
  each.mapM fun columnName =>
    match fieldM.lookup columnName with
    | some field => .ok (some field)
    | none => .error (.uniqueKey tableName columnName)

/-- The loop over the unique keys. -/
def uniqueIndexes (tableName : Text) (fieldM : GoMap Text Field) :
    GoMap Text (List (Option Field)) → List (Entry Text (List Text)) →
      Except Failure (GoMap Text (List (Option Field)))
  | uniqueIndex, [] => .ok uniqueIndex
  | uniqueIndex, e :: es => do
      let fields ← fieldsOf tableName fieldM e.2
      uniqueIndexes tableName fieldM (uniqueIndex.insert e.1 fields) es

/-- The names of the fields of an index, joined. -/
def joined (fields : List (Option Field)) : Text := [','].intercalate (fields.reduceOption.map Field.name)

/-- The loop of `checkDuplicateUniqueIndex`: of the indexes with the same columns the first that is ranged over
    stays. -/
def dropDuplicates : GoMap Text (List (Option Field)) → Finset Text → List (Entry Text (List (Option Field))) →
    GoMap Text (List (Option Field))
  | uniqueIndex, _, [] => uniqueIndex
  | uniqueIndex, uniqueSet, e :: es =>
      if joined e.2 ∈ uniqueSet then dropDuplicates (uniqueIndex.erase e.1) uniqueSet es
      else dropDuplicates uniqueIndex (insert (joined e.2) uniqueSet) es

/-- One index for each list of columns. -/
def checkDuplicateUniqueIndex (order : RangeOrder Text) (uniqueIndex : GoMap Text (List (Option Field))) :
    GoMap Text (List (Option Field)) := dropDuplicates uniqueIndex ∅ (order.range uniqueIndex)

/-- The body of the loop of `Parse`. -/
def parseTable (order : RangeOrder Text) (fileName database : Text) (strict : Bool) (e : Ddl.Table) :
    Except Failure Table := do
  let keys ← collectKeys fileName e
  let (primaryKey, fieldM) ← convertColumns U env keys.primaryColumn strict {} ∅ e.columns
  let fieldM := nameOriginals fieldM e.columns
  let fields := e.columns.filterMap fun c => fieldM.lookup c.name
  let uniqueIndex ← uniqueIndexes e.name fieldM ∅ (order.range keys.uniqueKeyMap)
  .ok { name := e.name, db := database, primaryKey := primaryKey
        uniqueIndex := checkDuplicateUniqueIndex order uniqueIndex, fields := fields, containsPQ := false }

/-- `Parse`, where `ddlFrom` is what the DDL parser makes of a file and `order i` the order of the ranges for the
    table `i` of it. -/
def parse (ddlFrom : Text → Except Text (List Ddl.Table)) (order : Nat → RangeOrder Text)
    (filename database : Text) (strict : Bool) : Except Failure (List Table) :=
  match ddlFrom filename with
  | .error message => .error (.ddl message)
  | .ok tables =>
      tables.zipIdx.mapM fun e => parseTable U env (order e.2) (FilePath.base filename) database strict e.1

end Columns

/-! ## From the database -/

section Convert

variable (U : Unicode) (env : Converter.Env)

/-- The converter's answer for a column of the database. -/
def dbType (strict : Bool) (each : Column) : Except Failure (Text × Text × Bool) :=
  let isDefaultNull := each.columnDefault.isNone && each.isNullAble = "YES".toList
  let isUnsigned := decide ("unsigned".toList <:+: each.columnType)
  ofConverter (Converter.convertStringDataType U env each.dataType each.columnType isDefaultNull isUnsigned strict)

def seqInIndexOf (each : Column) : Nat := (each.index.map DbIndex.seqInIndex).getD 0

/-- The fields of the columns, by name. -/
def getTableFields (strict : Bool) : GoMap Text Field → List Column → Except Failure (GoMap Text Field)
  | fieldM, [] => .ok fieldM
  | fieldM, each :: columns => do
      let (dt, thirdPkg, containsPQ) ← dbType U env strict each
      let field : Field :=
        { nameOriginal := each.name, name := each.name, thirdPkg := thirdPkg, dataType := dt
          comment := each.comment, seqInIndex := seqInIndexOf each, ordinalPosition := each.ordinalPosition
          containsPQ := containsPQ }
      getTableFields strict (fieldM.insert each.name field) columns

/-- How the columns of an index are sorted. -/
def seqLess (x y : Column) : Bool :=
  match x.index with
  | some i => y.index.any fun j => i.seqInIndex < j.seqInIndex
  | none => false

/-- The loop over the unique indexes. -/
def convertIndexes (sort : SortSlice) (primaryName : Text) (fieldM : GoMap Text Field) :
    GoMap Text (List (Option Field)) → Finset Text → List (Entry Text (List Column)) →
      GoMap Text (List (Option Field))
  | uniqueIndex, _, [] => uniqueIndex
  | uniqueIndex, uniqueIndexSet, e :: es =>
      let each := sort.slice seqLess e.2
      if each.length = 1 ∧ ∀ one ∈ each, one.name = primaryName then
        convertIndexes sort primaryName fieldM uniqueIndex uniqueIndexSet es
      else
        let uniqueKey := [','].intercalate (each.map fun c => c.name)
        if uniqueKey ∈ uniqueIndexSet then convertIndexes sort primaryName fieldM uniqueIndex uniqueIndexSet es
        else
          convertIndexes sort primaryName fieldM
            (uniqueIndex.insert e.1 (each.map fun c => fieldM.lookup c.name)) (insert uniqueKey uniqueIndexSet) es

/-- How fields are sorted. -/
def fieldLess (x y : Field) : Bool := x.ordinalPosition < y.ordinalPosition

/-- `ConvertDataType`: the table of what the database says. -/
def convertDataType (sort : SortSlice) (order : RangeOrder Text) (table : InfoSchema.Table) (strict : Bool) :
    Except Failure Table := do
  let primaryKey := table.primaryKey
  let (primaryDataType, thirdPkg, containsPQ) ← dbType U env strict primaryKey
  let fieldM ← getTableFields U env strict ∅ table.columns
  let fields := (order.range fieldM).map Sigma.snd
  .ok
    { name := table.table, db := table.db
      primaryKey :=
        { name := primaryKey.name, thirdPkg := thirdPkg, dataType := primaryDataType, comment := primaryKey.comment
          seqInIndex := seqInIndexOf primaryKey, ordinalPosition := primaryKey.ordinalPosition
          autoIncrement := decide ("auto_increment".toList <:+: primaryKey.extra) }
      uniqueIndex := convertIndexes sort primaryKey.name fieldM ∅ ∅ (order.range table.uniqueIndex)
      fields := sort.slice fieldLess fields
      containsPQ := containsPQ || fields.any Field.containsPQ }

end Convert

end Parser
end Goctl
end ServiceKit
