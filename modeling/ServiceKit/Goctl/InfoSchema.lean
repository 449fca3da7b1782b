import ServiceKit.Lib.Text
import ServiceKit.Lib.Unordered

/-!
# `Goctl.InfoSchema` — a table as the database describes it

`infoschemamodel.go`: the rows of `COLUMNS`, each with the rows of `STATISTICS` on its column (`findColumns`), are
filed by the name of the index into the primary key, the unique indexes and the others (`ColumnData.convert`). A
column is there once for each index that it is in.
-/

namespace ServiceKit
namespace Goctl
namespace InfoSchema

open Lib

def indexPri : Text := "PRIMARY".toList

structure DbColumn where
  name : Text
  dataType : Text
  columnType : Text
  extra : Text
  comment : Text
  columnDefault : Option Text
  isNullAble : Text
  ordinalPosition : Nat

structure DbIndex where
  indexName : Text
  nonUnique : Nat
  seqInIndex : Nat

structure Column extends DbColumn where
  index : Option DbIndex

structure ColumnData where
  db : Text
  table : Text
  columns : List Column

structure Table where
  db : Text
  table : Text
  columns : List Column
  /-- Primary key not included -/
  uniqueIndex : GoMap Text (List Column)
  primaryKey : Column
  normalIndex : GoMap Text (List Column)

inductive QueryError where
  | notFound
  | other (message : Text)

/-- The two queries of `InformationSchemaModel`, on the connection that it holds. -/
structure Conn where
  columns : (db table : Text) → Except QueryError (List DbColumn)
  index : (db table column : Text) → Except QueryError (List DbIndex)

inductive Failure where
  | query (e : QueryError)
  | missingPrimaryKey (db table : Text)
  | jointPrimaryKey (db table : Text)

/-- `util.TrimNewLine`. -/
def trimNewLine (s : Text) : Text := s.filter (fun c => c ≠ '\r' ∧ c ≠ '\n')

/-- What the loop of `FindColumns` appends for one row. -/
def listed (conn : Conn) (db table : Text) (item : DbColumn) : Except Failure (List Column) :=
  match conn.index db table item.name with
  | .error .notFound => .ok []
  | .error e => .error (.query e)
  | .ok [] => .ok [⟨item, none⟩]
  | .ok index => .ok (index.map fun i => ⟨item, some i⟩)

def positionLess (x y : Column) : Bool := x.ordinalPosition < y.ordinalPosition

def findColumns (sort : SortSlice) (conn : Conn) (db table : Text) : Except Failure ColumnData :=
  match conn.columns db table with
  | .error e => .error (.query e)
  | .ok reply => do
      let list ← reply.mapM (listed conn db table)
      .ok ⟨db, table, sort.slice positionLess list.flatten⟩

/-- The loop over the columns of an index that is not the primary key: the last of them decides nothing that the
    others do not, since `NON_UNIQUE` is that of the index. -/
def fileColumns (indexName : Text) (columns : List Column) :
    GoMap Text (List Column) × GoMap Text (List Column) → List Column →
      GoMap Text (List Column) × GoMap Text (List Column)
  | filed, [] => filed
  | (unique, normal), one :: rest =>
      match one.index with
      | none => fileColumns indexName columns (unique, normal) rest
      | some i =>
          if i.nonUnique = 0 then fileColumns indexName columns (unique.insert indexName columns, normal) rest
          else fileColumns indexName columns (unique, normal.insert indexName columns) rest

/-- The loop over the indexes: `UniqueIndex` and `NormalIndex`. -/
def fileIndexes (filed : GoMap Text (List Column) × GoMap Text (List Column)) :
    List (Entry Text (List Column)) → GoMap Text (List Column) × GoMap Text (List Column)
  | [] => filed
  | e :: es => fileIndexes (if e.1 = indexPri then filed else fileColumns e.1 e.2 filed e.2) es

def indexNameOf (each : Column) : Option Text := each.index.map DbIndex.indexName

def trimComment (each : Column) : Column := { each with comment := trimNewLine each.comment }

def ColumnData.convert (order : RangeOrder Text) (c : ColumnData) : Except Failure Table :=
  let columns := c.columns.map trimComment
  let m := collect indexNameOf ∅ columns
  match (m.lookup indexPri).getD [] with
  | [] => .error (.missingPrimaryKey c.db c.table)
  | [primaryKey] =>
      let filed := fileIndexes (∅, ∅) (order.range m)
      .ok ⟨c.db, c.table, columns, filed.1, primaryKey, filed.2⟩
  | _ :: _ :: _ => .error (.jointPrimaryKey c.db c.table)

end InfoSchema
end Goctl
end ServiceKit
