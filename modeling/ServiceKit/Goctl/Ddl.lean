import ServiceKit.Lib.Text

/-!
# `Goctl.Ddl` — what the DDL parser gives

The syntax tree of package `ddl-parser`, as far as goctl reads it: for each `CREATE TABLE` its columns, with the
constraints written on them, and the constraints of the table.
-/

namespace ServiceKit
namespace Goctl
namespace Ddl

open Lib

/-- The constants of the package that the converter has a type for; `other` is any of the rest. -/
inductive DataType where
  | bit | tinyInt | smallInt | mediumInt | int | middleInt | int1 | int2 | int3 | int4 | int8 | integer | bigInt
  | float | float4 | float8 | double | decimal | dec | fixed | numeric | real
  | date | dateTime | timestamp | time | year
  | char | varChar | nVarChar | nChar | character | longVarChar | lineString | multiLineString | binary | varBinary
  | tinyText | text | mediumText | longText | enum | set | json | blob | longBlob | mediumBlob | tinyBlob
  | bool | boolean
  | other (code : Nat)
deriving DecidableEq

/-- What is written after the type of a column. -/
structure ColumnConstraint where
  notNull : Bool
  /-- `DEFAULT`, but not `DEFAULT NULL`. -/
  hasDefaultValue : Bool
  autoIncrement : Bool
  primary : Bool
  /-- `KEY` alone, which is `PRIMARY KEY` to MySQL. -/
  key : Bool
  unique : Bool
  comment : Text

structure Column where
  name : Text
  dataType : DataType
  unsigned : Bool
  constraint : Option ColumnConstraint

structure TableConstraint where
  columnPrimaryKey : List Text
  columnUniqueKey : List Text

structure Table where
  name : Text
  columns : List Column
  constraints : List TableConstraint

/-- Whether a column is declared with a constraint. -/
def Column.declares (c : Column) (what : ColumnConstraint → Bool) : Bool := c.constraint.any what

end Ddl
end Goctl
end ServiceKit
