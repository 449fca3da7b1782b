import ServiceKit.Goctl.Ddl

/-!
# `Goctl.Converter` — the Go type of a column

Package `converter`: a Go type is found by the token of the DDL parser (`convertDataType`) or by the name that the
database gives the type (`convertStringDataType`), then made nullable or unsigned (`mayConvertNullType`). With
`GOCTL_EXPERIMENTAL` on, both go by the name, and the types of the external configuration come first.
-/

namespace ServiceKit
namespace Goctl
namespace Converter

open Lib Ddl

/-- `config.ModelTypeMapOption`. -/
structure ModelTypeMapOption where
  type : Text
  unsignedType : Text
  nullType : Text
  pkg : Text

/-- What is set around goctl. -/
structure Env where
  useExperimental : Bool
  /-- `TypesMap` of the external configuration; none when there is no configuration that can be read. -/
  typesMap : Option (Text → Option ModelTypeMapOption)

/-- Nothing experimental, and no external configuration. -/
def Env.plain : Env := ⟨false, none⟩

inductive Failure where
  | unsupportedToken (dataBaseType : DataType)
  | unsupportedName (dataBaseType : Text)
deriving DecidableEq

/-- A Go map of strings. -/
def ofEntries (entries : List (String × String)) : List (Text × Text) :=
  entries.map fun e => (e.1.toList, e.2.toList)

def unsignedTypeMap : List (Text × Text) := ofEntries
  [("int", "uint"), ("int8", "uint8"), ("int16", "uint16"), ("int32", "uint32"), ("int64", "uint64")]

def commonMysqlDataTypeMapInt : DataType → Option Text
  -- number
  | .bit => some "byte".toList
  | .tinyInt | .smallInt | .mediumInt | .int | .middleInt | .int1 | .int2 | .int3 | .int4 | .int8 | .integer
  | .bigInt => some "int64".toList
  | .float | .float4 | .float8 | .double | .decimal | .dec | .fixed | .numeric | .real => some "float64".toList
  -- date&time
  | .date | .dateTime | .timestamp => some "time.Time".toList
  | .time => some "string".toList
  | .year => some "int64".toList
  -- string
  | .char | .varChar | .nVarChar | .nChar | .character | .longVarChar | .lineString | .multiLineString | .binary
  | .varBinary | .tinyText | .text | .mediumText | .longText | .enum | .set | .json | .blob | .longBlob
  | .mediumBlob | .tinyBlob => some "string".toList
  -- bool
  | .bool | .boolean => some "bool".toList
  | .other _ => none

def commonMysqlDataTypeMap : DataType → Option Text
  -- number
  | .bit => some "bit".toList
  | .tinyInt => some "tinyint".toList
  | .smallInt => some "smallint".toList
  | .mediumInt => some "mediumint".toList
  | .int => some "int".toList
  | .middleInt => some "middleint".toList
  | .int1 => some "int1".toList
  | .int2 => some "int2".toList
  | .int3 => some "int3".toList
  | .int4 => some "int4".toList
  | .int8 => some "int8".toList
  | .integer => some "integer".toList
  | .bigInt => some "bigint".toList
  | .float => some "float".toList
  | .float4 => some "float4".toList
  | .float8 => some "float8".toList
  | .double => some "double".toList
  | .decimal => some "decimal".toList
  | .dec => some "dec".toList
  | .fixed => some "fixed".toList
  | .numeric => some "numeric".toList
  | .real => some "real".toList
  -- date&time
  | .date => some "date".toList
  | .dateTime => some "datetime".toList
  | .timestamp => some "timestamp".toList
  | .time => some "time".toList
  | .year => some "year".toList
  -- string
  | .char => some "char".toList
  | .varChar => some "varchar".toList
  | .nVarChar => some "nvarchar".toList
  | .nChar => some "nchar".toList
  | .character => some "character".toList
  | .longVarChar => some "longvarchar".toList
  | .lineString => some "linestring".toList
  | .multiLineString => some "multilinestring".toList
  | .binary => some "binary".toList
  | .varBinary => some "varbinary".toList
  | .tinyText => some "tinytext".toList
  | .text => some "text".toList
  | .mediumText => some "mediumtext".toList
  | .longText => some "longtext".toList
  | .enum => some "enum".toList
  | .set => some "set".toList
  | .json => some "json".toList
  | .blob => some "blob".toList
  | .longBlob => some "longblob".toList
  | .mediumBlob => some "mediumblob".toList
  | .tinyBlob => some "tinyblob".toList
  -- bool
  | .bool => some "bool".toList
  | .boolean => some "boolean".toList
  | .other _ => none

def commonMysqlDataTypeMapString : List (Text × Text) := ofEntries
  [ -- bool
    ("bool", "bool"), ("_bool", "pq.BoolArray"), ("boolean", "bool"),
    -- number
    ("tinyint", "int64"), ("smallint", "int32"), ("mediumint", "int64"), ("int", "int64"), ("int1", "int64"),
    ("int2", "int64"), ("_int2", "pq.Int64Array"), ("int3", "int64"), ("int4", "int64"),
    ("_int4", "pq.Int64Array"), ("int8", "int64"), ("_int8", "pq.Int64Array"), ("integer", "int64"),
    ("_integer", "pq.Int64Array"), ("bigint", "int64"), ("float", "float64"), ("float4", "float64"),
    ("_float4", "pq.Float64Array"), ("float8", "float64"), ("_float8", "pq.Float64Array"), ("double", "float64"),
    ("decimal", "float64"), ("dec", "float64"), ("fixed", "float64"), ("real", "float64"), ("bit", "byte"),
    -- date & time
    ("date", "time.Time"), ("datetime", "time.Time"), ("timestamp", "time.Time"), ("time", "string"),
    ("year", "int64"),
    -- string
    ("linestring", "string"), ("multilinestring", "string"), ("nvarchar", "string"), ("nchar", "string"),
    ("char", "string"), ("bpchar", "string"), ("_char", "pq.StringArray"), ("character", "string"),
    ("varchar", "string"), ("_varchar", "pq.StringArray"), ("binary", "string"), ("bytea", "string"),
    ("longvarbinary", "string"), ("varbinary", "string"), ("tinytext", "string"), ("text", "string"),
    ("_text", "pq.StringArray"), ("mediumtext", "string"), ("longtext", "string"), ("enum", "string"),
    ("set", "string"), ("json", "string"), ("jsonb", "string"), ("blob", "string"), ("longblob", "string"),
    ("mediumblob", "string"), ("tinyblob", "string"), ("ltree", "[]byte") ]

def mayConvertNullType (goDataType : Text) (isDefaultNull unsigned strict : Bool) : Text :=
  if !isDefaultNull then
    if unsigned && strict then (unsignedTypeMap.lookup goDataType).getD goDataType else goDataType
  else if goDataType = "int64".toList then "sql.NullInt64".toList
  else if goDataType = "int32".toList then "sql.NullInt32".toList
  else if goDataType = "float64".toList then "sql.NullFloat64".toList
  else if goDataType = "bool".toList then "sql.NullBool".toList
  else if goDataType = "string".toList then "sql.NullString".toList
  else if goDataType = "time.Time".toList then "sql.NullTime".toList
  else if unsigned then (unsignedTypeMap.lookup goDataType).getD goDataType
  else goDataType

section Convert

variable (U : Unicode) (env : Env)

/-- The type of the external configuration, empty when it has none, and the package that it is from. -/
def convertDatatypeWithConfig (dataBaseType databaseColumnType : Text) (isDefaultNull unsigned : Bool) : Text × Text :=
  match env.typesMap with
  | none => ([], [])
  | some typesMap =>
      let byColumnType := if databaseColumnType ≠ [] then typesMap (databaseColumnType.map U.toLower) else none
      match byColumnType.or (typesMap (dataBaseType.map U.toLower)) with
      | none => ([], [])
      | some opt =>
          if opt.type = [] ∧ opt.unsignedType = [] ∧ opt.nullType = [] then ([], [])
          else if isDefaultNull then
            if opt.nullType ≠ [] then (opt.nullType, opt.pkg) else (opt.type, opt.pkg)
          else if unsigned then
            if opt.unsignedType ≠ [] then (opt.unsignedType, opt.pkg) else (opt.type, opt.pkg)
          else (opt.type, opt.pkg)

/-- The second half of `ConvertStringDataType`, which both modes share. -/
def convertName (dataBaseType : Text) (isDefaultNull unsigned strict : Bool) : Except Failure (Text × Text × Bool) :=
  match commonMysqlDataTypeMapString.lookup (dataBaseType.map U.toLower) with
  | none => .error (.unsupportedName dataBaseType)
  | some tp =>
      if "_".toList.isPrefixOf dataBaseType then .ok (tp, [], true)
      else .ok (mayConvertNullType tp isDefaultNull unsigned strict, [], false)

/-- The Go type, the package that it is from, and whether it is an array of package `pq`. -/
def convertStringDataType (dataBaseType databaseColumnType : Text) (isDefaultNull unsigned strict : Bool) :
    Except Failure (Text × Text × Bool) :=
  if env.useExperimental then
    let (customTp, thirdImport) := convertDatatypeWithConfig U env dataBaseType databaseColumnType isDefaultNull unsigned
    if customTp.length ≠ 0 then .ok (customTp, thirdImport, false)
    else convertName U dataBaseType isDefaultNull unsigned strict
  -- the following are the old version compatibility code.
  else convertName U dataBaseType isDefaultNull unsigned strict

/-- The Go type, and the package that it is from. -/
def convertDataType (dataBaseType : DataType) (isDefaultNull unsigned strict : Bool) : Except Failure (Text × Text) :=
  if env.useExperimental then
    match commonMysqlDataTypeMap dataBaseType with
    | none => .error (.unsupportedToken dataBaseType)
    | some tp => do
        let (goType, thirdPkg, _) ← convertStringDataType U env tp [] isDefaultNull unsigned strict
        .ok (goType, thirdPkg)
  -- the following are the old version compatibility code.
  else
    match commonMysqlDataTypeMapInt dataBaseType with
    | none => .error (.unsupportedToken dataBaseType)
    | some tp => .ok (mayConvertNullType tp isDefaultNull unsigned strict, [])

end Convert

end Converter
end Goctl
end ServiceKit
