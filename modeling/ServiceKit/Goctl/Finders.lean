import ServiceKit.Goctl.Parser
import ServiceKit.Goctl.Stringx

/-!
# `Goctl.Finders` — the cache keys and the finders of a table

Package `gen`: `genCacheKeys` makes a cache key of the primary key and of each unique index, sorted by their variables;
`genFindOneByField` executes the templates of a finder on each unique key. What a template makes of its data is a
parameter (`Templates`): it is read from the user's files.
-/

namespace ServiceKit
namespace Goctl
namespace Gen

open Lib Goctl.Parser

/-- A cache key. -/
structure Key where
  varLeft : Text
  varRight : GoText
  varExpression : GoText
  keyLeft : Text
  keyRight : GoText
  dataKeyRight : GoText
  keyExpression : GoText
  dataKeyExpression : GoText
  fieldNameJoin : List Text
  fields : List Field

section Keys

variable (U : Unicode) (c : Caser)

/-- The parameter of a finder for a field. -/
def paramOf (f : Field) : GoText := escapeGolangKeyword (untitle U (c.toCamel f.name))

/-- The names that the names of a key begin with. -/
def scope (db table : Text) : List Text :=
  let dbName := safeString (ofText db)
  let tableName := safeString (ofText table)
  if dbName.length > 0 then [dbName, tableName] else [tableName]

def genCacheKey (cachePrefix db table : Text) (fields : List Field) : Key :=
  let names := fields.map Field.name
  let varLeftJoin := cachePrefix :: scope db table ++ names ++ ["prefix".toList]
  let varRightJoin := cachePrefix :: scope db table ++ names
  let keyLeftJoin := scope db table ++ names ++ ["key".toList]
  let keyRightArgs := join ":" (fields.map fun _ => lit "%v")
  let varLeft := safeString (untitle U (c.camelJoin varLeftJoin))
  let varRight := lit "\"" ++ join ":" (varRightJoin.map fun s => untitle U (c.toCamel s)) ++ lit ":\""
  let keyLeft := safeString (untitle U (c.camelJoin keyLeftJoin))
  let sprintf (args : List GoText) : GoText :=
    lit "fmt.Sprintf(\"%s" ++ keyRightArgs ++ lit "\", " ++ ofText varLeft ++ lit ", " ++ join ", " args ++ lit ")"
  let keyRight := sprintf (fields.map (paramOf U c))
  let dataKeyRight := sprintf (fields.map fun f => lit "data." ++ ofText (c.toCamel f.name))
  { varLeft, varRight
    varExpression := ofText varLeft ++ lit " = " ++ varRight
    keyLeft, keyRight, dataKeyRight
    keyExpression := ofText keyLeft ++ lit " := " ++ keyRight
    dataKeyExpression := ofText keyLeft ++ lit " := " ++ dataKeyRight
    fieldNameJoin := names, fields }

/-- The cache keys of a table; `none` where a field of an index is a nil pointer. -/
def genCacheKeys (order : RangeOrder Text) (sort : SortSlice) (cachePrefix : Text) (table : Table) :
    Option (Key × List Key) := do
  let primaryKey := genCacheKey U c cachePrefix table.db table.name [table.primaryKey.toField]
  let uniqueKey ← (order.range table.uniqueIndex).mapM fun each =>
    (each.2.mapM id).map (genCacheKey U c cachePrefix table.db table.name)
  some (primaryKey, sort.slice (fun x y => decide (x.varLeft < y.varLeft)) uniqueKey)

end Keys

/-- `Table` of `gen.go`. -/
structure GenTable where
  table : Table
  primaryCacheKey : Key
  uniqueCacheKey : List Key
  containsUniqueCacheKey : Bool
  ignoreColumns : List Text

/-- The table that `genModel` hands to its parts. -/
def genTable (U : Unicode) (c : Caser) (order : RangeOrder Text) (sort : SortSlice) (cachePrefix : Text)
    (ignoreColumns : List Text) (t : Table) : Option GenTable :=
  (genCacheKeys U c order sort cachePrefix t).map fun (primaryKey, uniqueKey) =>
    ⟨t, primaryKey, uniqueKey, uniqueKey.length > 0, ignoreColumns⟩

/-! ## `findonebyfield.go` -/

/-- What the template of a finder is executed on. -/
structure FindOneByField where
  upperStartCamelObject : Text
  upperField : Text
  params : GoText
  withCache : Bool
  cacheKey : GoText
  cacheKeyVariable : Text
  lowerStartCamelObject : GoText
  lowerStartCamelField : GoText
  upperStartCamelPrimaryKey : Text
  originalField : Text
  postgreSql : Bool
  data : GenTable

/-- What the template of its method in the interface is executed on. -/
structure FindOneByFieldMethod where
  upperStartCamelObject : Text
  upperField : Text
  params : GoText
  data : GenTable

structure FindOneByFieldExtraMethod where
  upperStartCamelObject : Text
  primaryKeyLeft : Text
  lowerStartCamelObject : GoText
  originalPrimaryField : Text
  postgreSql : Bool
  data : GenTable

/-- What the templates make of their data. -/
structure Templates (E : Type) where
  findOneByField : FindOneByField → Except E GoText
  findOneByFieldMethod : FindOneByFieldMethod → Except E GoText
  findOneByFieldExtraMethod : FindOneByFieldExtraMethod → Except E GoText

structure FindOneCode where
  findOneMethod : GoText
  findOneInterfaceMethod : GoText
  cacheExtra : GoText

def wrapWithRawString (v : Text) (postgreSql : Bool) : Text :=
  let tick := ['\x60']
  if postgreSql then v
  else if v = tick then v
  else
    let v := if tick.isPrefixOf v then v else tick ++ v
    if tick.isSuffixOf v then if v.length = 1 then v ++ tick else v else v ++ tick

section Finders

variable {E : Type} (U : Unicode) (c : Caser)

/-- The parameters of a finder, with their types. -/
def paramsOf (key : Key) : GoText :=
  join ", " (key.fields.map fun f => paramOf U c f ++ lit " " ++ ofText f.dataType)

def argOf (postgreSql : Bool) (f : Field × Nat) : Text :=
  wrapWithRawString f.1.name postgreSql ++
    if postgreSql then " = $".toList ++ Nat.toDigits 10 (f.2 + 1) else " = ?".toList

/-- `convertJoin`. -/
def convertJoin (key : Key) (postgreSql : Bool) : GoText × GoText × Text :=
  (paramsOf U c key, join "," (key.fields.map (paramOf U c)),
    " and ".toList.intercalate (key.fields.zipIdx.map (argOf postgreSql)))

/-- The data of the finder of a key. -/
def findOneByField (table : GenTable) (withCache postgreSql : Bool) (key : Key) : FindOneByField :=
  let camelTableName := c.toCamel table.table.name
  let (params, paramJoinString, originalFieldString) := convertJoin U c key postgreSql
  { upperStartCamelObject := camelTableName
    upperField := c.camelJoin key.fieldNameJoin
    params, withCache
    cacheKey := key.keyExpression
    cacheKeyVariable := key.keyLeft
    lowerStartCamelObject := untitle U camelTableName
    lowerStartCamelField := paramJoinString
    upperStartCamelPrimaryKey := c.toCamel table.table.primaryKey.name
    originalField := originalFieldString
    postgreSql
    data := table }

def findOneByFieldMethod (table : GenTable) (key : Key) : FindOneByFieldMethod :=
  { upperStartCamelObject := c.toCamel table.table.name
    upperField := c.camelJoin key.fieldNameJoin
    params := paramsOf U c key
    data := table }

def genFindOneByField (T : Templates E) (table : GenTable) (withCache postgreSql : Bool) : Except E FindOneCode := do
  let list ← table.uniqueCacheKey.mapM fun key => T.findOneByField (findOneByField U c table withCache postgreSql key)
  let listMethod ← table.uniqueCacheKey.mapM fun key => T.findOneByFieldMethod (findOneByFieldMethod U c table key)
  let cacheExtra ←
    if withCache then
      T.findOneByFieldExtraMethod
        { upperStartCamelObject := c.toCamel table.table.name
          primaryKeyLeft := table.primaryCacheKey.varLeft
          lowerStartCamelObject := untitle U (c.toCamel table.table.name)
          originalPrimaryField := wrapWithRawString table.table.primaryKey.name postgreSql
          postgreSql
          data := table }
    else .ok []
  .ok ⟨join "\n" list, join "\n" listMethod, cacheExtra⟩

end Finders

/-! ## The names in the templates -/

/-- The method that `find-one-by-field.tpl` declares. -/
def FindOneByField.method (v : FindOneByField) : Text :=
  "Find".toList ++ v.upperStartCamelObject ++ "By".toList ++ v.upperField

/-- The finders that `find-one.tpl` declares. -/
def findOneMethods (upperStartCamelObject : Text) : List Text :=
  ["FindOne".toList, "Find".toList ++ upperStartCamelObject]

/-- The variables of the cache keys: those of the package, and those of its functions. -/
def GenTable.variables (table : GenTable) : List Text :=
  (table.primaryCacheKey :: table.uniqueCacheKey).map Key.varLeft ++
    (table.primaryCacheKey :: table.uniqueCacheKey).map Key.keyLeft

end Gen
end Goctl
end ServiceKit
