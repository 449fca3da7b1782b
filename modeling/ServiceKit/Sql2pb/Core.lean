import Mathlib.Data.Char
import Mathlib.Data.List.Lex
import Mathlib.Data.List.Sort
import ServiceKit.Sql2pb.Stringx

/-!
# `Sql2pb.Core` — from the columns of a database to protobuf messages

`core.go`: `typesFromColumns` files the columns of the tables into messages, `parseColumn` turns a column into a field
and, for an enumeration, adds an enum, and `Schema.String` prints for each message the requests and responses that are
made from it. The packages that change the words of names are a parameter (`Words`), and so is the order in which Go
ranges over a map.
-/

namespace ServiceKit
namespace Sql2pb

open Lib

/-! ## Rows and messages -/

/-- `snaker.SnakeToCamel` and `inflect.Singularize`. -/
structure Words where
  snakeToCamel : Text → Text
  singularize : Text → Text

/-- A row of `INFORMATION_SCHEMA.COLUMNS`. -/
structure Column where
  tableName : Text
  tableComment : Text
  columnName : Text
  dataType : Text
  columnType : Text
  columnComment : Text
deriving DecidableEq

/-- A field of a message, with its number and its comment. -/
structure MessageField where
  typ : Text
  name : Text
  tag : Nat
  comment : Text
deriving DecidableEq

/-- A message; the name of its field style is kept with it. -/
structure Message where
  name : Text
  comment : Text
  style : Text
  fields : List MessageField
deriving DecidableEq

/-- A value of an enum. -/
structure EnumField where
  name : Text
  tag : Nat
deriving DecidableEq

/-- An enum, of a column of type `enum` or `set`. -/
structure Enum where
  name : Text
  comment : Text
  fields : List EnumField
deriving DecidableEq

/-- What is printed: imports, messages and enums. -/
structure Schema where
  imports : List Text
  messages : List Message
  enums : List Enum
deriving DecidableEq

/-- Why no schema is generated. -/
inductive Failure where
  | unsupported (dataType tableName columnName : Text)
  | tagInUse (tag : Nat) (name : Text)
  /-- An index out of range. -/
  | panic
deriving DecidableEq

/-- The style that keeps the names of columns in snake case. -/
def fieldStyleToSnake : Text := "sql_pb".toList

def isInSlice (slice : List Text) (s : Text) : Bool := slice.any (fun t => t = s)

/-! ## Columns -/

section Columns

variable (U : Unicode) (W : Words)

/-- `Message.AppendField`. -/
def Message.appendField (m : Message) (mf : MessageField) : Except Failure Message :=
  match m.fields.find? (fun f => f.tag = mf.tag) with
  | some f => .error (.tagInUse mf.tag f.name)
  | none => .ok { m with fields := m.fields ++ [mf] }

/-- `Enum.AppendField`. -/
def Enum.appendField (e : Enum) (ef : EnumField) : Except Failure Enum :=
  match e.fields.find? (fun f => f.tag = ef.tag) with
  | some f => .error (.tagInUse ef.tag f.name)
  | none => .ok { e with fields := e.fields ++ [ef] }

/-- `\w` of package `regexp`. -/
def isWord (c : Char) : Bool := c.isAlphanum || c = '_'

/-- `ReplaceAllString` of `([^\w]+)` by `_`; `inRun` is whether the run that is read has its `_` already. -/
def squash : Bool → Text → Text
  | _, [] => []
  | inRun, c :: cs => if isWord c then c :: squash false cs else if inRun then squash true cs else '_' :: squash true cs

/-- A value in upper case, with each run of other runes as one underscore. -/
def newEnumField (name : Text) (tag : Nat) : EnumField := ⟨squash false (name.map U.toUpper), tag⟩

/-- The loop of `newEnumFromStrings`. -/
def appendStrings (e : Enum) : Nat → List Text → Except Failure Enum
  | _, [] => .ok e
  | i, s :: ss => do appendStrings (← e.appendField (newEnumField U s i)) (i + 1) ss

/-- The enum of the values, numbered from 0. -/
def newEnumFromStrings (name comment : Text) (ss : List Text) : Except Failure Enum :=
  appendStrings U ⟨name, comment, []⟩ 0 ss

/-- `.*?\)`: what stands before the first closing parenthesis of the line. -/
def beforeParen : Text → Option Text
  | [] => none
  | c :: cs => if c = ')' then some [] else if c = '\n' then none else (beforeParen cs).map (fun t => c :: t)

/-- `(.+?)\)` -/
def parenBody : Text → Option Text
  | [] => none
  | c :: cs => if c = '\n' then none else (beforeParen cs).map (fun t => c :: t)

/-- The submatch of `[enum|set]\((.+?)\)`. -/
def findEnumList : Text → Option Text
  | [] => none
  | c :: cs =>
      match cs with
      | '(' :: body =>
          if c ∈ "enum|set".toList then
            match parenBody body with
            | some list => some list
            | none => findEnumList cs
          else findEnumList cs
      | _ => findEnumList cs

/-- What the list of values is split at: commas and quotes alike. -/
def enumSeparator (c : Char) : Bool := c = ',' || c = '\''

/-- The name of the enum of a column: that of its message, and that of the column. -/
def enumName (col : Column) : Text := W.singularize (W.snakeToCamel col.tableName) ++ W.snakeToCamel col.columnName

/-- An import is listed once. -/
def Schema.appendImport (s : Schema) (imports : Text) : Schema :=
  if isInSlice s.imports imports then s else { s with imports := s.imports ++ [imports] }

/-- The cases of `enum` and `set`. -/
def parseEnum (s : Schema) (col : Column) : Except Failure Schema :=
  match findEnumList col.columnType with
  | none => .error .panic
  | some list => do
      let enum ← newEnumFromStrings U (enumName W col) col.columnComment (fieldsFunc enumSeparator list)
      .ok { s with enums := s.enums ++ [enum] }

/-- The switch of `parseColumn`: the field type, and the schema after it. -/
def fieldType (s : Schema) (col : Column) : Except Failure (Schema × Text) :=
  let typ := lower U col.dataType
  if isInSlice ["char".toList, "varchar".toList, "text".toList, "longtext".toList, "mediumtext".toList,
      "tinytext".toList] typ then .ok (s, "string".toList)
  else if isInSlice ["enum".toList, "set".toList] typ then do .ok (← parseEnum U W s col, enumName W col)
  else if isInSlice ["blob".toList, "mediumblob".toList, "longblob".toList, "varbinary".toList, "binary".toList] typ then
    .ok (s, "bytes".toList)
  else if isInSlice ["date".toList, "time".toList, "datetime".toList, "timestamp".toList] typ then
    .ok (s.appendImport "google/protobuf/timestamp.proto".toList, "google.protobuf.Timestamp".toList)
  else if isInSlice ["bool".toList, "bit".toList] typ then .ok (s, "bool".toList)
  else if typ = "bigint".toList then .ok (s, "int64".toList)
  else if isInSlice ["tinyint".toList, "smallint".toList, "int".toList, "mediumint".toList] typ then
    .ok (s, if col.columnType = "tinyint(1)".toList then "bool".toList else "int32".toList)
  else if isInSlice ["float".toList, "decimal".toList, "double".toList] typ then .ok (s, "double".toList)
  else if typ = "json".toList then .ok (s, "string".toList)
  else .ok (s, [])

/-- A column is appended to its message, numbered by the fields there are; a type of no case is an error. -/
def parseColumn (s : Schema) (msg : Message) (col : Column) : Except Failure (Schema × Message) := do
  let (s, fieldType) ← fieldType U W s col
  if fieldType = [] then .error (.unsupported col.dataType col.tableName col.columnName)
  else
    let msg ← msg.appendField ⟨fieldType, col.columnName, msg.fields.length + 1, col.columnComment⟩
    .ok (s, msg)

/-! ## Tables -/

/-- Neither the table nor the column is to be ignored. -/
def keptColumn (ignoreTables ignoreColumns : List Text) (c : Column) : Bool :=
  !isInSlice ignoreTables c.tableName && !isInSlice ignoreColumns c.columnName

/-- `messageMap`, a Go map, as its values; the key of a message is its name. -/
abbrev MessageMap := List Message

/-- The message under a name, or the new one for the table of a column. -/
def MessageMap.get (mm : MessageMap) (style : Text) (name : Text) (c : Column) : Message :=
  (mm.find? (fun m => m.name = name)).getD ⟨name, c.tableComment, style, []⟩

/-- `messageMap[messageName] = msg` -/
def MessageMap.set (mm : MessageMap) (msg : Message) : MessageMap :=
  if mm.any (fun m => m.name = msg.name) then mm.map (fun m => if m.name = msg.name then msg else m) else mm ++ [msg]

/-- The body of the loop of `typesFromColumns`, on a column that is not ignored. -/
def addColumn (style : Text) (s : Schema) (mm : MessageMap) (c : Column) : Except Failure (Schema × MessageMap) := do
  let (s, msg) ← parseColumn U W s (mm.get style (W.snakeToCamel c.tableName) c) c
  .ok (s, mm.set msg)

/-- The loop of `typesFromColumns`. -/
def addColumns (style : Text) (ignoreTables ignoreColumns : List Text) :
    Schema → MessageMap → List Column → Except Failure (Schema × MessageMap)
  | s, mm, [] => .ok (s, mm)
  | s, mm, c :: cols =>
      if keptColumn ignoreTables ignoreColumns c then do
        let (s, mm) ← addColumn U W style s mm c
        addColumns style ignoreTables ignoreColumns s mm cols
      else addColumns style ignoreTables ignoreColumns s mm cols

/-- The order of a `range` over the messages. -/
structure MapOrder where
  range : MessageMap → MessageMap
  perm : ∀ mm, (range mm).Perm mm

/-- The messages, in the order of a range over the map. -/
def typesFromColumns (order : MapOrder) (cols : List Column) (ignoreTables ignoreColumns : List Text)
    (fieldStyle : Text) : Except Failure Schema := do
  let (s, messageMap) ← addColumns U W fieldStyle ignoreTables ignoreColumns ⟨[], [], []⟩ [] cols
  .ok { s with messages := order.range messageMap }

/-- `GenerateSchema`, on the columns that the database gives. -/
def generateSchema (order : MapOrder) (cols : List Column) (ignoreTables ignoreColumns : List Text)
    (fieldStyle : Text) : Except Failure Schema := do
  let s ← typesFromColumns U W order cols ignoreTables ignoreColumns fieldStyle
  .ok { imports := s.imports.insertionSort (· ≤ ·)
        messages := s.messages.insertionSort (fun m n => m.name ≤ n.name)
        enums := s.enums.insertionSort (fun e f => e.name ≤ f.name) }

end Columns

/-! ## What is printed -/

section Print

variable (U : Unicode)

/-- The name that a field has in a message of the given style. -/
def convertName (style name : Text) : Text :=
  let name := toCamelWithStartLower U name
  if style = fieldStyleToSnake then toSnake U name else name

/-- The loop that the generators of messages share: the fields that are not skipped, renamed and numbered. -/
def renumber (style : Text) (skip : List Text) : Nat → List MessageField → List MessageField
  | _, [] => []
  | filedTag, f :: fs =>
      if isInSlice skip f.name then renumber style skip filedTag fs
      else
        let name := convertName U style f.name
        ⟨f.typ, name, filedTag + 1, if f.comment = [] then name else f.comment⟩ :: renumber style skip (filedTag + 1) fs

/-- The columns that the default message and the List request leave out. -/
def hiddenColumns : List Text := ["version".toList, "del_state".toList, "delete_time".toList]

/-- The name of a field that holds a whole message. -/
def messageFieldName (style name : Text) : Text :=
  if style = fieldStyleToSnake then toSnake U name else toCamelWithStartLower U name

/-- The one field of a message that holds a message. -/
def messageField (m : Message) (typ name : Text) : MessageField :=
  ⟨typ, messageFieldName U m.style name, 1, messageFieldName U m.style name⟩

/-- The first byte of a rune in UTF-8. -/
def firstByte (c : Char) : Nat :=
  if c.toNat < 0x80 then c.toNat
  else if c.toNat < 0x800 then 0xC0 + c.toNat / 0x40
  else if c.toNat < 0x10000 then 0xE0 + c.toNat / 0x1000
  else 0xF0 + c.toNat / 0x40000

/-- `strings.ToLower(string(m.Name[0]))`, before `mOrginName[1:]`, as it is ranged over: `m.Name[0]` is a byte, and each
    other byte of a rune outside ASCII is read as U+FFFD. -/
def lowerFirst : Text → Option Text
  | [] => none
  | c :: cs => some (U.toLower (Char.ofNat (firstByte c)) :: List.replicate (c.utf8Size - 1) '\ufffd' ++ cs)

/-- The field of the requests that name one row. -/
def idField : MessageField := ⟨"int64".toList, "id".toList, 1, "id".toList⟩

/-- The message of the table itself. -/
def Message.genDefaultMessage (m : Message) : List Message :=
  [{ m with fields := renumber U m.style hiddenColumns 0 m.fields }]

-- the renumbered fields of the requests to insert and to update are not printed: the assignment is commented out
def Message.genRpcAddReqRespMessage (m : Message) : List Message :=
  [{ m with name := "Insert".toList ++ m.name ++ "Req".toList, fields := [messageField U m m.name m.name] },
    { m with name := "Insert".toList ++ m.name ++ "Resp".toList, fields := [] }]

def Message.genRpcUpdateReqMessage (m : Message) : List Message :=
  [{ m with name := "Update".toList ++ m.name ++ "Req".toList, fields := [messageField U m m.name m.name] },
    { m with name := "Update".toList ++ m.name ++ "Resp".toList, fields := [] }]

/-- Request and response that delete a row. -/
def Message.genRpcDelReqMessage (m : Message) : List Message :=
  [{ m with name := "Del".toList ++ m.name ++ "Req".toList, fields := [idField] },
    { m with name := "Del".toList ++ m.name ++ "Resp".toList, fields := [] }]

/-- Request and response that find a row; none where the name is empty and `m.Name[0]` panics. -/
def Message.genRpcGetByIdReqMessage (m : Message) : Option (List Message) := do
  let lowered ← lowerFirst U m.name
  some [{ m with name := "Find".toList ++ m.name ++ "ByIdReq".toList, fields := [idField] },
    { m with name := "Find".toList ++ m.name ++ "ByIdResp".toList, fields := [messageField U m m.name lowered] }]

/-- The fields that the List request has before those of the table. -/
def pageFields : List MessageField :=
  [⟨"int64".toList, "page".toList, 1, "page".toList⟩, ⟨"int64".toList, "limit".toList, 2, "limit".toList⟩]

/-- Request and response that list rows, with the columns of the table behind the page. -/
def Message.genRpcSearchReqMessage (m : Message) : Option (List Message) := do
  let lowered ← lowerFirst U m.name
  some [{ m with
      name := "List".toList ++ m.name ++ "Req".toList
      fields := pageFields ++ renumber U m.style hiddenColumns pageFields.length m.fields },
    { m with
      name := "List".toList ++ m.name ++ "Resp".toList
      fields := [messageField U m ("repeated ".toList ++ m.name) lowered] }]

/-- The messages that are printed for a table, in order. -/
def Message.print (m : Message) : Option (List Message) := do
  let find ← m.genRpcGetByIdReqMessage U
  let list ← m.genRpcSearchReqMessage U
  some (m.genDefaultMessage U ++ m.genRpcAddReqRespMessage U ++ m.genRpcUpdateReqMessage U ++ m.genRpcDelReqMessage ++
    find ++ list)

/-- The messages of `Schema.String`; none when it panics. -/
def Schema.print (s : Schema) : Option (List Message) := (s.messages.mapM (Message.print U)).map List.flatten

end Print

end Sql2pb
end ServiceKit
