import ServiceKit.Goctl.InfoSchema
import ServiceKit.Lib.Glob
import ServiceKit.Lib.Regexp

/-!
# `Goctl.Command` — which tables of a database a model is generated for

`model/sql/command/command.go`: the lists of tables are cut at commas into sets of entries (`parseTableList`). A table
of the database is taken when an entry of the one list matches it as a glob, unless an entry of the other does, or is
found in it as a regular expression.
-/

namespace ServiceKit
namespace Goctl
namespace Command

open Lib
open Lib.Glob (filepathMatch)

/-- `pattern`, a set of entries. -/
abbrev Pattern := GoMap Text Unit

def parseTableList (tableValue : List Text) : Pattern :=
  tableValue.foldl
    (fun tablePattern v => putAll tablePattern ((fieldsFunc (fun r => r = ',') v).map fun f => (f, ()))) ∅

/-- The loop of `Match`; an entry that is no pattern is reported on the console and left out. -/
def matchEntries (s : Text) : List (Entry Text Unit) → Bool
  | [] => false
  | v :: rest =>
      match filepathMatch v.1 s with
      | .error _ => matchEntries s rest
      | .ok true => true
      | .ok false => matchEntries s rest

/-- `pattern.Match`. -/
def Pattern.matches (order : RangeOrder Text) (p : Pattern) (s : Text) : Bool := matchEntries s (order.range p)

/-- The loop that reads the entries as regular expressions; one that does not compile is left out. -/
def foundEntry (regexp : Compiler) (item : Text) : List (Entry Text Unit) → Bool
  | [] => false
  | tableStr :: rest =>
      match regexp.compile tableStr.1 with
      | some reg => if reg.matchString item then true else foundEntry regexp item rest
      | none => foundEntry regexp item rest

/-- A table that `tableIgnorePat` excludes. -/
def ignored (regexp : Compiler) (order : RangeOrder Text) (tableIgnorePat : Pattern) (item : Text) : Bool :=
  if tableIgnorePat.keys.length > 0 then
    if tableIgnorePat.matches order item then true else foundEntry regexp item (order.range tableIgnorePat)
  else false

structure DataSourceArg where
  url : Text
  tablePat : Pattern
  tableIgnorePat : Pattern

/-- What is not part of the program: the compiler of regular expressions, the order of ranges and of sorting, and the
    `information_schema` of the data source. -/
structure Env where
  regexp : Compiler
  order : RangeOrder Text
  sort : SortSlice
  /-- `mysql.ParseDSN`: the name of the database, or an error. -/
  parseDSN : Text → Except Text Text
  getAllTables : (databaseSource database : Text) → Except InfoSchema.QueryError (List Text)
  conn : (databaseSource : Text) → InfoSchema.Conn

/-- The tables are selected, and not excluded. -/
def kept (env : Env) (arg : DataSourceArg) (item : Text) : Bool :=
  arg.tablePat.matches env.order item && !ignored env.regexp env.order arg.tableIgnorePat item

/-- The loop of `fromMysqlDataSource` that fills `matchTables`. -/
def matchTables (env : Env) (arg : DataSourceArg) (conn : InfoSchema.Conn) (db : Text) :
    GoMap Text InfoSchema.Table → List Text → Except InfoSchema.Failure (GoMap Text InfoSchema.Table)
  | tables, [] => .ok tables
  | tables, item :: rest =>
      if kept env arg item then
        match InfoSchema.findColumns env.sort conn db item with
        | .error e => .error e
        | .ok columnData =>
            match columnData.convert env.order with
            -- `logx` is disabled by then: the error is not seen
            | .error _ => matchTables env arg conn db tables rest
            | .ok table => matchTables env arg conn db (tables.insert item table) rest
      else matchTables env arg conn db tables rest

/-- `strings.TrimSuffix`. -/
def trimSuffix (s suffix : Text) : Text := if suffix.isSuffixOf s then s.take (s.length - suffix.length) else s

/-- How `fromMysqlDataSource` ends: with a line on the console, an error, or the tables for the generator. -/
inductive Outcome where
  | logged (message : Text)
  | invalidDSN (message : Text)
  | failed (e : InfoSchema.Failure)
  | error (message : Text)
  | generate (matchTables : GoMap Text InfoSchema.Table)

def fromMysqlDataSource (env : Env) (arg : DataSourceArg) : Outcome :=
  if arg.url.length = 0 then .logged "expected data source of mysql, but nothing found".toList
  else if arg.tablePat.keys.length = 0 then
    .logged "expected table or table globbing patterns, but nothing found".toList
  else
    match env.parseDSN arg.url with
    | .error message => .invalidDSN message
    | .ok dbName =>
        let databaseSource := trimSuffix arg.url ('/' :: dbName) ++ "/information_schema".toList
        match env.getAllTables databaseSource dbName with
        | .error e => .failed (.query e)
        | .ok tables =>
            match matchTables env arg (env.conn databaseSource) dbName ∅ tables with
            | .error e => .failed e
            | .ok tables => if tables.keys.length = 0 then .error "no tables matched".toList else .generate tables

end Command
end Goctl
end ServiceKit
