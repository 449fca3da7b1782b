import ServiceKit.Sql2pb.Stringx

/-!
# `Goctl.Stringx` — how goctl makes names

Packages `util` and `util/stringx`. `splitBy` and `IsEmptyOrSpace` are those of `Sql2pb.Stringx`, a copy of the package.
`Untitle` reads the first byte of a string as a rune: what it makes of a string that begins with another rune is no
UTF-8 (`GoText`).
-/

namespace ServiceKit
namespace Goctl

open Lib Sql2pb

/-- What a `range` over a string meets: a rune, or a byte that is part of none. -/
inductive Piece where
  | rune (c : Char)
  | stray (b : UInt8)
deriving DecidableEq

/-- A Go `string` that need not be UTF-8. -/
abbrev GoText := List Piece

def ofText (s : Text) : GoText := s.map .rune

/-- A string constant of the source. -/
def lit (s : String) : GoText := ofText s.toList

/-- `strings.Join`. -/
def join (sep : String) (items : List GoText) : GoText := (lit sep).intercalate items

/-- `cases.Title(language.English, cases.NoLower)`, on the words that goctl puts into names itself. -/
structure Caser where
  title : Text → Text
  title_affix : title "prefix".toList = "Prefix".toList
  title_key : title "key".toList = "Key".toList

/-! ## `util/stringx` -/

def Caser.toTitle (c : Caser) (s : Text) : Text := if isEmptyOrSpace s then s else c.title s

def Caser.toCamel (c : Caser) (s : Text) : Text := ((splitBy (fun r => r = '_') true s).map c.toTitle).flatten

/-- `Join.Camel().With("")`. -/
def Caser.camelJoin (c : Caser) (items : List Text) : Text := (items.map c.toCamel).flatten

/-- `Untitle`, on the first rune of a string. -/
def untitleRune (U : Unicode) (c : Char) : GoText :=
  match String.utf8EncodeChar c with
  | [] => [.rune c]
  | b :: bs =>
      if !U.isUpper (Char.ofNat b.toNat) && !U.isLower (Char.ofNat b.toNat) then [.rune c]
      else .rune (U.toLower (Char.ofNat b.toNat)) :: bs.map .stray

def untitle (U : Unicode) (s : Text) : GoText :=
  if isEmptyOrSpace s then ofText s
  else
    match s with
    | [] => []
    | c :: cs => untitleRune U c ++ ofText cs

/-! ## `util/string.go` -/

def goKeyword : List (String × String) :=
  [("var", "variable"), ("const", "constant"), ("package", "pkg"), ("func", "function"), ("return", "rtn"),
    ("defer", "dfr"), ("go", "goo"), ("select", "slt"), ("struct", "structure"), ("interface", "itf"),
    ("chan", "channel"), ("type", "tp"), ("map", "mp"), ("range", "rg"), ("break", "brk"), ("case", "caz"),
    ("continue", "ctn"), ("for", "fr"), ("fallthrough", "fth"), ("else", "es"), ("if", "ef"), ("switch", "swt"),
    ("goto", "gt"), ("default", "dft")]

def escapeGolangKeyword (s : GoText) : GoText :=
  match goKeyword.find? fun e => lit e.1 = s with
  | some e => lit e.2
  | none => s

/-- More than the letters lie between `A` and `z`. -/
def isLetter (r : Char) : Bool := 'A' ≤ r && r ≤ 'z'

def isNumber (r : Char) : Bool := '0' ≤ r && r ≤ '9'

def isSafeRune (r : Char) : Bool := isLetter r || isNumber r || r = '_'

/-- The mapping of `SafeString`. -/
def safeRune (r : Char) : Char := if isSafeRune r then r else '_'

def safePiece : Piece → Char
  | .rune c => safeRune c
  | .stray _ => '_'

def safeString (s : GoText) : Text :=
  match s.map safePiece with
  | [] => []
  | headRune :: data => if isNumber headRune then '_' :: headRune :: data else headRune :: data

end Goctl
end ServiceKit
