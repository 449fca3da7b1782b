import Mathlib.Data.List.TakeWhile
import ServiceKit.Lib.Text

/-!
# `Sql2pb.Stringx` — the case conversions of names

`tools/stringx`: `splitBy` cuts a text at runes that it drops or keeps, and the conversions to camel case and to snake
case are built on it.
-/

namespace ServiceKit
namespace Sql2pb

open Lib

variable (U : Unicode)

def isEmptyOrSpace (s : Text) : Bool := s.isEmpty || (trimSpace s).isEmpty

theorem isEmptyOrSpace_of_mem {s : Text} {r : Char} (hr : r ∈ s) (hspace : isSpace r = false) :
    isEmptyOrSpace s = false := by
  have hdrop : s.dropWhile isSpace ≠ [] := by
    intro hnil
    have hall := List.dropWhile_eq_nil_iff.mp hnil r hr
    simp [hspace] at hall
  have hhead : isSpace ((s.dropWhile isSpace).head hdrop) = false := by
    simpa using List.head_dropWhile_not isSpace hdrop
  have htrim : trimSpace s ≠ [] := by
    intro hnil
    have hnil : (s.dropWhile isSpace).reverse.dropWhile isSpace = [] := List.reverse_eq_nil_iff.mp hnil
    have hall := List.dropWhile_eq_nil_iff.mp hnil _ (List.mem_reverse.mpr (List.head_mem hdrop))
    simp [hhead] at hall
  have hs : s ≠ [] := List.ne_nil_of_mem hr
  simp [isEmptyOrSpace, hs, htrim]

def lower (s : Text) : Text := s.map U.toLower

/-- `isSeparator` of package `strings`: the runes that a word begins after. -/
def isSeparator (c : Char) : Bool :=
  if c.val ≤ 0x7F then !(c.isAlphanum || c = '_')
  else if U.isLetter c || U.isDigit c then false
  else isSpace c

/-- `strings.Title`, after the rune `prev`. -/
def titleFrom : Char → Text → Text
  | _, [] => []
  | prev, c :: cs => (if isSeparator U prev then U.toTitle c else c) :: titleFrom c cs

def title (s : Text) : Text := if isEmptyOrSpace s then s else titleFrom U ' ' s

/-- The loop of `splitBy`, with its buffer. -/
def splitFrom (fn : Char → Bool) (remove : Bool) : Text → Text → List Text
  | buffer, [] => if buffer = [] then [] else [buffer]
  | buffer, r :: rs =>
      if fn r then
        let rest := splitFrom fn remove (if remove then [] else [r]) rs
        if buffer = [] then rest else buffer :: rest
      else splitFrom fn remove (buffer ++ [r]) rs

def splitBy (fn : Char → Bool) (remove : Bool) (s : Text) : List Text :=
  if isEmptyOrSpace s then [] else splitFrom fn remove [] s

def toCamelWithStartLower (s : Text) : Text :=
  match splitBy (fun r => r = '_') true s with
  | [] => []
  | item :: items => item ++ (items.map (title U)).flatten

def toSnake (s : Text) : Text := ['_'].intercalate ((splitBy U.isUpper false s).map (lower U))

example : toCamelWithStartLower Unicode.ascii "user_2nd_id".toList = "user2ndId".toList := by decide
example : toSnake Unicode.ascii "user2ndId".toList = "user2nd_id".toList := by decide

end Sql2pb
end ServiceKit
