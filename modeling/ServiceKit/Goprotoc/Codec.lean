import ServiceKit.Goprotoc.Reader
import ServiceKit.Lib.Text

/-!
# `Goprotoc.Codec` — encoded messages printed without their types

`codec.go` of `app/goprotoc`, as far as `--decode_raw` goes: `decodeRawMessage` prints a line for each field, and
what it takes for a message or a group with more indent. What `%f` makes of the bits of a float is a parameter.
-/

namespace ServiceKit
namespace Goprotoc

open Lib

/-- `%f` of the floats that have these bits. -/
structure Floats where
  showFloat32 : UInt32 → Text
  showFloat64 : UInt64 → Text

/-- `%d` -/
def showNumber (n : Nat) : Text := Nat.toDigits 10 n

/-- `\%03o` -/
def escaped (c : UInt8) : Text :=
  '\\' :: (List.replicate (3 - (Nat.toDigits 8 c.toNat).length) '0' ++ Nat.toDigits 8 c.toNat)

def quoteByte (c : UInt8) : Text :=
  if c = 10 then "\\n".toList
  else if c = 13 then "\\r".toList
  else if c = 9 then "\\t".toList
  -- a quote is left out, only its backslash is written
  else if c = 34 then "\\".toList
  else if c = 92 then "\\\\".toList
  else if 0x20 ≤ c ∧ c < 0x7f then [Char.ofNat c.toNat]
  else escaped c

def quoteString (s : List UInt8) : Text := '"' :: (s.flatMap quoteByte ++ ['"'])

def quoteBytes (b : List UInt8) : Text := '"' :: (b.flatMap escaped ++ ['"'])

/-- What is printed, and how the function returns: with the reader where it stopped, or a fault. -/
abbrev Printed := Option (Text × Except Fault CodedReader)

def Printed.after (line : Text) (p : Printed) : Printed := p.map fun r => (line ++ r.1, r.2)

def Printed.andThen (p : Printed) (next : CodedReader → Printed) : Printed :=
  match p with
  | none => none
  | some (out, .error e) => some (out, .error e)
  | some (out, .ok cb) => (next cb).after out

/-- `%s%d`, and the rest of the line -/
def fieldLine (indent : Text) (t : Nat) (text : Text) : Text := indent ++ showNumber t ++ text ++ ['\n']

section Switch

variable (floats : Floats) (goOn : CodedReader → Text → Bool → Printed) (guess : List UInt8 → Option Guess)

/-- The switch of `decodeRawMessage`; `goOn` is its loop, and the call for a message or a group. -/
def decodeField (t : Nat) (indent : Text) (inGroup : Bool) (cb : CodedReader) : WireType → Printed
  | .varint =>
      match cb.decodeVarint with
      | .error e => some ([], .error e)
      | .ok (v, cb) => (goOn cb indent inGroup).after (fieldLine indent t (": ".toList ++ showNumber v.toNat))
  | .fixed32 =>
      match cb.decodeFixed32 with
      | .error e => some ([], .error e)
      | .ok (v, cb) =>
          (goOn cb indent inGroup).after (fieldLine indent t (": ".toList ++ floats.showFloat32 v.toUInt32))
  | .fixed64 =>
      match cb.decodeFixed64 with
      | .error e => some ([], .error e)
      | .ok (v, cb) => (goOn cb indent inGroup).after (fieldLine indent t (": ".toList ++ floats.showFloat64 v))
  | .bytes =>
      match cb.decodeRawBytes with
      | .error e => some ([], .error e)
      | .ok (v, cb) =>
          match guess v with
          | none => none
          | some .panic => some ([], .error .panic)
          | some (.yes _) =>
              ((goOn (.newCodedReader v) (indent ++ "  ".toList) false).after
                (fieldLine indent t ": <".toList)).andThen fun _ =>
                  (goOn cb indent inGroup).after (indent ++ ">\n".toList)
          | some .no =>
              let quoted := if isProbablyString v then quoteString v else quoteBytes v
              (goOn cb indent inGroup).after (fieldLine indent t (": ".toList ++ quoted))
  | .startGroup =>
      ((goOn cb (indent ++ "  ".toList) true).after (fieldLine indent t " \x7b".toList)).andThen fun cb =>
        (goOn cb indent inGroup).after (indent ++ "\x7d\n".toList)
  | .endGroup => some ([], .error (.error (.invalidWireType 4)))
  | .invalid n => some ([], .error (.error (.invalidWireType n)))

end Switch

/-- `decodeRawMessage`: nothing where the fuel, one for each field, is used up. -/
def decodeRawMessage (floats : Floats) : Nat → CodedReader → Text → Bool → Printed
  | 0, _, _, _ => none
  | fuel + 1, cb, indent, inGroup =>
      if cb.eof then some ([], if inGroup then .error (.error .unexpectedEOF) else .ok cb)
      else
        match cb.decodeTagAndWireType with
        | .error e => some ([], .error e)
        | .ok ((t, wt), cb) =>
            if wt = .endGroup then some ([], if inGroup then .ok cb else .error (.error .unexpectedEndGroup))
            else if ¬ Legal t then some ([], .error (.error (.illegalTag t)))
            else decodeField floats (decodeRawMessage floats fuel) (isProbablyMessage fuel) t indent inGroup cb wt

/-- `doDecodeRaw` -/
def doDecodeRaw (floats : Floats) (fuel : Nat) (data : List UInt8) : Printed :=
  decodeRawMessage floats fuel (.newCodedReader data) [] false

end Goprotoc
end ServiceKit
