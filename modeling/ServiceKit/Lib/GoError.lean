import Mathlib.Data.Nat.Notation

/-!
# `Lib.GoError` — strings and errors of Go

A `GoString` is a sequence of bytes, a `GoErr` what Go's constructors of errors make: of the errors that
external calls return nothing is known, so their type `E` is a parameter.
-/

namespace ServiceKit
namespace Lib

/-- A Go `string` or `[]byte`: its bytes, valid UTF-8 or not. -/
abbrev GoString := List UInt8

/-- The Go string of a literal. -/
def str (s : String) : GoString := s.toUTF8.data.toList

/-- A Go `error`: one that an external call returned, one made from a text, or a wrapped one. -/
inductive GoErr (E : Type) where
  | external (err : E)
  | text (msg : String)
  | wrapped (format : String) (err : GoErr E)
  deriving DecidableEq

end Lib
end ServiceKit
