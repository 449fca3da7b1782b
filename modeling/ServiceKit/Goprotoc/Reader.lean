import Mathlib.Tactic

/-!
# `Goprotoc.Reader` — the reader of encoded messages

`reader.go` of `app/goprotoc`: the cursor over the bytes of a message, what it reads (varints, tags, fixed numbers,
counted bytes), and the guess whether bytes are a message. An `int` has 64 bits: a count read as one may be negative, and
`skip` then goes back, also to before the first byte, where the next access panics.
-/

namespace ServiceKit
namespace Goprotoc

/-! ## Bytes and faults -/

inductive ReadError
  /-- `io.ErrUnexpectedEOF` -/
  | unexpectedEOF
  /-- `errOverflow` -/
  | overflow
  | badByteLength (n : Int)
  | tagOutOfRange (v : UInt64)
  | unexpectedEndGroup
  | illegalTag (t : Nat)
  | invalidWireType (n : Nat)
  deriving DecidableEq

/-- An error that is returned, or an index out of range. -/
inductive Fault
  | error (e : ReadError)
  | panic
  deriving DecidableEq

/-- `protowire.Type` -/
inductive WireType
  | varint
  | fixed64
  | bytes
  | startGroup
  | endGroup
  | fixed32
  | invalid (n : Nat)
  deriving DecidableEq

/-- The type of the lowest three bits of a tag. -/
def WireType.ofNumber : Nat → WireType
  | 0 => .varint
  | 1 => .fixed64
  | 2 => .bytes
  | 3 => .startGroup
  | 4 => .endGroup
  | 5 => .fixed32
  | n => .invalid n

/-- `codedReader`: the bytes, and where it stands among them. -/
structure CodedReader where
  buf : List UInt8
  index : Int
  deriving DecidableEq

/-- What 64 bits keep of a sum of two `int`s. -/
def wrap (n : Int) : Int := n.bmod (2 ^ 64)

/-- `int(n)` -/
def toInt (n : UInt64) : Int := wrap n.toNat

/-- The largest number of a field. -/
def maxTag : Nat := 536870911

/-- The numbers from here to `specialReservedEnd` are reserved. -/
def specialReservedStart : Nat := 19000

def specialReservedEnd : Nat := 19999

/-- `math.MaxInt32` -/
def maxInt32 : Nat := 2147483647

/-! ## Reading -/

namespace CodedReader

def newCodedReader (buf : List UInt8) : CodedReader := ⟨buf, 0⟩

/-- `cb.buf[i]` -/
def byteAt (cb : CodedReader) (i : Int) : Except Fault UInt8 :=
  if i < 0 then .error .panic
  else
    match cb.buf[i.toNat]? with
    | some b => .ok b
    | none => .error .panic

/-- Nothing is left to read. -/
def eof (cb : CodedReader) : Bool := cb.buf.length ≤ cb.index

/-- `skip`: nothing past the last byte; a negative count goes back, and is not checked. -/
def skip (cb : CodedReader) (count : Int) : Option CodedReader :=
  let newIndex := wrap (cb.index + count)
  if cb.buf.length < newIndex then none else some { cb with index := newIndex }

/-- The values of `shift` in the loop of `decodeVarintSlow`. -/
def shifts : List UInt64 := [0, 7, 14, 21, 28, 35, 42, 49, 56, 63]

/-- The rounds of `decodeVarintSlow` that are left. -/
def slowFrom (cb : CodedReader) : List UInt64 → Int → UInt64 → Except Fault (UInt64 × CodedReader)
  | [], _, _ => .error (.error .overflow)
  | shift :: shifts, i, x =>
      if cb.buf.length ≤ i then .error (.error .unexpectedEOF)
      else
        match cb.byteAt i with
        | .error e => .error e
        | .ok b =>
            let x := x ||| ((b.toUInt64 &&& 0x7F) <<< shift)
            if b < 0x80 then .ok (x, { cb with index := i + 1 }) else cb.slowFrom shifts (i + 1) x

/-- The loop: at most ten bytes, of which each gives seven bits. -/
def decodeVarintSlow (cb : CodedReader) : Except Fault (UInt64 × CodedReader) := cb.slowFrom shifts cb.index 0

/-- The blocks of `decodeVarint` that are left, each for the next byte. -/
def fastFrom (cb : CodedReader) : List UInt64 → Int → UInt64 → Except Fault (UInt64 × CodedReader)
  | [], _, _ => .error (.error .overflow)
  | shift :: shifts, i, x =>
      match cb.byteAt i with
      | .error e => .error e
      | .ok b =>
          let x := x + (b.toUInt64 <<< shift)
          if b.toUInt64 &&& 0x80 = 0 then .ok (x, { cb with index := i + 1 })
          -- the last block leaves this out: `0x80 << 63` is zero
          else cb.fastFrom shifts (i + 1) (x - ((0x80 : UInt64) <<< shift))

/-- The unrolled loop, where ten bytes are left, and the loop elsewhere; one byte below 128 is a number by itself. -/
def decodeVarint (cb : CodedReader) : Except Fault (UInt64 × CodedReader) :=
  if cb.buf.length ≤ cb.index then .error (.error .unexpectedEOF)
  else
    match cb.byteAt cb.index with
    | .error e => .error e
    | .ok b =>
        if b < 0x80 then .ok (b.toUInt64, { cb with index := cb.index + 1 })
        else if cb.buf.length - cb.index < 10 then cb.decodeVarintSlow
        else cb.fastFrom shifts.tail (cb.index + 1) (b.toUInt64 - 0x80)

/-- A tag: the number of a field, and how its value is encoded. -/
def decodeTagAndWireType (cb : CodedReader) : Except Fault ((Nat × WireType) × CodedReader) :=
  match cb.decodeVarint with
  | .error e => .error e
  | .ok (v, cb) =>
      let wireType := WireType.ofNumber (v &&& 7).toNat
      let v := v >>> 3
      if maxInt32 < v.toNat then .error (.error (.tagOutOfRange v)) else .ok ((v.toNat, wireType), cb)

/-- The bytes of a number, the lowest first. -/
def littleEndian : List UInt8 → UInt64 → UInt64
  | [], _ => 0
  | b :: bs, shift => (b.toUInt64 <<< shift) ||| littleEndian bs (shift + 8)

/-- `decodeFixed64` and `decodeFixed32`: a number of so many bytes. -/
def decodeFixed (size : Nat) (cb : CodedReader) : Except Fault (UInt64 × CodedReader) :=
  let i := cb.index + size
  if i < 0 ∨ cb.buf.length < i then .error (.error .unexpectedEOF)
  else if cb.index < 0 then .error .panic
  else .ok (littleEndian ((cb.buf.drop cb.index.toNat).take size) 0, { cb with index := i })

def decodeFixed64 (cb : CodedReader) : Except Fault (UInt64 × CodedReader) := cb.decodeFixed 8

def decodeFixed32 (cb : CodedReader) : Except Fault (UInt64 × CodedReader) := cb.decodeFixed 4

/-- A count, and that many bytes. -/
def decodeRawBytes (cb : CodedReader) : Except Fault (List UInt8 × CodedReader) :=
  match cb.decodeVarint with
  | .error e => .error e
  | .ok (n, cb) =>
      let nb := toInt n
      if nb < 0 then .error (.error (.badByteLength nb))
      else
        let stop := wrap (cb.index + nb)
        if stop < cb.index ∨ cb.buf.length < stop then .error (.error .unexpectedEOF)
        else .ok ((cb.buf.drop cb.index.toNat).take nb.toNat, { cb with index := cb.index + nb })

/-- The search for the last byte of a varint, with so many bytes to the limit. -/
def varintEnd (cb : CodedReader) : Nat → Int → Except Fault (Option Int)
  | 0, _ => .ok none
  | n + 1, i =>
      if cb.buf.length ≤ i then .ok none
      else
        match cb.byteAt i with
        | .error e => .error e
        | .ok b => if b &&& 0x80 = 0 then .ok (some i) else cb.varintEnd n (i + 1)

end CodedReader

/-! ## Guessing -/

/-- What `isProbablyMessage` comes to: true, with the reader where it stopped, or false, or a panic. -/
inductive Guess
  | yes (cb : CodedReader)
  | no
  | panic
  deriving DecidableEq

/-- A fault on the way: an error means false. -/
def Fault.guess : Fault → Guess
  | .error _ => .no
  | .panic => .panic

/-- A number that the tags of fields may have. -/
def Legal (t : Nat) : Prop := (1 ≤ t ∧ t ≤ maxTag) ∧ ¬ (specialReservedStart ≤ t ∧ t ≤ specialReservedEnd)

instance (t : Nat) : Decidable (Legal t) := inferInstanceAs (Decidable (_ ∧ _))

/-- The switch of `isProbablyMessage`; `goOn` is its loop, and the call for a group. -/
def CodedReader.skipField (goOn : CodedReader → Bool → Option Guess) (inGroup : Bool) (cb : CodedReader) :
    WireType → Option Guess
  | .varint =>
      match cb.varintEnd 10 cb.index with
      | .error e => some e.guess
      | .ok none => some .no
      | .ok (some i) => goOn { cb with index := i + 1 } inGroup
  | .fixed32 =>
      match cb.skip 4 with
      | none => some .no
      | some cb => goOn cb inGroup
  | .fixed64 =>
      match cb.skip 8 with
      | none => some .no
      | some cb => goOn cb inGroup
  | .bytes =>
      match cb.decodeVarint with
      | .error e => some e.guess
      | .ok (l, cb) =>
          match cb.skip (toInt l) with
          | none => some .no
          | some cb => goOn cb inGroup
  | .startGroup =>
      match goOn cb true with
      | some (.yes cb) => goOn cb inGroup
      | guess => guess
  | .endGroup | .invalid _ => some .no

/-- After a count come that many bytes, and the next field. -/
theorem skipField_count {goOn : CodedReader → Bool → Option Guess} {inGroup : Bool} {cb cb' : CodedReader}
    {skipped : Option CodedReader} {v : UInt64} (h : cb.decodeVarint = .ok (v, cb'))
    (hskip : cb'.skip (toInt v) = skipped) :
    cb.skipField goOn inGroup .bytes = (skipped.map fun cb => goOn cb inGroup).getD (some .no) := by
  rw [CodedReader.skipField, h]
  simp only [hskip]
  cases skipped with
  | none => rfl
  | some cb => rfl

/-- `isProbablyMessage`: nothing where the fuel, one for each field, is used up. -/
def CodedReader.isProbablyMessage : Nat → CodedReader → Bool → Option Guess
  | 0, _, _ => none
  | fuel + 1, cb, inGroup =>
      if cb.eof then some (if inGroup then .no else .yes cb)
      else
        match cb.decodeTagAndWireType with
        | .error e => some e.guess
        | .ok ((t, w), cb) =>
            if w = .endGroup then some (if inGroup then .yes cb else .no)
            else if ¬ Legal t then some .no
            else cb.skipField (isProbablyMessage fuel) inGroup w

/-- The guess whether bytes are a message, from their first. -/
def isProbablyMessage (fuel : Nat) (data : List UInt8) : Option Guess :=
  (CodedReader.newCodedReader data).isProbablyMessage fuel false

/-- `isProbablyString`: nothing but runes, none of them `utf8.RuneError`; a round for each byte is enough. -/
def isProbablyStringFrom : Nat → List UInt8 → Bool
  | 0, data => data.isEmpty
  | n + 1, data =>
      if data.isEmpty then true
      else
        match data.toByteArray.utf8DecodeChar? 0 with
        | none => false
        | some r => if r = '\uFFFD' then false else isProbablyStringFrom n (data.drop r.utf8Size)

/-- The guess whether bytes are a text. -/
def isProbablyString (data : List UInt8) : Bool := isProbablyStringFrom data.length data

end Goprotoc
end ServiceKit
