import ServiceKit.Goprotoc.Codec
import ServiceKit.Lib.Varint

/-!
# `Goprotoc.Wire` — encoded messages, and what they hold

What the bytes of a message are, apart from any reader: `Fields` for their form, down to the groups but not into counted
bytes, and `Wire` with the message that they hold, of which `render` is the listing. Of the end of a group only the type
counts, not its number.
-/

namespace ServiceKit
namespace Goprotoc

open Lib

/-- A number that stands in ten bytes at most; of a larger one 64 bits count. -/
def Number (bs : List UInt8) (v : UInt64) : Prop := ∃ n, Varint bs n ∧ bs.length ≤ 10 ∧ v = UInt64.ofNat n

/-- The tag of a field: its number and its type. -/
def Header (hdr : List UInt8) (t : Nat) (w : WireType) : Prop :=
  ∃ v, Number hdr v ∧ v.toNat / 8 = t ∧ t ≤ maxInt32 ∧ WireType.ofNumber (v.toNat % 8) = w

/-- The tag that a field of this type begins with. -/
def Begins (hdr : List UInt8) (t : Nat) (w : WireType) : Prop := Header hdr t w ∧ Legal t

/-- The end of a group. -/
def Closing (e : List UInt8) : Prop := ∃ t, Header e t .endGroup

/-- The count of some bytes. -/
def Counts (l v : List UInt8) : Prop := ∃ n, Number l n ∧ n.toNat = v.length

/-- Counted bytes, after their count. -/
def Counted (bs v : List UInt8) : Prop := ∃ l, Counts l v ∧ bs = l ++ v

/-- What follows the tag of a field that is not a group. -/
def Payload : WireType → List UInt8 → Prop
  | .varint, bs => ∃ v, Number bs v
  | .fixed32, bs => bs.length = 4
  | .fixed64, bs => bs.length = 8
  | .bytes, bs => ∃ v, Counted bs v
  | .startGroup, _ | .endGroup, _ | .invalid _, _ => False

/-- The bytes are fields, one after the other. -/
inductive Fields : List UInt8 → Prop
  | nil : Fields []
  | field {hdr bs rest : List UInt8} {t : Nat} {w : WireType} (hhdr : Begins hdr t w) (hbs : Payload w bs)
      (hrest : Fields rest) : Fields (hdr ++ (bs ++ rest))
  | group {hdr body e rest : List UInt8} {t : Nat} (hhdr : Begins hdr t .startGroup) (hbody : Fields body)
      (he : Closing e) (hrest : Fields rest) : Fields (hdr ++ (body ++ (e ++ rest)))

/-- A message without its type: its fields in order. Counted bytes are a message, a string or just bytes. -/
inductive Message
  | nil
  | varint (t : Nat) (v : UInt64) (rest : Message)
  | fixed32 (t : Nat) (v : UInt32) (rest : Message)
  | fixed64 (t : Nat) (v : UInt64) (rest : Message)
  | nested (t : Nat) (m rest : Message)
  | text (t : Nat) (v : List UInt8) (rest : Message)
  | raw (t : Nat) (v : List UInt8) (rest : Message)
  | group (t : Nat) (m rest : Message)
  deriving DecidableEq

/-- `isProbablyMessage` ends and says no. -/
def NoMessage (v : List UInt8) : Prop := ∃ fuel, isProbablyMessage fuel v = some .no

/-- The bytes hold the message. -/
inductive Wire : List UInt8 → Message → Prop
  | nil : Wire [] .nil
  | varint {hdr bs rest : List UInt8} {t : Nat} {v : UInt64} {m : Message} (hhdr : Begins hdr t .varint)
      (hbs : Number bs v) (hrest : Wire rest m) : Wire (hdr ++ (bs ++ rest)) (.varint t v m)
  | fixed32 {hdr bs rest : List UInt8} {t : Nat} {m : Message} (hhdr : Begins hdr t .fixed32) (hbs : bs.length = 4)
      (hrest : Wire rest m) :
      Wire (hdr ++ (bs ++ rest)) (.fixed32 t (CodedReader.littleEndian bs 0).toUInt32 m)
  | fixed64 {hdr bs rest : List UInt8} {t : Nat} {m : Message} (hhdr : Begins hdr t .fixed64) (hbs : bs.length = 8)
      (hrest : Wire rest m) : Wire (hdr ++ (bs ++ rest)) (.fixed64 t (CodedReader.littleEndian bs 0) m)
  | nested {hdr bs v rest : List UInt8} {t : Nat} {m' m : Message} (hhdr : Begins hdr t .bytes) (hbs : Counted bs v)
      (hv : Wire v m') (hrest : Wire rest m) : Wire (hdr ++ (bs ++ rest)) (.nested t m' m)
  | text {hdr bs v rest : List UInt8} {t : Nat} {m : Message} (hhdr : Begins hdr t .bytes) (hbs : Counted bs v)
      (hno : NoMessage v) (hv : isProbablyString v = true) (hrest : Wire rest m) :
      Wire (hdr ++ (bs ++ rest)) (.text t v m)
  | raw {hdr bs v rest : List UInt8} {t : Nat} {m : Message} (hhdr : Begins hdr t .bytes) (hbs : Counted bs v)
      (hno : NoMessage v) (hv : isProbablyString v = false) (hrest : Wire rest m) :
      Wire (hdr ++ (bs ++ rest)) (.raw t v m)
  | group {hdr body e rest : List UInt8} {t : Nat} {m' m : Message} (hhdr : Begins hdr t .startGroup)
      (hbody : Wire body m') (he : Closing e) (hrest : Wire rest m) :
      Wire (hdr ++ (body ++ (e ++ rest))) (.group t m' m)

/-- The listing of a message. -/
def render (floats : Floats) (indent : Text) : Message → Text
  | .nil => []
  | .varint t v rest => fieldLine indent t (": ".toList ++ showNumber v.toNat) ++ render floats indent rest
  | .fixed32 t v rest => fieldLine indent t (": ".toList ++ floats.showFloat32 v) ++ render floats indent rest
  | .fixed64 t v rest => fieldLine indent t (": ".toList ++ floats.showFloat64 v) ++ render floats indent rest
  | .nested t m rest =>
      fieldLine indent t ": <".toList ++ render floats (indent ++ "  ".toList) m ++
        (indent ++ ">\n".toList ++ render floats indent rest)
  | .text t v rest => fieldLine indent t (": ".toList ++ quoteString v) ++ render floats indent rest
  | .raw t v rest => fieldLine indent t (": ".toList ++ quoteBytes v) ++ render floats indent rest
  | .group t m rest =>
      fieldLine indent t " \x7b".toList ++ render floats (indent ++ "  ".toList) m ++
        (indent ++ "\x7d\n".toList ++ render floats indent rest)

theorem Wire.fields {bs : List UInt8} {m : Message} (h : Wire bs m) : Fields bs := by
  induction h with
  | nil => exact .nil
  | varint hhdr hbs _ ih => exact .field hhdr ⟨_, hbs⟩ ih
  | fixed32 hhdr hbs _ ih => exact .field hhdr hbs ih
  | fixed64 hhdr hbs _ ih => exact .field hhdr hbs ih
  | nested hhdr hbs _ _ _ ih => exact .field hhdr ⟨_, hbs⟩ ih
  | text hhdr hbs _ _ _ ih => exact .field hhdr ⟨_, hbs⟩ ih
  | raw hhdr hbs _ _ _ ih => exact .field hhdr ⟨_, hbs⟩ ih
  | group hhdr _ he _ ihbody ih => exact .group hhdr ihbody he ih

end Goprotoc
end ServiceKit
