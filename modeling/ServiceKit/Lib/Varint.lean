import Mathlib.Tactic

/-!
# `Lib.Varint` — numbers as bytes of seven bits

`Varint bs n`: the bytes `bs` hold `n`, the lowest seven bits first, and all but the last have their high bit set. How
many bytes there are bounds the number (`Varint.lt_two_pow`).
-/

namespace ServiceKit
namespace Lib

/-- The bytes hold the number. -/
inductive Varint : List UInt8 → Nat → Prop
  | last {b : UInt8} (hb : b.toNat < 128) : Varint [b] b.toNat
  | more {b : UInt8} {bs : List UInt8} {n : Nat} (hb : 128 ≤ b.toNat) (hbs : Varint bs n) :
      Varint (b :: bs) (b.toNat - 128 + 128 * n)

namespace Varint

variable {bs : List UInt8} {n : Nat}

theorem ne_nil (h : Varint bs n) : bs ≠ [] := by
  cases h with
  | last hb => exact List.cons_ne_nil _ _
  | more hb hbs => exact List.cons_ne_nil _ _

theorem lt_two_pow (h : Varint bs n) : n < 2 ^ (7 * bs.length) := by
  induction h with
  | last hb => exact hb
  | @more b bs n hb hbs ih =>
      have hbyte := b.toNat_lt
      have hpow : 2 ^ (7 * (b :: bs).length) = 128 * 2 ^ (7 * bs.length) := by
        rw [List.length_cons, Nat.mul_succ, Nat.pow_add, Nat.mul_comm]
      rw [hpow]
      omega

end Varint

end Lib
end ServiceKit
