import Mathlib.Data.Nat.Digits.Lemmas

/-!
# `Lib.Decimal` — decimal texts of integers

The ASCII text of an integer, a minus sign before the digits of a negative one, and the way back.
-/

namespace ServiceKit
namespace Lib
namespace Decimal

/-- The decimal text of a number. -/
def natText (k : ℕ) : List UInt8 :=
  if k = 0 then [48] else (Nat.digits 10 k).reverse.map (fun d => UInt8.ofNat (48 + d))

def natOf (s : List UInt8) : ℕ := Nat.ofDigits 10 (s.reverse.map (fun c => c.toNat - 48))

theorem toNat_digit {d : ℕ} (hd : d < 10) : (UInt8.ofNat (48 + d)).toNat = 48 + d := by
  rw [UInt8.toNat_ofNat']
  omega

theorem natOf_natText (k : ℕ) : natOf (natText k) = k := by
  unfold natOf natText
  split
  · next h => rw [h]; rfl
  · rw [← List.map_reverse, List.reverse_reverse, List.map_map]
    have hdigits : (Nat.digits 10 k).map ((fun c : UInt8 => c.toNat - 48) ∘ fun d => UInt8.ofNat (48 + d))
        = (Nat.digits 10 k).map id := by
      apply List.map_congr_left
      intro d hd
      show (UInt8.ofNat (48 + d)).toNat - 48 = d
      rw [toNat_digit (Nat.digits_lt_base (by omega) hd)]
      omega
    rw [hdigits, List.map_id, Nat.ofDigits_digits]

theorem natText_ne_nil (k : ℕ) : natText k ≠ [] := by
  unfold natText
  split
  · exact nofun
  · next h => simpa using Nat.digits_ne_nil_iff_ne_zero.mpr h

/-- No digit is a minus sign. -/
theorem ne_minus_of_mem_natText {k : ℕ} {c : UInt8} (hc : c ∈ natText k) : c ≠ 45 := by
  unfold natText at hc
  split at hc
  · rw [List.mem_singleton.mp hc]
    decide
  · obtain ⟨d, hd, rfl⟩ := List.mem_map.mp hc
    have hlt : d < 10 := Nat.digits_lt_base (by omega) (List.mem_reverse.mp hd)
    intro heq
    have hnat := toNat_digit hlt
    rw [heq] at hnat
    have h45 : (45 : UInt8).toNat = 45 := rfl
    omega

/-- The decimal text of an integer. -/
def intText : ℤ → List UInt8
  | .ofNat k => natText k
  | .negSucc k => 45 :: natText (k + 1)

def intOf (s : List UInt8) : ℤ := if s.head? = some 45 then -(natOf s.tail : ℤ) else natOf s

theorem intOf_intText (n : ℤ) : intOf (intText n) = n := by
  unfold intOf
  cases n with
  | ofNat k =>
      rw [if_neg]
      · exact congrArg Int.ofNat (natOf_natText k)
      · intro hhead
        exact ne_minus_of_mem_natText (List.mem_of_head? hhead) rfl
  | negSucc k =>
      have hhead : (intText (Int.negSucc k)).head? = some 45 := rfl
      rw [if_pos hhead]
      show -((natOf (natText (k + 1)) : ℕ) : ℤ) = _
      rw [natOf_natText]
      rfl

theorem intText_ne_nil (n : ℤ) : intText n ≠ [] := by
  cases n with
  | ofNat k => exact natText_ne_nil k
  | negSucc k => exact nofun

end Decimal
end Lib
end ServiceKit
