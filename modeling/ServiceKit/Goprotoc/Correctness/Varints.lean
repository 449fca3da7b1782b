import ServiceKit.Goprotoc.Wire

/-!
# `Goprotoc.Correctness.Varints` — what the reader takes for a number

The unrolled `decodeVarint` agrees with the loop of `decodeVarintSlow` on all bytes and at every place
(`decodeVarint_eq_slow`). A reader between `done` and `rest` (`reading`) reads a number exactly when one of ten bytes at
most stands there, and of a number too large the lowest 64 bits (`decodeVarint_of_number`, `number_or_error`).
-/

namespace ServiceKit
namespace Goprotoc

open Lib

/-! ## Bytes and shifts -/

theorem lt_0x80_iff (b : UInt8) : b < 0x80 ↔ b.toNat < 128 := UInt8.lt_iff_toNat_lt

theorem toNat_and_0x7F (y : UInt64) : (y &&& 0x7F).toNat = y.toNat % 128 := by
  rw [UInt64.toNat_and]
  exact Nat.and_two_pow_sub_one_eq_mod y.toNat 7

/-- The high bit of a byte. -/
theorem and_0x80_eq_zero_iff {n : Nat} (hn : n < 256) : n &&& 128 = 0 ↔ n < 128 := by
  have hbits : ∀ k : Fin 256, k.val &&& 128 = 0 ↔ k.val < 128 := by decide +kernel
  exact hbits ⟨n, hn⟩

theorem continues_iff (b : UInt8) : b &&& 0x80 = 0 ↔ b.toNat < 128 := by
  rw [← UInt8.toNat_inj, UInt8.toNat_and]
  exact and_0x80_eq_zero_iff b.toNat_lt

theorem continues_iff_toUInt64 (b : UInt8) : b.toUInt64 &&& 0x80 = 0 ↔ b.toNat < 128 := by
  rw [← UInt64.toNat_inj, UInt64.toNat_and, UInt8.toNat_toUInt64]
  exact and_0x80_eq_zero_iff b.toNat_lt

section Shifts

variable {x y shift : UInt64} {s : Nat} {b : UInt8}

theorem toNat_shl (hshift : shift.toNat = s) (hs : s < 64) : (y <<< shift).toNat = y.toNat * 2 ^ s % 2 ^ 64 := by
  rw [UInt64.toNat_shiftLeft, hshift, Nat.mod_eq_of_lt hs, Nat.shiftLeft_eq]

/-- Bits above all that are set: a sum, and no more than 64 of them stay. -/
theorem toNat_or_shl (hshift : shift.toNat = s) (hs : s < 64) (hx : x.toNat < 2 ^ s) :
    (x ||| (y <<< shift)).toNat = (x.toNat + y.toNat * 2 ^ s) % 2 ^ 64 := by
  have hpow : 2 ^ 64 = 2 ^ (64 - s) * 2 ^ s := by rw [← Nat.pow_add, Nat.sub_add_cancel (Nat.le_of_lt hs)]
  have hhigh : y.toNat * 2 ^ s % 2 ^ 64 = 2 ^ s * (y.toNat % 2 ^ (64 - s)) := by
    rw [hpow, Nat.mul_mod_mul_right, Nat.mul_comm]
  have hlt : 2 ^ s * (y.toNat % 2 ^ (64 - s)) + x.toNat < 2 ^ 64 := by
    have hmod : y.toNat % 2 ^ (64 - s) + 1 ≤ 2 ^ (64 - s) := Nat.mod_lt _ (Nat.two_pow_pos _)
    calc 2 ^ s * (y.toNat % 2 ^ (64 - s)) + x.toNat
        < 2 ^ s * (y.toNat % 2 ^ (64 - s)) + 2 ^ s := Nat.add_lt_add_left hx _
      _ = 2 ^ s * (y.toNat % 2 ^ (64 - s) + 1) := (Nat.mul_succ _ _).symm
      _ ≤ 2 ^ s * 2 ^ (64 - s) := Nat.mul_le_mul_left _ hmod
      _ = 2 ^ 64 := by rw [hpow, Nat.mul_comm]
  have hsum : (x.toNat + y.toNat * 2 ^ s) % 2 ^ 64 = 2 ^ s * (y.toNat % 2 ^ (64 - s)) + x.toNat := by
    rw [← Nat.add_mod_mod, hhigh, Nat.add_comm, Nat.mod_eq_of_lt hlt]
  rw [hsum, UInt64.toNat_or, toNat_shl hshift hs, hhigh, Nat.or_comm, Nat.two_pow_add_eq_or_of_lt hx]

/-- What the loop adds for a byte. -/
theorem toNat_or_byte (hshift : shift.toNat = s) (hs : s < 64) (hx : x.toNat < 2 ^ s) :
    (x ||| ((b.toUInt64 &&& 0x7F) <<< shift)).toNat = (x.toNat + b.toNat % 128 * 2 ^ s) % 2 ^ 64 := by
  rw [toNat_or_shl hshift hs hx, toNat_and_0x7F, UInt8.toNat_toUInt64]

theorem toNat_or_byte_lt (hshift : shift.toNat = s) (hs : s < 64) (hx : x.toNat < 2 ^ s) :
    (x ||| ((b.toUInt64 &&& 0x7F) <<< shift)).toNat < 2 ^ (s + 7) := by
  have hmod : b.toNat % 128 ≤ 127 := Nat.le_of_lt_succ (Nat.mod_lt _ (by decide))
  have hmul := Nat.mul_le_mul_right (2 ^ s) hmod
  have hle := Nat.mod_le (x.toNat + b.toNat % 128 * 2 ^ s) (2 ^ 64)
  rw [toNat_or_byte hshift hs hx, Nat.pow_add]
  omega

/-- What a block of `decodeVarint` adds for the last byte of a number. -/
theorem add_last (hshift : shift.toNat = s) (hs : s < 64) (hx : x.toNat < 2 ^ s) (hb : b.toNat < 128) :
    x + (b.toUInt64 <<< shift) = x ||| ((b.toUInt64 &&& 0x7F) <<< shift) := by
  apply UInt64.toNat_inj.mp
  rw [toNat_or_byte hshift hs hx, UInt64.toNat_add, toNat_shl hshift hs, UInt8.toNat_toUInt64, Nat.mod_eq_of_lt hb,
    Nat.add_mod_mod]

/-- What it adds for another byte, the high bit taken off again. -/
theorem add_more (hshift : shift.toNat = s) (hs : s < 64) (hx : x.toNat < 2 ^ s) (hb : 128 ≤ b.toNat) :
    x + (b.toUInt64 <<< shift) - ((0x80 : UInt64) <<< shift) = x ||| ((b.toUInt64 &&& 0x7F) <<< shift) := by
  have hbyte := b.toNat_lt
  have hsplit : b.toNat * 2 ^ s = b.toNat % 128 * 2 ^ s + 128 * 2 ^ s := by
    rw [← Nat.add_mul]
    congr 1
    omega
  have hhigh : ((0x80 : UInt64) <<< shift).toNat = 128 * 2 ^ s % 2 ^ 64 := toNat_shl hshift hs
  apply UInt64.toNat_inj.mp
  rw [toNat_or_byte hshift hs hx, UInt64.toNat_sub, hhigh, UInt64.toNat_add, toNat_shl hshift hs, UInt8.toNat_toUInt64,
    hsplit]
  omega

end Shifts

/-- Shifts that go on from `s` by seven. -/
def Along : Nat → List UInt64 → Prop
  | _, [] => True
  | s, shift :: shifts => shift.toNat = s ∧ s < 64 ∧ Along (s + 7) shifts

theorem along_shifts : Along 0 CodedReader.shifts := by
  simp [Along, CodedReader.shifts]

/-! ## The fast path -/

namespace CodedReader

variable {cb : CodedReader}

theorem fastFrom_eq_slowFrom (shifts : List UInt64) {s : Nat} {i : Int} {x : UInt64} (halong : Along s shifts)
    (hx : x.toNat < 2 ^ s) (henough : i + shifts.length ≤ cb.buf.length) :
    cb.fastFrom shifts i x = cb.slowFrom shifts i x := by
  induction shifts generalizing s i x with
  | nil => rfl
  | cons shift shifts ih =>
      obtain ⟨hshift, hs, hrest⟩ := halong
      rw [List.length_cons] at henough
      rw [fastFrom, slowFrom, if_neg (by omega)]
      cases cb.byteAt i with
      | error e => rfl
      | ok b =>
          simp only
          by_cases hb : b.toNat < 128
          · rw [if_pos ((continues_iff_toUInt64 b).mpr hb), if_pos ((lt_0x80_iff b).mpr hb), add_last hshift hs hx hb]
          · rw [if_neg (mt (continues_iff_toUInt64 b).mp hb), if_neg (mt (lt_0x80_iff b).mp hb),
              add_more hshift hs hx (Nat.le_of_not_lt hb)]
            exact ih hrest (toNat_or_byte_lt hshift hs hx) (by omega)

/-- The unrolled reader agrees with the loop. -/
theorem decodeVarint_eq_slow (cb : CodedReader) : cb.decodeVarint = cb.decodeVarintSlow := by
  rw [decodeVarint, decodeVarintSlow, shifts, slowFrom]
  by_cases heof : cb.buf.length ≤ cb.index
  · rw [if_pos heof, if_pos heof]
  · rw [if_neg heof, if_neg heof]
    cases cb.byteAt cb.index with
    | error e => rfl
    | ok b =>
        simp only
        by_cases hb : b.toNat < 128
        · have hfirst : (0 : UInt64) + (b.toUInt64 <<< (0 : UInt64)) = 0 ||| ((b.toUInt64 &&& 0x7F) <<< (0 : UInt64)) :=
            add_last rfl (by decide) (by decide) hb
          rw [if_pos ((lt_0x80_iff b).mpr hb), if_pos ((lt_0x80_iff b).mpr hb), ← hfirst]
          simp
        · have hfirst : (0 : UInt64) + (b.toUInt64 <<< (0 : UInt64)) - ((0x80 : UInt64) <<< (0 : UInt64)) =
              0 ||| ((b.toUInt64 &&& 0x7F) <<< (0 : UInt64)) :=
            add_more rfl (by decide) (by decide) (Nat.le_of_not_lt hb)
          have hlt : (0 ||| ((b.toUInt64 &&& 0x7F) <<< (0 : UInt64))).toNat < 2 ^ (0 + 7) :=
            toNat_or_byte_lt rfl (by decide) (by decide)
          rw [if_neg (mt (lt_0x80_iff b).mp hb), if_neg (mt (lt_0x80_iff b).mp hb)]
          split
          · rfl
          · next hlong =>
              have hx : (b.toUInt64 - 0x80 : UInt64) = (0 : UInt64) ||| ((b.toUInt64 &&& 0x7F) <<< (0 : UInt64)) := by
                rw [← hfirst]
                simp
              rw [hx]
              exact fastFrom_eq_slowFrom _ along_shifts.2.2 hlt (by simp; omega)

end CodedReader

/-! ## Numbers -/

/-- A reader between what it has read and what is left. -/
def reading (done rest : List UInt8) : CodedReader := ⟨done ++ rest, done.length⟩

section Reading

variable {done rest bs : List UInt8} {b : UInt8} {n : Nat} {v : UInt64} {cb : CodedReader}

theorem newCodedReader_eq (data : List UInt8) : CodedReader.newCodedReader data = reading [] data := rfl

theorem length_le_index_iff (hbuf : cb.buf = done ++ rest) : (cb.buf.length : Int) ≤ done.length ↔ rest = [] := by
  rw [hbuf, List.length_append, ← List.length_eq_zero_iff]
  omega

theorem eof_reading : (reading done rest).eof = true ↔ rest = [] := by
  rw [CodedReader.eof, decide_eq_true_iff]
  exact length_le_index_iff rfl

theorem byteAt_of_buf (hbuf : cb.buf = done ++ b :: rest) : cb.byteAt done.length = .ok b := by
  have hget : (done ++ b :: rest)[done.length]? = some b := by simp
  rw [CodedReader.byteAt, if_neg (by omega), Int.toNat_natCast, hbuf, hget]

/-- The bytes before the next one. -/
theorem buf_snoc (hbuf : cb.buf = done ++ b :: rest) : cb.buf = (done ++ [b]) ++ rest := by
  rw [hbuf, List.append_assoc]
  rfl

theorem length_snoc (done : List UInt8) (b : UInt8) : (done.length : Int) + 1 = (done ++ [b]).length := by
  rw [List.length_append]
  rfl

theorem slowFrom_of_varint (h : Varint bs n) {shifts : List UInt64} {s : Nat} {x : UInt64} (halong : Along s shifts)
    (hx : x.toNat < 2 ^ s) (henough : bs.length ≤ shifts.length) (hbuf : cb.buf = done ++ (bs ++ rest)) :
    cb.slowFrom shifts done.length x =
      .ok (UInt64.ofNat (x.toNat + n * 2 ^ s), { cb with index := (done ++ bs).length }) := by
  induction h generalizing done shifts s x with
  | @last b hb =>
      cases shifts with
      | nil => exact absurd henough (by simp)
      | cons shift shifts =>
          obtain ⟨hshift, hs, -⟩ := halong
          have hne : ¬ (cb.buf.length : Int) ≤ done.length := fun hle => by simpa using (length_le_index_iff hbuf).mp hle
          have hvalue : x ||| ((b.toUInt64 &&& 0x7F) <<< shift) = UInt64.ofNat (x.toNat + b.toNat * 2 ^ s) := by
            apply UInt64.toNat_inj.mp
            rw [toNat_or_byte hshift hs hx, UInt64.toNat_ofNat', Nat.mod_eq_of_lt hb]
          rw [CodedReader.slowFrom, if_neg hne, byteAt_of_buf hbuf]
          simp only
          rw [if_pos ((lt_0x80_iff b).mpr hb), hvalue, length_snoc]
  | @more b bs n hb hbs ih =>
      cases shifts with
      | nil => exact absurd henough (by simp)
      | cons shift shifts =>
          obtain ⟨hshift, hs, hrest⟩ := halong
          have hbyte := b.toNat_lt
          have hne : ¬ (cb.buf.length : Int) ≤ done.length := fun hle => by simpa using (length_le_index_iff hbuf).mp hle
          have hvalue : UInt64.ofNat ((x ||| ((b.toUInt64 &&& 0x7F) <<< shift)).toNat + n * 2 ^ (s + 7)) =
              UInt64.ofNat (x.toNat + (b.toNat - 128 + 128 * n) * 2 ^ s) := by
            have hlow : b.toNat % 128 = b.toNat - 128 := by omega
            apply UInt64.toNat_inj.mp
            rw [UInt64.toNat_ofNat', UInt64.toNat_ofNat', toNat_or_byte hshift hs hx, Nat.mod_add_mod, hlow, Nat.pow_add]
            congr 1
            ring
          rw [CodedReader.slowFrom, if_neg hne, byteAt_of_buf hbuf]
          simp only
          rw [if_neg (fun hlt => absurd ((lt_0x80_iff b).mp hlt) (Nat.not_lt.mpr hb)), length_snoc done b,
            ih hrest (toNat_or_byte_lt hshift hs hx) (Nat.le_of_succ_le_succ henough) (buf_snoc hbuf), hvalue,
            List.append_assoc, List.singleton_append]

/-- Where the loop finds a number there is one, and it never panics. -/
theorem varint_of_slowFrom (cb : CodedReader) (shifts : List UInt64) (x : UInt64) (hbuf : cb.buf = done ++ rest) :
    (∃ bs n rest', rest = bs ++ rest' ∧ Varint bs n ∧ bs.length ≤ shifts.length) ∨
      ∃ e, cb.slowFrom shifts done.length x = .error (.error e) := by
  induction shifts generalizing done rest x with
  | nil => exact .inr ⟨_, rfl⟩
  | cons shift shifts ih =>
      cases rest with
      | nil => exact .inr ⟨_, by rw [CodedReader.slowFrom, if_pos ((length_le_index_iff hbuf).mpr rfl)]⟩
      | cons b rest =>
          have hne : ¬ (cb.buf.length : Int) ≤ done.length := fun hle => by simpa using (length_le_index_iff hbuf).mp hle
          by_cases hb : b.toNat < 128
          · exact .inl ⟨[b], b.toNat, rest, rfl, .last hb, by simp⟩
          · rcases ih (x ||| ((b.toUInt64 &&& 0x7F) <<< shift)) (buf_snoc hbuf) with
              ⟨bs, n, rest', rfl, hbs, hlength⟩ | ⟨e, he⟩
            · exact .inl ⟨b :: bs, _, rest', rfl, .more (Nat.le_of_not_lt hb) hbs, by simpa using hlength⟩
            · refine .inr ⟨e, ?_⟩
              rw [CodedReader.slowFrom, if_neg hne, byteAt_of_buf hbuf]
              simp only
              rw [if_neg (mt (lt_0x80_iff b).mp hb), length_snoc done b, he]

/-- What the unrolled reader makes of a number. -/
theorem decodeVarint_of_number (h : Number bs v) (done rest : List UInt8) :
    (reading done (bs ++ rest)).decodeVarint = .ok (v, reading (done ++ bs) rest) := by
  obtain ⟨n, hbs, hlength, rfl⟩ := h
  have hslow : (reading done (bs ++ rest)).slowFrom CodedReader.shifts done.length 0 = _ :=
    slowFrom_of_varint hbs along_shifts (by decide) hlength rfl
  rw [CodedReader.decodeVarint_eq_slow, CodedReader.decodeVarintSlow]
  refine hslow.trans ?_
  simp [reading]

theorem number_or_error (done rest : List UInt8) :
    (∃ bs v rest', rest = bs ++ rest' ∧ Number bs v) ∨ ∃ e, (reading done rest).decodeVarint = .error (.error e) := by
  rcases varint_of_slowFrom (reading done rest) CodedReader.shifts 0 rfl with
    ⟨bs, n, rest', rfl, hbs, hlength⟩ | ⟨e, he⟩
  · exact .inl ⟨bs, _, rest', rfl, n, hbs, hlength, rfl⟩
  · refine .inr ⟨e, ?_⟩
    rw [CodedReader.decodeVarint_eq_slow]
    exact he

end Reading

end Goprotoc
end ServiceKit
