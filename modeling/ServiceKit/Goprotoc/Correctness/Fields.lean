import ServiceKit.Goprotoc.Correctness.Varints
import ServiceKit.Lib.Utf8

/-!
# `Goprotoc.Correctness.Fields` — what the reader makes of the parts of a field

A function of the reader reads a form (`Reads`): where the bytes have it, it gives what they hold and stands after them,
else it gives an error and does not panic. Tags, fixed numbers and counted bytes are read so; what `skip` and the search
for the end of a varint do is said next to them.
-/

namespace ServiceKit
namespace Goprotoc

open Lib

variable {α : Type} {done rest bs hdr : List UInt8} {t : Nat} {w : WireType} {cb : CodedReader}

/-- The bytes fit into a slice; no machine has one so long. -/
def Fits (done rest : List UInt8) : Prop := done.length + rest.length < 2 ^ 62

theorem Fits.move (h : Fits done (bs ++ rest)) : Fits (done ++ bs) rest := by
  rw [Fits, List.length_append] at *
  omega

/-- A function of the reader reads a form. -/
structure Reads (read : CodedReader → Except Fault (α × CodedReader)) (form : List UInt8 → α → Prop) : Prop where
  complete : ∀ {done bs rest a}, Fits done (bs ++ rest) → form bs a →
    read (reading done (bs ++ rest)) = .ok (a, reading (done ++ bs) rest)
  sound : ∀ done rest, Fits done rest →
    (∃ bs a rest', rest = bs ++ rest' ∧ form bs a) ∨ ∃ e, read (reading done rest) = .error (.error e)

theorem reads_number : Reads CodedReader.decodeVarint Number where
  complete _ h := decodeVarint_of_number h _ _
  sound done rest _ := number_or_error done rest

/-- **Varints.** The unrolled reader agrees with the loop, on all bytes and wherever it stands: the same number, the same
    place after it, the same errors. Both read what holds a number, and panic on nothing while the reader stands within
    its bytes. -/
theorem decodeVarint_reads :
    (∀ cb : CodedReader, cb.decodeVarint = cb.decodeVarintSlow) ∧ Reads CodedReader.decodeVarint Number ∧
      Reads CodedReader.decodeVarintSlow Number := by
  have hagree : ∀ cb : CodedReader, cb.decodeVarint = cb.decodeVarintSlow := CodedReader.decodeVarint_eq_slow
  refine ⟨hagree, reads_number, ?_⟩
  rw [← funext hagree]
  exact reads_number

/-! ## Tags -/

theorem toNat_and_7 (v : UInt64) : (v &&& 7).toNat = v.toNat % 8 := by
  rw [UInt64.toNat_and]
  exact Nat.and_two_pow_sub_one_eq_mod v.toNat 3

theorem toNat_shiftRight_3 (v : UInt64) : (v >>> 3).toNat = v.toNat / 8 := by
  rw [UInt64.toNat_shiftRight]
  exact Nat.shiftRight_eq_div_pow v.toNat 3

theorem reads_header :
    Reads CodedReader.decodeTagAndWireType fun hdr (tw : Nat × WireType) => Header hdr tw.1 tw.2 where
  complete := by
    rintro done hdr rest ⟨t, w⟩ hfits ⟨v, hv, rfl, ht, rfl⟩
    rw [CodedReader.decodeTagAndWireType, reads_number.complete hfits hv]
    simp only
    rw [toNat_shiftRight_3, if_neg (Nat.not_lt.mpr ht), toNat_and_7]
  sound done rest hfits := by
    rcases reads_number.sound done rest hfits with ⟨hdr, v, rest', rfl, hv⟩ | ⟨e, he⟩
    · by_cases ht : v.toNat / 8 ≤ maxInt32
      · exact .inl ⟨hdr, (v.toNat / 8, .ofNumber (v.toNat % 8)), rest', rfl, v, hv, rfl, ht, rfl⟩
      · refine .inr ⟨.tagOutOfRange (v >>> 3), ?_⟩
        rw [CodedReader.decodeTagAndWireType, reads_number.complete hfits hv]
        simp only
        rw [toNat_shiftRight_3, if_pos (Nat.lt_of_not_le ht)]
    · refine .inr ⟨e, ?_⟩
      rw [CodedReader.decodeTagAndWireType, he]

theorem Number.ne_nil {v : UInt64} (h : Number bs v) : bs ≠ [] := by
  obtain ⟨n, hbs, -⟩ := h
  exact hbs.ne_nil

theorem Header.length_pos (h : Header hdr t w) : 0 < hdr.length := by
  obtain ⟨v, hv, -⟩ := h
  exact List.length_pos_iff.mpr hv.ne_nil

theorem Header.append_ne_nil (h : Header hdr t w) (rest : List UInt8) : hdr ++ rest ≠ [] :=
  List.append_ne_nil_of_left_ne_nil (List.length_pos_iff.mp h.length_pos) rest

/-! ## Fixed numbers and counted bytes -/

theorem reads_fixed (size : Nat) (hsize : size < 2 ^ 63) :
    Reads (CodedReader.decodeFixed size) fun bs v => bs.length = size ∧ v = CodedReader.littleEndian bs 0 where
  complete := by
    rintro done bs rest v hfits ⟨rfl, rfl⟩
    have hslice : ((done ++ (bs ++ rest)).drop done.length).take bs.length = bs := by
      rw [List.drop_left, List.take_left]
    rw [CodedReader.decodeFixed]
    simp only [reading, Int.toNat_natCast, hslice]
    rw [if_neg, if_neg (by omega)]
    · simp
    · simp
      omega
  sound done rest hfits := by
    by_cases hle : size ≤ rest.length
    · refine .inl ⟨rest.take size, _, rest.drop size, (List.take_append_drop size rest).symm, ?_, rfl⟩
      rw [List.length_take, Nat.min_eq_left hle]
    · refine .inr ⟨.unexpectedEOF, ?_⟩
      rw [CodedReader.decodeFixed]
      simp only [reading, List.length_append]
      rw [if_pos (by omega)]

theorem wrap_of_lt {n : Int} (h : n < 2 ^ 63) (h' : -2 ^ 63 ≤ n) : wrap n = n := by
  rw [wrap, Int.bmod_eq_of_le] <;> omega

theorem toInt_of_lt {n : UInt64} (h : n.toNat < 2 ^ 63) : toInt n = n.toNat := wrap_of_lt (by omega) (by omega)

theorem toInt_of_ge {n : UInt64} (h : 2 ^ 63 ≤ n.toNat) : toInt n = n.toNat - 2 ^ 64 := by
  have hlt := n.toNat_lt
  rw [toInt, wrap, Int.bmod_def]
  split <;> omega

theorem reads_bytes : Reads CodedReader.decodeRawBytes Counted where
  complete := by
    rintro done _ rest v hfits ⟨l, ⟨n, hl, hn⟩, rfl⟩
    rw [List.append_assoc] at hfits ⊢
    have hlength : done.length + (l.length + (v.length + rest.length)) < 2 ^ 62 := by
      simpa [Fits] using hfits
    have hint : toInt n = v.length := by rw [toInt_of_lt (by omega), hn]
    have hslice : (((done ++ l) ++ (v ++ rest)).drop (done ++ l).length).take v.length = v := by
      rw [List.drop_left, List.take_left]
    rw [CodedReader.decodeRawBytes, reads_number.complete hfits hl]
    simp only [reading, Int.toNat_natCast, hint, hslice]
    rw [if_neg (by omega), wrap_of_lt (by simp; omega) (by omega), if_neg (by simp; omega)]
    simp
    omega
  sound done rest hfits := by
    rcases reads_number.sound done rest hfits with ⟨l, n, rest, rfl, hl⟩ | ⟨e, he⟩
    · have hlength : done.length + (l.length + rest.length) < 2 ^ 62 := by simpa [Fits] using hfits
      by_cases hle : n.toNat ≤ rest.length
      · refine .inl ⟨l ++ rest.take n.toNat, _, rest.drop n.toNat, ?_, l, ⟨n, hl, ?_⟩, rfl⟩
        · rw [List.append_assoc, List.take_append_drop]
        · rw [List.length_take, Nat.min_eq_left hle]
      · rw [CodedReader.decodeRawBytes, reads_number.complete hfits hl]
        by_cases hbig : 2 ^ 63 ≤ n.toNat
        · have hlt := n.toNat_lt
          refine .inr ⟨.badByteLength (n.toNat - 2 ^ 64), ?_⟩
          simp only [toInt_of_ge hbig]
          rw [if_pos (by omega)]
        · refine .inr ⟨.unexpectedEOF, ?_⟩
          simp only [toInt_of_lt (Nat.lt_of_not_le hbig), reading, List.length_append]
          rw [if_neg (by omega), if_pos]
          rw [wrap, Int.bmod_def]
          split <;> omega
    · refine .inr ⟨e, ?_⟩
      rw [CodedReader.decodeRawBytes, he]

/-! ## Strings -/

theorem decode_encodeChar (c : Char) (bs : List UInt8) :
    (String.utf8EncodeChar c ++ bs).toByteArray.utf8DecodeChar? 0 = some c := by
  rw [List.toByteArray_append]
  exact ByteArray.utf8DecodeChar?_utf8EncodeChar_append

theorem encodeChar_of_decode {r : Char} (h : bs.toByteArray.utf8DecodeChar? 0 = some r) :
    ∃ rest, bs = String.utf8EncodeChar r ++ rest := by
  obtain ⟨l, hl⟩ := ByteArray.exists_of_utf8DecodeChar?_eq_some h
  refine ⟨l.data.toList, ?_⟩
  have hdata := congrArg (fun b : ByteArray => b.data.toList) hl
  simpa using hdata

theorem isProbablyStringFrom_iff (n : Nat) {v : List UInt8} (hn : v.length ≤ n) :
    isProbablyStringFrom n v = true ↔ ∃ text, GoSource.utf8 text = v ∧ '\uFFFD' ∉ text := by
  induction n generalizing v with
  | zero =>
      obtain rfl := List.length_eq_zero_iff.mp (Nat.le_zero.mp hn)
      exact ⟨fun _ => ⟨[], rfl, by simp⟩, fun _ => rfl⟩
  | succ n ih =>
      by_cases hnil : v = []
      · subst hnil
        exact ⟨fun _ => ⟨[], rfl, by simp⟩, fun _ => rfl⟩
      · rw [isProbablyStringFrom, if_neg (by simpa using hnil)]
        cases hdecode : v.toByteArray.utf8DecodeChar? 0 with
        | none =>
            refine ⟨fun h => absurd h Bool.false_ne_true, ?_⟩
            rintro ⟨text, rfl, -⟩
            cases text with
            | nil => exact absurd rfl hnil
            | cons c text =>
                rw [Utf8.utf8_cons, decode_encodeChar] at hdecode
                cases hdecode
        | some r =>
            obtain ⟨rest, rfl⟩ := encodeChar_of_decode hdecode
            have hdrop : (String.utf8EncodeChar r ++ rest).drop r.utf8Size = rest :=
              List.drop_left' (String.length_utf8EncodeChar r)
            have hlength : rest.length ≤ n := by
              have hpos := Char.utf8Size_pos r
              rw [List.length_append, String.length_utf8EncodeChar] at hn
              omega
            have hcons : ∀ text, GoSource.utf8 text = String.utf8EncodeChar r ++ rest ↔
                ∃ text', text = r :: text' ∧ GoSource.utf8 text' = rest := by
              intro text
              constructor
              · intro htext
                cases text with
                | nil => exact absurd htext.symm hnil
                | cons c text =>
                    obtain ⟨rfl, hrest⟩ := Utf8.encodeChar_append_inj ((Utf8.utf8_cons c text).symm.trans htext)
                    exact ⟨text, rfl, hrest⟩
              · rintro ⟨text', rfl, rfl⟩
                exact Utf8.utf8_cons r text'
            simp only [hdrop]
            by_cases hr : r = '\uFFFD'
            · rw [if_pos hr]
              refine ⟨fun h => absurd h Bool.false_ne_true, ?_⟩
              rintro ⟨text, htext, hnot⟩
              obtain ⟨text', rfl, -⟩ := (hcons text).mp htext
              exact absurd (hr ▸ List.mem_cons_self) hnot
            · rw [if_neg hr, ih hlength]
              constructor
              · rintro ⟨text, htext, hnot⟩
                refine ⟨r :: text, (hcons _).mpr ⟨text, rfl, htext⟩, ?_⟩
                exact fun hmem => (List.mem_cons.mp hmem).elim (fun heq => hr heq.symm) hnot
              · rintro ⟨text, htext, hnot⟩
                obtain ⟨text', rfl, htext'⟩ := (hcons text).mp htext
                exact ⟨text', htext', fun hmem => hnot (List.mem_cons_of_mem _ hmem)⟩

/-- What is taken for a string: the bytes of a text without the rune of an error. -/
theorem isProbablyString_iff (v : List UInt8) :
    isProbablyString v = true ↔ ∃ text, GoSource.utf8 text = v ∧ '\uFFFD' ∉ text :=
  isProbablyStringFrom_iff v.length (Nat.le_refl _)

end Goprotoc
end ServiceKit
