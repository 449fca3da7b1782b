import ServiceKit.Goprotoc.Correctness.Fields

/-!
# `Goprotoc.Correctness.Guesses` — what is taken for a message

`isProbablyMessage` says yes of all bytes that are fields (`guess_of_fields`). Where no number of the bytes has its
highest bit set it always ends, and says no of all others (`guess_iff`). A count with that bit set is negative and leads
back: where it leads to the beginning the function never ends (`never_guesses`).
-/

namespace ServiceKit
namespace Goprotoc

open Lib

variable {done rest bs hdr e : List UInt8} {t fuel : Nat} {w : WireType} {inGroup : Bool}

/-! ## Steps -/

/-- Where a list of fields ends: with the bytes, or with the end of the group. -/
def Stops (inGroup : Bool) (e rest : List UInt8) : Prop :=
  if inGroup then Closing e else e = [] ∧ rest = []

/-- What stands at the head of the bytes, for both loops. -/
theorem head_cases (done rest : List UInt8) (hfits : Fits done rest) :
    rest = [] ∨
    (∃ hdr t w rest', rest = hdr ++ rest' ∧ Header hdr t w) ∨
    (rest ≠ [] ∧ ∃ e, (reading done rest).decodeTagAndWireType = .error (.error e)) := by
  rcases reads_header.sound done rest hfits with ⟨hdr, ⟨t, w⟩, rest', rfl, hhdr⟩ | he
  · exact .inr (.inl ⟨hdr, t, w, rest', rfl, hhdr⟩)
  · by_cases hnil : rest = []
    · exact .inl hnil
    · exact .inr (.inr ⟨hnil, he⟩)

theorem eof_header (h : Header hdr t w) (done rest : List UInt8) : (reading done (hdr ++ rest)).eof = false :=
  Bool.eq_false_iff.mpr fun heof => h.append_ne_nil rest (eof_reading.mp heof)

theorem guess_nil : (reading done []).isProbablyMessage (fuel + 1) inGroup =
    some (if inGroup then .no else .yes (reading done [])) := by
  rw [CodedReader.isProbablyMessage, if_pos (eof_reading.mpr rfl)]

theorem guess_header (h : Header hdr t w) (hfits : Fits done (hdr ++ rest)) :
    (reading done (hdr ++ rest)).isProbablyMessage (fuel + 1) inGroup =
      if w = .endGroup then some (if inGroup then .yes (reading (done ++ hdr) rest) else .no)
      else if ¬ Legal t then some .no
      else (reading (done ++ hdr) rest).skipField (CodedReader.isProbablyMessage fuel) inGroup w := by
  rw [CodedReader.isProbablyMessage, if_neg (Bool.eq_false_iff.mp (eof_header h done rest)),
    reads_header.complete (a := (t, w)) hfits h]

theorem guess_begins (h : Begins hdr t w) (hw : w ≠ .endGroup) (hfits : Fits done (hdr ++ rest)) :
    (reading done (hdr ++ rest)).isProbablyMessage (fuel + 1) inGroup =
      (reading (done ++ hdr) rest).skipField (CodedReader.isProbablyMessage fuel) inGroup w := by
  rw [guess_header h.1 hfits, if_neg hw, if_neg (not_not.mpr h.2)]

theorem guess_closing (h : Closing e) (hfits : Fits done (e ++ rest)) :
    (reading done (e ++ rest)).isProbablyMessage (fuel + 1) inGroup =
      some (if inGroup then .yes (reading (done ++ e) rest) else .no) := by
  obtain ⟨t, h⟩ := h
  rw [guess_header h hfits, if_pos rfl]

/-- Where the fields stop the guess is yes. -/
theorem guess_stops (h : Stops inGroup e rest) (hfits : Fits done (e ++ rest)) :
    (reading done (e ++ rest)).isProbablyMessage (fuel + 1) inGroup = some (.yes (reading (done ++ e) rest)) := by
  cases inGroup with
  | true => exact guess_closing h hfits
  | false =>
      obtain ⟨rfl, rfl⟩ := h
      rw [List.append_nil, List.append_nil, guess_nil]
      rfl

/-! ## Skipping -/

theorem skip_append (hfits : Fits done (bs ++ rest)) :
    (reading done (bs ++ rest)).skip bs.length = some (reading (done ++ bs) rest) := by
  have hlength : done.length + (bs.length + rest.length) < 2 ^ 62 := by simpa [Fits] using hfits
  rw [CodedReader.skip]
  simp only [reading, List.length_append]
  rw [wrap_of_lt (by omega) (by omega), if_neg (by omega)]
  simp

theorem skip_short {count : Nat} (hshort : rest.length < count) (hsum : done.length + count < 2 ^ 63) :
    (reading done rest).skip count = none := by
  rw [CodedReader.skip]
  simp only [reading, List.length_append]
  rw [wrap_of_lt (by omega) (by omega), if_pos (by omega)]

/-- The search for the end of a varint finds it. -/
theorem varintEnd_of_varint {n k : Nat} (h : Varint bs n) (hk : bs.length ≤ k) {cb : CodedReader}
    (hbuf : cb.buf = done ++ (bs ++ rest)) :
    cb.varintEnd k done.length = .ok (some ((done ++ bs).length - 1)) := by
  induction h generalizing done k with
  | @last b hb =>
      obtain ⟨k, rfl⟩ := Nat.exists_eq_add_one.mpr (Nat.zero_lt_of_lt hk)
      have hne : ¬ (cb.buf.length : Int) ≤ done.length := fun hle => by simpa using (length_le_index_iff hbuf).mp hle
      rw [CodedReader.varintEnd, if_neg hne, byteAt_of_buf hbuf]
      simp only
      rw [if_pos ((continues_iff b).mpr hb), ← length_snoc, Int.add_sub_cancel]
  | @more b bs n hb hbs ih =>
      obtain ⟨k, rfl⟩ := Nat.exists_eq_add_one.mpr (Nat.zero_lt_of_lt hk)
      have hne : ¬ (cb.buf.length : Int) ≤ done.length := fun hle => by simpa using (length_le_index_iff hbuf).mp hle
      rw [CodedReader.varintEnd, if_neg hne, byteAt_of_buf hbuf]
      simp only
      rw [if_neg (fun hz => Nat.not_lt.mpr hb ((continues_iff b).mp hz)), length_snoc done b,
        ih (Nat.le_of_succ_le_succ hk) (buf_snoc hbuf), List.append_assoc, List.singleton_append]

theorem varint_of_varintEnd (cb : CodedReader) (k : Nat) (hbuf : cb.buf = done ++ rest) :
    (∃ bs n rest', rest = bs ++ rest' ∧ Varint bs n ∧ bs.length ≤ k) ∨ cb.varintEnd k done.length = .ok none := by
  induction k generalizing done rest with
  | zero => exact .inr rfl
  | succ k ih =>
      cases rest with
      | nil => exact .inr (by rw [CodedReader.varintEnd, if_pos ((length_le_index_iff hbuf).mpr rfl)])
      | cons b rest =>
          have hne : ¬ (cb.buf.length : Int) ≤ done.length := fun hle => by simpa using (length_le_index_iff hbuf).mp hle
          by_cases hb : b.toNat < 128
          · exact .inl ⟨[b], b.toNat, rest, rfl, .last hb, by simp⟩
          · rcases ih (buf_snoc hbuf) with ⟨bs, n, rest', rfl, hbs, hlength⟩ | hnone
            · exact .inl ⟨b :: bs, _, rest', rfl, .more (Nat.le_of_not_lt hb) hbs, by simpa using hlength⟩
            · refine .inr ?_
              rw [CodedReader.varintEnd, if_neg hne, byteAt_of_buf hbuf]
              simp only
              rw [if_neg (mt (continues_iff b).mp hb), length_snoc done b, hnone]

section Switch

variable {goOn : CodedReader → Bool → Option Guess} {v : UInt64} {l bytes : List UInt8}

theorem varintEnd_of_number (h : Number bs v) :
    (reading done (bs ++ rest)).varintEnd 10 (reading done (bs ++ rest)).index =
      .ok (some ((done ++ bs).length - 1)) := by
  obtain ⟨n, hbs, hlength, -⟩ := h
  exact varintEnd_of_varint hbs hlength rfl

/-- The reader after the byte that ends a number. -/
theorem reading_after_end (done bs rest : List UInt8) :
    ({ reading done (bs ++ rest) with index := ((done ++ bs).length - 1 : Int) + 1 } : CodedReader) =
      reading (done ++ bs) rest := by
  rw [Int.sub_add_cancel, reading, reading, List.append_assoc]

theorem skipField_varint (h : Number bs v) :
    (reading done (bs ++ rest)).skipField goOn inGroup .varint = goOn (reading (done ++ bs) rest) inGroup := by
  rw [CodedReader.skipField, varintEnd_of_number h]
  simp only
  rw [reading_after_end]

theorem skipField_fixed32 (hbs : bs.length = 4) (hfits : Fits done (bs ++ rest)) :
    (reading done (bs ++ rest)).skipField goOn inGroup .fixed32 = goOn (reading (done ++ bs) rest) inGroup := by
  have hskip := skip_append hfits
  rw [hbs] at hskip
  rw [CodedReader.skipField, show (4 : Int) = ((4 : Nat) : Int) from rfl, hskip]

theorem skipField_fixed64 (hbs : bs.length = 8) (hfits : Fits done (bs ++ rest)) :
    (reading done (bs ++ rest)).skipField goOn inGroup .fixed64 = goOn (reading (done ++ bs) rest) inGroup := by
  have hskip := skip_append hfits
  rw [hbs] at hskip
  rw [CodedReader.skipField, show (8 : Int) = ((8 : Nat) : Int) from rfl, hskip]

theorem skipField_bytes (hbs : Counted bs bytes) (hfits : Fits done (bs ++ rest)) :
    (reading done (bs ++ rest)).skipField goOn inGroup .bytes = goOn (reading (done ++ bs) rest) inGroup := by
  obtain ⟨l, ⟨n, hn, hlength⟩, rfl⟩ := hbs
  rw [List.append_assoc] at hfits ⊢
  rw [← List.append_assoc done]
  have hlt : bytes.length < 2 ^ 63 := by
    have hsum := hfits.move
    rw [Fits, List.length_append, List.length_append] at hsum
    omega
  have hint : toInt n = bytes.length := by rw [toInt_of_lt (by omega), hlength]
  exact skipField_count (reads_number.complete hfits hn) (hint ▸ skip_append hfits.move)

/-- What follows the tag is skipped. -/
theorem skipField_payload (hbs : Payload w bs) (hfits : Fits done (bs ++ rest)) :
    (reading done (bs ++ rest)).skipField goOn inGroup w = goOn (reading (done ++ bs) rest) inGroup := by
  cases w with
  | varint =>
      obtain ⟨v, hv⟩ := hbs
      exact skipField_varint hv
  | fixed32 => exact skipField_fixed32 hbs hfits
  | fixed64 => exact skipField_fixed64 hbs hfits
  | bytes =>
      obtain ⟨v, hv⟩ := hbs
      exact skipField_bytes hv hfits
  | startGroup => exact hbs.elim
  | endGroup => exact hbs.elim
  | invalid n => exact hbs.elim

end Switch

theorem Payload.ne_endGroup (hbs : Payload w bs) : w ≠ .endGroup := by
  rintro rfl
  exact hbs

/-! ## Fields are guessed -/

/-- **All fields are taken for a message**, up to where they stop. -/
theorem guess_fields (h : Fields bs) (hstops : Stops inGroup e rest) (hfits : Fits done (bs ++ (e ++ rest)))
    (hfuel : bs.length + e.length < fuel) :
    (reading done (bs ++ (e ++ rest))).isProbablyMessage fuel inGroup = some (.yes (reading (done ++ bs ++ e) rest)) := by
  induction h generalizing done e rest fuel inGroup with
  | nil =>
      obtain ⟨fuel, rfl⟩ := Nat.exists_eq_add_one.mpr (Nat.zero_lt_of_lt hfuel)
      rw [List.append_nil]
      exact guess_stops hstops hfits
  | field hhdr hbs _ ih =>
      obtain ⟨fuel, rfl⟩ := Nat.exists_eq_add_one.mpr (Nat.zero_lt_of_lt hfuel)
      have hpos := hhdr.1.length_pos
      simp only [List.length_append] at hfuel
      simp only [List.append_assoc] at hfits ⊢
      rw [guess_begins hhdr hbs.ne_endGroup hfits, skipField_payload hbs hfits.move,
        ih hstops hfits.move.move (by omega)]
      simp
  | group hhdr _ he _ ihbody ih =>
      obtain ⟨fuel, rfl⟩ := Nat.exists_eq_add_one.mpr (Nat.zero_lt_of_lt hfuel)
      have hpos := hhdr.1.length_pos
      simp only [List.length_append] at hfuel
      simp only [List.append_assoc] at hfits ⊢
      rw [guess_begins hhdr (by decide) hfits, CodedReader.skipField,
        ihbody (show Stops true _ _ from he) hfits.move (by omega)]
      simp only
      rw [ih hstops hfits.move.move.move (by omega)]
      simp

/-! ## Nothing else is -/

/-- No number of the bytes that are left is so large that an `int` cannot hold its sum with its place. -/
def Tame (done rest : List UInt8) : Prop :=
  ∀ p bs s v, rest = p ++ (bs ++ s) → Number bs v → done.length + p.length + bs.length + v.toNat < 2 ^ 63

theorem Tame.move (h : Tame done (bs ++ rest)) : Tame (done ++ bs) rest := by
  rintro p l s v rfl hv
  have hsum := h (bs ++ p) l s v (by simp) hv
  rw [List.length_append] at *
  omega

/-- A few bytes hold no such number. -/
theorem tame_of_short {data : List UInt8} (h : data.length ≤ 8) : Tame [] data := by
  rintro p bs s v rfl ⟨n, hbs, -, rfl⟩
  simp only [List.length_append, List.length_nil] at h ⊢
  have hlt := hbs.lt_two_pow
  have hpow : 2 ^ (7 * bs.length) ≤ 2 ^ (7 * 8) := Nat.pow_le_pow_right (by decide) (by omega)
  have hle : (UInt64.ofNat n).toNat ≤ n := by
    rw [UInt64.toNat_ofNat']
    exact Nat.mod_le n _
  omega

/-- The bytes end as fields do, or the guess is no. -/
def Settled (inGroup : Bool) (rest : List UInt8) (guess : Option Guess) : Prop :=
  (∃ bs e rest', rest = bs ++ (e ++ rest') ∧ Fields bs ∧ Stops inGroup e rest') ∨ guess = some .no

/-- One more field in front. -/
theorem Settled.cons {guess : Option Guess} (h : Settled inGroup rest guess)
    (hcons : ∀ fields, Fields fields → Fields (bs ++ fields)) : Settled inGroup (bs ++ rest) guess := by
  rcases h with ⟨fields, e, rest', rfl, hfields, hstops⟩ | hno
  · exact .inl ⟨bs ++ fields, e, rest', (List.append_assoc _ _ _).symm, hcons fields hfields, hstops⟩
  · exact .inr hno

theorem prefix_of_le {size : Nat} (hle : size ≤ rest.length) : ∃ bs rest', rest = bs ++ rest' ∧ bs.length = size :=
  ⟨rest.take size, rest.drop size, (List.take_append_drop size rest).symm, by rw [List.length_take, Nat.min_eq_left hle]⟩

section Settling

variable {goOn : CodedReader → Bool → Option Guess}

/-- What follows the tag is there, or the guess is no. -/
theorem payload_or_no (goOn : CodedReader → Bool → Option Guess) (inGroup : Bool) (hw : w ≠ .startGroup)
    (hfits : Fits done rest) (htame : Tame done rest) :
    (∃ bs rest', rest = bs ++ rest' ∧ Payload w bs) ∨ (reading done rest).skipField goOn inGroup w = some .no := by
  have hsum := hfits
  rw [Fits] at hsum
  cases w with
  | varint =>
      rcases varint_of_varintEnd (reading done rest) 10 rfl with ⟨bs, n, rest', rfl, hbs, hlength⟩ | hnone
      · exact .inl ⟨bs, rest', rfl, _, n, hbs, hlength, rfl⟩
      · refine .inr ?_
        have hend : (reading done rest).varintEnd 10 (reading done rest).index = .ok none := hnone
        rw [CodedReader.skipField, hend]
  | fixed32 =>
      by_cases hle : 4 ≤ rest.length
      · exact .inl (prefix_of_le hle)
      · have hskip : (reading done rest).skip ((4 : Nat) : Int) = none := skip_short (Nat.lt_of_not_le hle) (by omega)
        exact .inr (by rw [CodedReader.skipField, show (4 : Int) = ((4 : Nat) : Int) from rfl, hskip])
  | fixed64 =>
      by_cases hle : 8 ≤ rest.length
      · exact .inl (prefix_of_le hle)
      · have hskip : (reading done rest).skip ((8 : Nat) : Int) = none := skip_short (Nat.lt_of_not_le hle) (by omega)
        exact .inr (by rw [CodedReader.skipField, show (8 : Int) = ((8 : Nat) : Int) from rfl, hskip])
  | bytes =>
      rcases reads_number.sound done rest hfits with ⟨l, n, rest', rfl, hn⟩ | ⟨e, he⟩
      · by_cases hle : n.toNat ≤ rest'.length
        · obtain ⟨v, rest', rfl, hv⟩ := prefix_of_le hle
          exact .inl ⟨l ++ v, rest', (List.append_assoc _ _ _).symm, v, l, ⟨n, hn, hv.symm⟩, rfl⟩
        · have hplace := htame [] l rest' n rfl hn
          rw [List.length_nil, Nat.add_zero] at hplace
          have hskip : (reading (done ++ l) rest').skip (toInt n) = none := by
            rw [toInt_of_lt (by omega)]
            exact skip_short (Nat.lt_of_not_le hle) (by rw [List.length_append]; omega)
          exact .inr (skipField_count (reads_number.complete hfits hn) hskip)
      · refine .inr ?_
        rw [CodedReader.skipField, he]
        rfl
  | startGroup => exact absurd rfl hw
  | endGroup => exact .inr rfl
  | invalid n => exact .inr rfl

theorem settled_field (hhdr : Begins hdr t w) (hw : w ≠ .startGroup) (hfits : Fits (done ++ hdr) rest)
    (htame : Tame (done ++ hdr) rest)
    (hgoOn : ∀ bs rest', rest = bs ++ rest' → Settled inGroup rest' (goOn (reading (done ++ hdr ++ bs) rest') inGroup)) :
    Settled inGroup (hdr ++ rest) ((reading (done ++ hdr) rest).skipField goOn inGroup w) := by
  rcases payload_or_no goOn inGroup hw hfits htame with ⟨bs, rest', rfl, hbs⟩ | hno
  · rw [skipField_payload hbs hfits, ← List.append_assoc]
    refine (hgoOn bs rest' rfl).cons fun fields hfields => ?_
    rw [List.append_assoc]
    exact .field hhdr hbs hfields
  · exact .inr hno

theorem settled_group {fuel : Nat} (hhdr : Begins hdr t .startGroup) (hfits : Fits (done ++ hdr) rest)
    (hbody : Settled true rest ((reading (done ++ hdr) rest).isProbablyMessage fuel true))
    (hgoOn : ∀ bs rest', rest = bs ++ rest' →
      Settled inGroup rest' ((reading (done ++ hdr ++ bs) rest').isProbablyMessage fuel inGroup))
    (hfuel : rest.length < fuel) :
    Settled inGroup (hdr ++ rest)
      ((reading (done ++ hdr) rest).skipField (CodedReader.isProbablyMessage fuel) inGroup .startGroup) := by
  rcases hbody with ⟨body, e, rest', rfl, hfields, hstops⟩ | hno
  · have hrest := hgoOn (body ++ e) rest' (List.append_assoc _ _ _).symm
    simp only [List.length_append] at hfuel
    rw [CodedReader.skipField, guess_fields hfields hstops hfits (by omega)]
    simp only
    rw [List.append_assoc (done ++ hdr) body e, ← List.append_assoc body e, ← List.append_assoc hdr]
    refine hrest.cons fun fields hmore => ?_
    rw [List.append_assoc, List.append_assoc]
    exact .group hhdr hfields hstops hmore
  · refine .inr ?_
    rw [CodedReader.skipField, hno]

end Settling

theorem guess_settled (fuel : Nat) (done rest : List UInt8) (inGroup : Bool) (hfits : Fits done rest)
    (htame : Tame done rest) (hfuel : rest.length < fuel) :
    Settled inGroup rest ((reading done rest).isProbablyMessage fuel inGroup) := by
  induction fuel generalizing done rest inGroup with
  | zero => exact absurd hfuel (Nat.not_lt_zero _)
  | succ fuel ih =>
      rcases head_cases done rest hfits with rfl | ⟨hdr, t, w, rest, rfl, hhdr⟩ | ⟨hne, e, he⟩
      · cases inGroup with
        | true => exact .inr (by rw [guess_nil, if_pos rfl])
        | false => exact .inl ⟨[], [], [], rfl, .nil, rfl, rfl⟩
      · have hpos := hhdr.length_pos
        rw [List.length_append] at hfuel
        have hmove := hfits.move
        rw [guess_header hhdr hfits]
        by_cases hend : w = .endGroup
        · subst hend
          rw [if_pos rfl]
          cases inGroup with
          | true => exact .inl ⟨[], hdr, rest, rfl, .nil, t, hhdr⟩
          | false => exact .inr rfl
        · rw [if_neg hend]
          by_cases hlegal : Legal t
          · rw [if_neg (not_not.mpr hlegal)]
            have hbegins : Begins hdr t w := ⟨hhdr, hlegal⟩
            -- what comes after some more bytes of this field
            have hgoOn : ∀ bs rest' inGroup, rest = bs ++ rest' →
                Settled inGroup rest' ((reading (done ++ hdr ++ bs) rest').isProbablyMessage fuel inGroup) := by
              rintro bs rest' inGroup rfl
              rw [List.length_append] at hfuel
              exact ih _ _ _ hmove.move htame.move.move (by omega)
            by_cases hgroup : w = .startGroup
            · subst hgroup
              refine settled_group hbegins hmove ?_ (fun bs rest' => hgoOn bs rest' inGroup) (by omega)
              have hbody := hgoOn [] rest true rfl
              rw [List.append_nil] at hbody
              exact hbody
            · exact settled_field hbegins hgroup hmove htame.move fun bs rest' => hgoOn bs rest' inGroup
          · exact .inr (if_pos hlegal)
      · refine .inr ?_
        rw [CodedReader.isProbablyMessage, if_neg (fun heof => hne (eof_reading.mp heof)), he]
        rfl

/-- **What is taken for a message.** Of bytes whose numbers are not out of all proportion: the function ends, with yes of
    fields and with no of anything else. -/
theorem guess_iff {data : List UInt8} (hlength : data.length < 2 ^ 62) (htame : Tame [] data)
    (hfuel : data.length < fuel) :
    (Fields data ∧ isProbablyMessage fuel data = some (.yes (reading data []))) ∨
      (¬ Fields data ∧ isProbablyMessage fuel data = some .no) := by
  have hfits : Fits [] data := by
    rw [Fits, List.length_nil]
    omega
  have hyes : Fields data → isProbablyMessage fuel data = some (.yes (reading data [])) := by
    intro hfields
    have hguess : (reading [] (data ++ ([] ++ []))).isProbablyMessage fuel false = _ :=
      guess_fields hfields ⟨rfl, rfl⟩ (by simpa using hfits) (by simpa using hfuel)
    rw [isProbablyMessage, newCodedReader_eq]
    simpa using hguess
  rcases guess_settled fuel [] data false hfits htame hfuel with ⟨bs, e, rest', rfl, hfields, rfl, rfl⟩ | hno
  · refine .inl ⟨?_, hyes ?_⟩ <;> simpa using hfields
  · refine .inr ⟨fun hfields => ?_, hno⟩
    have hcontra := (hyes hfields).symm.trans hno
    cases hcontra

/-! ## Counts that lead back -/

/-- Fields are read through, or the fuel does not suffice. -/
theorem guess_through (h : Fields bs) (fuel : Nat) (inGroup : Bool) (hfits : Fits done (bs ++ rest)) :
    (reading done (bs ++ rest)).isProbablyMessage fuel inGroup = none ∨
      ∃ fuel' ≤ fuel, (reading done (bs ++ rest)).isProbablyMessage fuel inGroup =
        (reading (done ++ bs) rest).isProbablyMessage fuel' inGroup := by
  induction h generalizing done rest fuel inGroup with
  | nil => exact .inr ⟨fuel, Nat.le_refl _, by rw [List.append_nil, List.nil_append]⟩
  | field hhdr hbs _ ih =>
      cases fuel with
      | zero => exact .inl rfl
      | succ fuel =>
          simp only [List.append_assoc] at hfits ⊢
          rw [guess_begins hhdr hbs.ne_endGroup hfits, skipField_payload hbs hfits.move]
          rcases ih fuel inGroup hfits.move.move with hnone | ⟨fuel', hle, heq⟩
          · exact .inl hnone
          · exact .inr ⟨fuel', Nat.le_succ_of_le hle, by simpa using heq⟩
  | group hhdr _ he _ ihbody ih =>
      cases fuel with
      | zero => exact .inl rfl
      | succ fuel =>
          simp only [List.append_assoc] at hfits ⊢
          rw [guess_begins hhdr (by decide) hfits, CodedReader.skipField]
          rcases ihbody fuel true hfits.move with hnone | ⟨fuel', hle, heq⟩
          · exact .inl (by rw [hnone])
          · cases fuel' with
            | zero => exact .inl (by rw [heq, CodedReader.isProbablyMessage])
            | succ fuel' =>
                rw [heq, guess_closing he hfits.move.move]
                simp only [if_true]
                rcases ih fuel inGroup hfits.move.move.move with hnone | ⟨fuel'', hle', heq'⟩
                · exact .inl hnone
                · exact .inr ⟨fuel'', Nat.le_succ_of_le hle', by simpa using heq'⟩

/-- Where a count leads back to the first byte the function never ends, whatever comes before it and after it. -/
theorem never_guesses {p l : List UInt8} {n : UInt64} (hp : Fields p) (hhdr : Begins hdr t .bytes) (hl : Number l n)
    (hback : n.toNat + (p ++ (hdr ++ l)).length = 2 ^ 64) (hlength : (p ++ (hdr ++ (l ++ rest))).length < 2 ^ 62)
    (fuel : Nat) : isProbablyMessage fuel (p ++ (hdr ++ (l ++ rest))) = none := by
  have hfits : Fits [] (p ++ (hdr ++ (l ++ rest))) := by
    rw [Fits, List.length_nil]
    omega
  induction fuel using Nat.strong_induction_on with
  | _ fuel ih =>
      rcases guess_through hp fuel false hfits with hnone | ⟨fuel', hle, heq⟩
      · exact hnone
      · refine heq.trans ?_
        cases fuel' with
        | zero => rfl
        | succ fuel' =>
            simp only [List.length_append] at hback hlength
            have hskip : (reading ([] ++ p ++ hdr ++ l) rest).skip (toInt n) =
                some (reading [] (p ++ (hdr ++ (l ++ rest)))) := by
              rw [toInt_of_ge (by omega), CodedReader.skip]
              simp only [reading, List.length_append, List.length_nil]
              rw [wrap_of_lt (by omega) (by omega), if_neg (by omega)]
              simp only [List.nil_append, List.append_assoc, Option.some.injEq, CodedReader.mk.injEq, true_and]
              omega
            rw [guess_begins hhdr (by decide) hfits.move,
              skipField_count (reads_number.complete hfits.move.move hl) hskip]
            exact ih fuel' (by omega)

end Goprotoc
end ServiceKit
