import ServiceKit.Goprotoc.Correctness.Guesses

/-!
# `Goprotoc.Correctness.RawMessages` — the listing of an encoded message

`--decode_raw` prints the listing of the message that the bytes hold, and succeeds on no others (`decodeRaw_iff`). Of
bytes with no number out of all proportion these are all that are fields (`decodeRaw_accepts_iff`); it never ends
where the bytes of a field have a count that leads back to the first of them (`decodeRaw_never_ends`).
-/

namespace ServiceKit
namespace Goprotoc

open Lib

variable {floats : Floats} {done rest bs hdr e v : List UInt8} {t fuel : Nat} {w : WireType} {inGroup : Bool}
  {indent out line : Text} {cb : CodedReader} {m : Message}

/-! ## What is printed -/

@[simp] theorem after_some (line out : Text) (r : Except Fault CodedReader) :
    Printed.after line (some (out, r)) = some (line ++ out, r) := rfl

@[simp] theorem andThen_ok (out : Text) (cb : CodedReader) (next : CodedReader → Printed) :
    Printed.andThen (some (out, .ok cb)) next = (next cb).after out := rfl

theorem after_ok_iff {p : Printed} :
    p.after line = some (out, .ok cb) ↔ ∃ out', p = some (out', .ok cb) ∧ out = line ++ out' := by
  constructor
  · intro h
    cases p with
    | none => cases h
    | some r =>
        obtain ⟨out', r⟩ := r
        cases h
        exact ⟨out', rfl, rfl⟩
  · rintro ⟨out', rfl, rfl⟩
    rfl

theorem andThen_ok_iff {p : Printed} {next : CodedReader → Printed} :
    p.andThen next = some (out, .ok cb) ↔
      ∃ out₁ cb₁ out₂, p = some (out₁, .ok cb₁) ∧ next cb₁ = some (out₂, .ok cb) ∧ out = out₁ ++ out₂ := by
  constructor
  · intro h
    cases p with
    | none => cases h
    | some r =>
        obtain ⟨out₁, r⟩ := r
        cases r with
        | error e => cases h
        | ok cb₁ =>
            obtain ⟨out₂, hnext, rfl⟩ := after_ok_iff.mp h
            exact ⟨out₁, cb₁, out₂, rfl, hnext, rfl⟩
  · rintro ⟨out₁, cb₁, out₂, rfl, hnext, rfl⟩
    exact after_ok_iff.mpr ⟨out₂, hnext, rfl⟩

/-! ## More fuel -/

theorem skipField_mono {goOn goOn' : CodedReader → Bool → Option Guess}
    (h : ∀ cb inGroup guess, goOn cb inGroup = some guess → goOn' cb inGroup = some guess) {guess : Guess}
    (hskip : cb.skipField goOn inGroup w = some guess) : cb.skipField goOn' inGroup w = some guess := by
  cases w with
  | varint =>
      rw [CodedReader.skipField] at hskip ⊢
      cases hend : cb.varintEnd 10 cb.index with
      | error e =>
          rw [hend] at hskip
          exact hskip
      | ok i =>
          rw [hend] at hskip
          cases i with
          | none => exact hskip
          | some i => exact h _ _ _ hskip
  | fixed32 =>
      rw [CodedReader.skipField] at hskip ⊢
      cases hcb : cb.skip 4 with
      | none =>
          rw [hcb] at hskip
          exact hskip
      | some cb' =>
          rw [hcb] at hskip
          exact h _ _ _ hskip
  | fixed64 =>
      rw [CodedReader.skipField] at hskip ⊢
      cases hcb : cb.skip 8 with
      | none =>
          rw [hcb] at hskip
          exact hskip
      | some cb' =>
          rw [hcb] at hskip
          exact h _ _ _ hskip
  | bytes =>
      cases hn : cb.decodeVarint with
      | error e =>
          rw [CodedReader.skipField, hn] at hskip ⊢
          exact hskip
      | ok r =>
          obtain ⟨n, cb'⟩ := r
          rw [skipField_count hn rfl] at hskip ⊢
          cases hcb : cb'.skip (toInt n) with
          | none =>
              rw [hcb] at hskip
              exact hskip
          | some cb'' =>
              rw [hcb] at hskip
              exact h _ _ _ hskip
  | startGroup =>
      rw [CodedReader.skipField] at hskip ⊢
      cases hgroup : goOn cb true with
      | none =>
          rw [hgroup] at hskip
          cases hskip
      | some g =>
          rw [hgroup] at hskip
          rw [h _ _ _ hgroup]
          cases g with
          | yes cb' => exact h _ _ _ hskip
          | no => exact hskip
          | panic => exact hskip
  | endGroup => exact hskip
  | invalid n => exact hskip

theorem guess_mono {guess : Guess} (h : cb.isProbablyMessage fuel inGroup = some guess) {fuel' : Nat}
    (hle : fuel ≤ fuel') : cb.isProbablyMessage fuel' inGroup = some guess := by
  induction fuel generalizing cb inGroup guess fuel' with
  | zero => cases h
  | succ fuel ih =>
      obtain ⟨fuel', rfl⟩ := Nat.exists_eq_add_one.mpr (Nat.zero_lt_of_lt hle)
      rw [CodedReader.isProbablyMessage] at h ⊢
      by_cases heof : cb.eof
      · rw [if_pos heof] at h ⊢
        exact h
      · rw [if_neg heof] at h ⊢
        cases htag : cb.decodeTagAndWireType with
        | error e =>
            rw [htag] at h
            exact h
        | ok r =>
            obtain ⟨⟨t, w⟩, cb'⟩ := r
            rw [htag] at h
            simp only at h ⊢
            by_cases hend : w = .endGroup
            · rw [if_pos hend] at h ⊢
              exact h
            · rw [if_neg hend] at h ⊢
              by_cases hlegal : Legal t
              · rw [if_neg (not_not.mpr hlegal)] at h ⊢
                exact skipField_mono (fun _ _ _ hgoOn => ih hgoOn (Nat.le_of_succ_le_succ hle)) h
              · rw [if_pos hlegal] at h ⊢
                exact h

/-! ## Steps -/

theorem decode_nil : decodeRawMessage floats (fuel + 1) (reading done []) indent inGroup =
    some ([], if inGroup then .error (.error .unexpectedEOF) else .ok (reading done [])) := by
  rw [decodeRawMessage, if_pos (eof_reading.mpr rfl)]

theorem decode_header (h : Header hdr t w) (hfits : Fits done (hdr ++ rest)) :
    decodeRawMessage floats (fuel + 1) (reading done (hdr ++ rest)) indent inGroup =
      if w = .endGroup then
        some ([], if inGroup then .ok (reading (done ++ hdr) rest) else .error (.error .unexpectedEndGroup))
      else if ¬ Legal t then some ([], .error (.error (.illegalTag t)))
      else decodeField floats (decodeRawMessage floats fuel) (isProbablyMessage fuel) t indent inGroup
        (reading (done ++ hdr) rest) w := by
  rw [decodeRawMessage, if_neg (Bool.eq_false_iff.mp (eof_header h done rest)),
    reads_header.complete (a := (t, w)) hfits h]

theorem decode_begins (h : Begins hdr t w) (hw : w ≠ .endGroup) (hfits : Fits done (hdr ++ rest)) :
    decodeRawMessage floats (fuel + 1) (reading done (hdr ++ rest)) indent inGroup =
      decodeField floats (decodeRawMessage floats fuel) (isProbablyMessage fuel) t indent inGroup
        (reading (done ++ hdr) rest) w := by
  rw [decode_header h.1 hfits, if_neg hw, if_neg (not_not.mpr h.2)]

theorem decode_stops (h : Stops inGroup e rest) (hfits : Fits done (e ++ rest)) :
    decodeRawMessage floats (fuel + 1) (reading done (e ++ rest)) indent inGroup =
      some ([], .ok (reading (done ++ e) rest)) := by
  cases inGroup with
  | true =>
      obtain ⟨t, h⟩ := h
      rw [decode_header h hfits, if_pos rfl, if_pos rfl]
  | false =>
      obtain ⟨rfl, rfl⟩ := h
      rw [List.append_nil, List.append_nil, decode_nil]
      rfl

/-! ## What the bytes hold is listed -/

/-- With fuel enough, the fields are listed as the message, up to where they stop. -/
def Listed (floats : Floats) (bs : List UInt8) (m : Message) : Prop :=
  ∀ done e rest inGroup indent, Stops inGroup e rest → Fits done (bs ++ (e ++ rest)) →
    ∃ N, ∀ fuel, N ≤ fuel →
      decodeRawMessage floats fuel (reading done (bs ++ (e ++ rest))) indent inGroup =
        some (render floats indent m, .ok (reading (done ++ bs ++ e) rest))

/-- One more field in front, that prints some lines and goes on. -/
theorem Listed.cons {m' : Message} (lines : Text → Text) (hrest : Listed floats rest m) (hhdr : Begins hdr t w)
    (hw : w ≠ .endGroup)
    (hfield : ∀ done rest inGroup indent, Fits done (bs ++ rest) → ∃ N, ∀ fuel, N ≤ fuel →
      decodeField floats (decodeRawMessage floats fuel) (isProbablyMessage fuel) t indent inGroup
          (reading done (bs ++ rest)) w =
        (decodeRawMessage floats fuel (reading (done ++ bs) rest) indent inGroup).after (lines indent))
    (hrender : ∀ indent, render floats indent m' = lines indent ++ render floats indent m) :
    Listed floats (hdr ++ (bs ++ rest)) m' := by
  intro done e s inGroup indent hstops hfits
  simp only [List.append_assoc] at hfits ⊢
  obtain ⟨N₁, h₁⟩ := hfield (done ++ hdr) (rest ++ (e ++ s)) inGroup indent hfits.move
  obtain ⟨N₂, h₂⟩ := hrest (done ++ hdr ++ bs) e s inGroup indent hstops hfits.move.move
  refine ⟨max N₁ N₂ + 1, fun fuel hfuel => ?_⟩
  obtain ⟨fuel, rfl⟩ := Nat.exists_eq_add_one.mpr (Nat.zero_lt_of_lt hfuel)
  have hle := Nat.le_of_succ_le_succ hfuel
  rw [decode_begins hhdr hw hfits, h₁ fuel (Nat.le_trans (Nat.le_max_left _ _) hle),
    h₂ fuel (Nat.le_trans (Nat.le_max_right _ _) hle), after_some, hrender]
  simp

theorem listed_nil : Listed floats [] .nil := by
  intro done e s inGroup indent hstops hfits
  refine ⟨1, fun fuel hfuel => ?_⟩
  obtain ⟨fuel, rfl⟩ := Nat.exists_eq_add_one.mpr hfuel
  rw [List.append_nil]
  exact decode_stops hstops hfits

/-- Counted bytes of which `isProbablyMessage` says no. -/
theorem field_no_message (hbs : Counted bs v) (hno : NoMessage v) (done rest : List UInt8) (inGroup : Bool)
    (indent : Text) (hfits : Fits done (bs ++ rest)) :
    ∃ N, ∀ fuel, N ≤ fuel →
      decodeField floats (decodeRawMessage floats fuel) (isProbablyMessage fuel) t indent inGroup
          (reading done (bs ++ rest)) .bytes =
        (decodeRawMessage floats fuel (reading (done ++ bs) rest) indent inGroup).after
          (fieldLine indent t (": ".toList ++ if isProbablyString v then quoteString v else quoteBytes v)) := by
  obtain ⟨N, hN⟩ := hno
  refine ⟨N, fun fuel hfuel => ?_⟩
  have hguess : isProbablyMessage fuel v = some .no := guess_mono hN hfuel
  rw [decodeField, reads_bytes.complete hfits hbs]
  simp only [hguess]

theorem fits_counted (hbs : Counted bs v) (hfits : Fits done (bs ++ rest)) : Fits [] v := by
  obtain ⟨l, -, rfl⟩ := hbs
  have hsum := hfits
  rw [Fits, List.append_assoc, List.length_append, List.length_append] at hsum
  rw [Fits, List.length_nil]
  omega

/-- Counted bytes that hold a message. -/
theorem field_nested (hbs : Counted bs v) (hv : Wire v m) (hlisted : Listed floats v m) (done rest : List UInt8)
    (inGroup : Bool) (indent : Text) (hfits : Fits done (bs ++ rest)) :
    ∃ N, ∀ fuel, N ≤ fuel →
      decodeField floats (decodeRawMessage floats fuel) (isProbablyMessage fuel) t indent inGroup
          (reading done (bs ++ rest)) .bytes =
        (decodeRawMessage floats fuel (reading (done ++ bs) rest) indent inGroup).after
          (fieldLine indent t ": <".toList ++ render floats (indent ++ "  ".toList) m ++ (indent ++ ">\n".toList)) := by
  have hfits' : Fits [] (v ++ ([] ++ [])) := by
    rw [List.append_nil, List.append_nil]
    exact fits_counted hbs hfits
  obtain ⟨N, hN⟩ := hlisted [] [] [] false (indent ++ "  ".toList) ⟨rfl, rfl⟩ hfits'
  refine ⟨max N (v.length + 1), fun fuel hfuel => ?_⟩
  have hdecode := hN fuel (Nat.le_trans (Nat.le_max_left _ _) hfuel)
  have hguess : (reading [] (v ++ ([] ++ []))).isProbablyMessage fuel false = _ :=
    guess_fields hv.fields ⟨rfl, rfl⟩ hfits' (Nat.lt_of_succ_le (Nat.le_trans (Nat.le_max_right _ _) hfuel))
  simp only [List.append_nil] at hdecode hguess
  have hyes : isProbablyMessage fuel v = some (.yes (reading ([] ++ v) [])) := hguess
  rw [decodeField, reads_bytes.complete hfits hbs]
  simp only [hyes, newCodedReader_eq, hdecode, after_some, andThen_ok]
  cases decodeRawMessage floats fuel (reading (done ++ bs) rest) indent inGroup with
  | none => rfl
  | some r => simp [Printed.after]

theorem listed_of_wire (floats : Floats) (h : Wire bs m) : Listed floats bs m := by
  induction h with
  | nil => exact listed_nil
  | @varint hdr bs rest t v m hhdr hbs _ ih =>
      refine ih.cons (fun indent => fieldLine indent t (": ".toList ++ showNumber v.toNat)) hhdr (by decide)
        (fun done rest inGroup indent hfits => ⟨0, fun fuel _ => ?_⟩) fun _ => rfl
      rw [decodeField, reads_number.complete hfits hbs]
  | @fixed32 hdr bs rest t m hhdr hbs _ ih =>
      refine ih.cons (fun indent => fieldLine indent t
        (": ".toList ++ floats.showFloat32 (CodedReader.littleEndian bs 0).toUInt32)) hhdr (by decide)
        (fun done rest inGroup indent hfits => ⟨0, fun fuel _ => ?_⟩) fun _ => rfl
      have hread : (reading done (bs ++ rest)).decodeFixed32 = _ :=
        (reads_fixed 4 (by decide)).complete hfits ⟨hbs, rfl⟩
      rw [decodeField, hread]
  | @fixed64 hdr bs rest t m hhdr hbs _ ih =>
      refine ih.cons (fun indent => fieldLine indent t
        (": ".toList ++ floats.showFloat64 (CodedReader.littleEndian bs 0))) hhdr (by decide)
        (fun done rest inGroup indent hfits => ⟨0, fun fuel _ => ?_⟩) fun _ => rfl
      have hread : (reading done (bs ++ rest)).decodeFixed64 = _ :=
        (reads_fixed 8 (by decide)).complete hfits ⟨hbs, rfl⟩
      rw [decodeField, hread]
  | nested hhdr hbs hv _ ihv ih =>
      exact ih.cons _ hhdr (by decide) (field_nested hbs hv ihv) fun _ => by simp [render]
  | text hhdr hbs hno hv _ ih =>
      exact ih.cons _ hhdr (by decide) (field_no_message hbs hno) fun _ => by rw [hv]; rfl
  | raw hhdr hbs hno hv _ ih =>
      exact ih.cons _ hhdr (by decide) (field_no_message hbs hno) fun _ => by rw [hv]; rfl
  | @group hdr body e rest t m' m hhdr _ he _ ihbody ih =>
      intro done e' s inGroup indent hstops hfits
      simp only [List.append_assoc] at hfits ⊢
      obtain ⟨N₁, h₁⟩ := ihbody (done ++ hdr) e (rest ++ (e' ++ s)) true (indent ++ "  ".toList) he hfits.move
      obtain ⟨N₂, h₂⟩ := ih (done ++ hdr ++ body ++ e) e' s inGroup indent hstops hfits.move.move.move
      refine ⟨max N₁ N₂ + 1, fun fuel hfuel => ?_⟩
      obtain ⟨fuel, rfl⟩ := Nat.exists_eq_add_one.mpr (Nat.zero_lt_of_lt hfuel)
      have hle := Nat.le_of_succ_le_succ hfuel
      rw [decode_begins hhdr (by decide) hfits, decodeField, h₁ fuel (Nat.le_trans (Nat.le_max_left _ _) hle),
        after_some, andThen_ok, h₂ fuel (Nat.le_trans (Nat.le_max_right _ _) hle)]
      simp [render]

/-! ## What is listed the bytes hold -/

/-- The bytes hold a message up to where its fields stop, and this is its listing. -/
def Holds (floats : Floats) (indent : Text) (inGroup : Bool) (done rest : List UInt8) (out : Text) (cb : CodedReader) :
    Prop :=
  ∃ bs e rest' m, rest = bs ++ (e ++ rest') ∧ Wire bs m ∧ Stops inGroup e rest' ∧ out = render floats indent m ∧
    cb = reading (done ++ bs ++ e) rest'

/-- One more field in front. -/
theorem Holds.cons (lines : Text) (h : Holds floats indent inGroup (done ++ hdr ++ bs) rest out cb)
    (next : Message → Message) (hwire : ∀ {fields m}, Wire fields m → Wire (hdr ++ (bs ++ fields)) (next m))
    (hrender : ∀ m, render floats indent (next m) = lines ++ render floats indent m) :
    Holds floats indent inGroup done (hdr ++ (bs ++ rest)) (lines ++ out) cb := by
  obtain ⟨fields, e, rest', m, rfl, hfields, hstops, rfl, rfl⟩ := h
  exact ⟨hdr ++ (bs ++ fields), e, rest', next m, by simp, hwire hfields, hstops, (hrender m).symm, by simp⟩

section Inversion

variable {fuel : Nat}
  (ih : ∀ done rest indent inGroup out cb, Fits done rest →
    decodeRawMessage floats fuel (reading done rest) indent inGroup = some (out, .ok cb) →
    Holds floats indent inGroup done rest out cb)
include ih

/-- What a field prints when it succeeds, and that the rest is decoded after it. -/
theorem holds_of_field (hhdr : Begins hdr t w) (hfits : Fits (done ++ hdr) rest)
    (h : decodeField floats (decodeRawMessage floats fuel) (isProbablyMessage fuel) t indent inGroup
      (reading (done ++ hdr) rest) w = some (out, .ok cb)) :
    Holds floats indent inGroup done (hdr ++ rest) out cb := by
  cases w with
  | varint =>
      rcases reads_number.sound _ _ hfits with ⟨bs, v, rest, rfl, hbs⟩ | ⟨e, he⟩
      · rw [decodeField, reads_number.complete hfits hbs] at h
        obtain ⟨out, hgoOn, rfl⟩ := after_ok_iff.mp h
        exact (ih _ _ _ _ _ _ hfits.move hgoOn).cons _ (.varint t v) (.varint hhdr hbs) fun _ => rfl
      · rw [decodeField, he] at h
        cases h
  | fixed32 =>
      rcases (reads_fixed 4 (by decide)).sound _ _ hfits with ⟨bs, v, rest, rfl, hbs, rfl⟩ | ⟨e, he⟩
      · have hread : (reading (done ++ hdr) (bs ++ rest)).decodeFixed32 = _ :=
          (reads_fixed 4 (by decide)).complete hfits ⟨hbs, rfl⟩
        rw [decodeField, hread] at h
        obtain ⟨out, hgoOn, rfl⟩ := after_ok_iff.mp h
        exact (ih _ _ _ _ _ _ hfits.move hgoOn).cons _ (.fixed32 t _) (.fixed32 hhdr hbs) fun _ => rfl
      · have hread : (reading (done ++ hdr) rest).decodeFixed32 = _ := he
        rw [decodeField, hread] at h
        cases h
  | fixed64 =>
      rcases (reads_fixed 8 (by decide)).sound _ _ hfits with ⟨bs, v, rest, rfl, hbs, rfl⟩ | ⟨e, he⟩
      · have hread : (reading (done ++ hdr) (bs ++ rest)).decodeFixed64 = _ :=
          (reads_fixed 8 (by decide)).complete hfits ⟨hbs, rfl⟩
        rw [decodeField, hread] at h
        obtain ⟨out, hgoOn, rfl⟩ := after_ok_iff.mp h
        exact (ih _ _ _ _ _ _ hfits.move hgoOn).cons _ (.fixed64 t _) (.fixed64 hhdr hbs) fun _ => rfl
      · have hread : (reading (done ++ hdr) rest).decodeFixed64 = _ := he
        rw [decodeField, hread] at h
        cases h
  | bytes =>
      rcases reads_bytes.sound _ _ hfits with ⟨bs, v, rest, rfl, hbs⟩ | ⟨e, he⟩
      · rw [decodeField, reads_bytes.complete hfits hbs] at h
        simp only at h
        cases hguess : isProbablyMessage fuel v with
        | none =>
            rw [hguess] at h
            cases h
        | some guess =>
            rw [hguess] at h
            cases guess with
            | panic => cases h
            | no =>
                obtain ⟨out, hgoOn, rfl⟩ := after_ok_iff.mp h
                have hrest := ih _ _ _ _ _ _ hfits.move hgoOn
                cases hstring : isProbablyString v with
                | true =>
                    exact hrest.cons _ (.text t v) (.text hhdr hbs ⟨fuel, hguess⟩ hstring) fun _ => rfl
                | false =>
                    exact hrest.cons _ (.raw t v) (.raw hhdr hbs ⟨fuel, hguess⟩ hstring) fun _ => rfl
            | yes cb' =>
                obtain ⟨out₁, cb₁, out₂, hfirst, hrest, rfl⟩ := andThen_ok_iff.mp h
                obtain ⟨out₁, hnested, rfl⟩ := after_ok_iff.mp hfirst
                obtain ⟨out₂, hgoOn, rfl⟩ := after_ok_iff.mp hrest
                -- the nested reader stands at the first of the counted bytes, and nowhere in a group
                obtain ⟨fields, e, rest', m, rfl, hwire, ⟨rfl, rfl⟩, rfl, rfl⟩ :=
                  ih [] v _ _ _ _ (fits_counted hbs hfits) hnested
                rw [List.append_nil, List.append_nil] at hbs
                have hholds := (ih _ _ _ _ _ _ hfits.move hgoOn).cons
                  (fieldLine indent t ": <".toList ++ render floats (indent ++ "  ".toList) m ++
                    (indent ++ ">\n".toList)) (.nested t m) (.nested hhdr hbs hwire) fun _ => by simp [render]
                simpa using hholds
      · rw [decodeField, he] at h
        cases h
  | startGroup =>
      rw [decodeField] at h
      obtain ⟨out₁, cb₁, out₂, hfirst, hrest, rfl⟩ := andThen_ok_iff.mp h
      obtain ⟨out₁, hbody, rfl⟩ := after_ok_iff.mp hfirst
      obtain ⟨out₂, hgoOn, rfl⟩ := after_ok_iff.mp hrest
      obtain ⟨body, e, rest, m, rfl, hwire, hstops, rfl, rfl⟩ := ih _ _ _ _ _ _ hfits hbody
      rw [List.append_assoc (done ++ hdr) body e] at hgoOn
      have hholds := (ih _ _ _ _ _ _ ((List.append_assoc body e rest).symm ▸ hfits).move hgoOn).cons
        (fieldLine indent t " \x7b".toList ++ render floats (indent ++ "  ".toList) m ++ (indent ++ "\x7d\n".toList))
        (.group t m)
        (fun hfields => by
          rw [List.append_assoc body e]
          exact .group hhdr hwire hstops hfields)
        fun _ => by simp [render]
      simpa using hholds
  | endGroup => cases h
  | invalid n => cases h

end Inversion

theorem holds_of_decode (fuel : Nat) (done rest : List UInt8) (indent : Text) (inGroup : Bool) (out : Text)
    (cb : CodedReader) (hfits : Fits done rest)
    (h : decodeRawMessage floats fuel (reading done rest) indent inGroup = some (out, .ok cb)) :
    Holds floats indent inGroup done rest out cb := by
  induction fuel generalizing done rest indent inGroup out cb with
  | zero => cases h
  | succ fuel ih =>
      rcases head_cases done rest hfits with rfl | ⟨hdr, t, w, rest, rfl, hhdr⟩ | ⟨hne, e, he⟩
      · rw [decode_nil] at h
        cases inGroup with
        | true => cases h
        | false =>
            cases h
            exact ⟨[], [], [], .nil, rfl, .nil, ⟨rfl, rfl⟩, rfl, by simp⟩
      · rw [decode_header hhdr hfits] at h
        by_cases hend : w = .endGroup
        · subst hend
          rw [if_pos rfl] at h
          cases inGroup with
          | false => cases h
          | true =>
              cases h
              exact ⟨[], hdr, rest, .nil, rfl, .nil, ⟨t, hhdr⟩, rfl, by simp⟩
        · rw [if_neg hend] at h
          by_cases hlegal : Legal t
          · rw [if_neg (not_not.mpr hlegal)] at h
            exact holds_of_field ih ⟨hhdr, hlegal⟩ hfits.move h
          · rw [if_pos hlegal] at h
            cases h
      · rw [decodeRawMessage, if_neg (fun heof => hne (eof_reading.mp heof)), he] at h
        cases h

/-! ## The tool -/

theorem fits_nil {data : List UInt8} (hlength : data.length < 2 ^ 62) : Fits [] data := by
  rw [Fits, List.length_nil]
  omega

theorem decodeRaw_of_wire (floats : Floats) {data : List UInt8} (hlength : data.length < 2 ^ 62) (h : Wire data m) :
    ∃ fuel cb, doDecodeRaw floats fuel data = some (render floats [] m, .ok cb) := by
  obtain ⟨N, hN⟩ := listed_of_wire floats h [] [] [] false [] ⟨rfl, rfl⟩ (by simpa using fits_nil hlength)
  have hdecode := hN N (Nat.le_refl N)
  rw [List.append_nil, List.append_nil] at hdecode
  exact ⟨N, _, hdecode⟩

theorem wire_of_decodeRaw {data : List UInt8} (hlength : data.length < 2 ^ 62)
    (h : doDecodeRaw floats fuel data = some (out, .ok cb)) : ∃ m, Wire data m ∧ out = render floats [] m := by
  obtain ⟨bs, e, rest', m, rfl, hwire, ⟨rfl, rfl⟩, rfl, -⟩ :=
    holds_of_decode fuel [] data [] false out cb (fits_nil hlength) h
  refine ⟨m, ?_, rfl⟩
  rw [List.append_nil, List.append_nil]
  exact hwire

/-- **What `--decode_raw` prints.** It succeeds on the bytes that hold a message, and prints the listing of it. -/
theorem decodeRaw_iff (floats : Floats) {data : List UInt8} (hlength : data.length < 2 ^ 62) (out : Text) :
    (∃ fuel cb, doDecodeRaw floats fuel data = some (out, .ok cb)) ↔ ∃ m, Wire data m ∧ out = render floats [] m := by
  constructor
  · rintro ⟨fuel, cb, h⟩
    exact wire_of_decodeRaw hlength h
  · rintro ⟨m, hwire, rfl⟩
    exact decodeRaw_of_wire floats hlength hwire

/-- A group with one field. -/
theorem decodeRaw_iff_group :
    ∃ m, Wire [0x0b, 0x10, 0x96, 0x01, 0x0c] m ∧
      "1 \x7b\n  2: 150\n\x7d\n".toList = render ⟨fun _ => [], fun _ => []⟩ [] m :=
  (decodeRaw_iff _ (by decide) _).mp ⟨6, _, rfl⟩

/-! ### Which bytes are accepted -/

theorem Tame.sub {a b c : List UInt8} (h : Tame done (a ++ (b ++ c))) : Tame [] b := by
  rintro p l s v rfl hv
  have hplace := h (a ++ p) l (s ++ c) v (by simp) hv
  rw [List.length_append] at hplace
  rw [List.length_nil]
  omega

theorem Tame.counted (h : Tame done (bs ++ rest)) (hbs : Counted bs v) : Tame [] v := by
  obtain ⟨l, -, rfl⟩ := hbs
  rw [List.append_assoc] at h
  exact h.sub

/-- Tame bytes that are fields hold a message: of counted bytes the guess is yes or no. -/
theorem wire_of_fields (h : Fields bs) (hlength : bs.length < 2 ^ 62) (htame : Tame [] bs) : ∃ m, Wire bs m := by
  induction hn : bs.length using Nat.strong_induction_on generalizing bs with
  | _ n ih =>
      subst hn
      cases h with
      | nil => exact ⟨.nil, .nil⟩
      | @field hdr bs rest t w hhdr hbs hrest =>
          have hpos := hhdr.1.length_pos
          rw [List.length_append, List.length_append] at hlength ih
          have htame' : Tame [] (hdr ++ (bs ++ (rest ++ []))) := by simpa using htame
          have hmove : Tame ([] ++ hdr) (bs ++ rest) := htame.move
          obtain ⟨m, hm⟩ := ih rest.length (by omega) hrest (by omega)
            (((List.append_assoc hdr bs (rest ++ [])).symm ▸ htame').sub) rfl
          cases w with
          | varint =>
              obtain ⟨v, hv⟩ := hbs
              exact ⟨_, .varint hhdr hv hm⟩
          | fixed32 => exact ⟨_, .fixed32 hhdr hbs hm⟩
          | fixed64 => exact ⟨_, .fixed64 hhdr hbs hm⟩
          | bytes =>
              obtain ⟨v, hv⟩ := hbs
              have hle : v.length ≤ bs.length := by
                obtain ⟨l, -, rfl⟩ := hv
                rw [List.length_append]
                omega
              have htamev := hmove.counted hv
              rcases guess_iff (by omega) htamev (Nat.lt_succ_self v.length) with ⟨hfields, -⟩ | ⟨-, hno⟩
              · obtain ⟨m', hm'⟩ := ih v.length (by omega) hfields (by omega) htamev rfl
                exact ⟨_, .nested hhdr hv hm' hm⟩
              · cases hstring : isProbablyString v with
                | true => exact ⟨_, .text hhdr hv ⟨_, hno⟩ hstring hm⟩
                | false => exact ⟨_, .raw hhdr hv ⟨_, hno⟩ hstring hm⟩
          | startGroup => exact hbs.elim
          | endGroup => exact hbs.elim
          | invalid n => exact hbs.elim
      | @group hdr body e rest t hhdr hbody he hrest =>
          have hpos := hhdr.1.length_pos
          simp only [List.length_append] at hlength ih
          have htamer : Tame [] ((hdr ++ (body ++ e)) ++ (rest ++ [])) := by simpa using htame
          obtain ⟨m', hm'⟩ := ih body.length (by omega) hbody (by omega) htame.sub rfl
          obtain ⟨m, hm⟩ := ih rest.length (by omega) hrest (by omega) htamer.sub rfl
          exact ⟨_, .group hhdr hm' he hm⟩

/-! ### It ends -/

/-- The function returns, with success or an error. -/
def Returns (p : Printed) : Prop := ∃ out r, p = some (out, r) ∧ r ≠ .error .panic

theorem returns_error (out : Text) (e : ReadError) : Returns (some (out, .error (.error e))) :=
  ⟨out, _, rfl, by simp⟩

theorem Returns.after {p : Printed} (h : Returns p) (line : Text) : Returns (p.after line) := by
  obtain ⟨out, r, rfl, hr⟩ := h
  exact ⟨line ++ out, r, rfl, hr⟩

theorem Returns.andThen {p : Printed} {next : CodedReader → Printed} (h : Returns p)
    (hnext : ∀ out cb, p = some (out, .ok cb) → Returns (next cb)) : Returns (p.andThen next) := by
  obtain ⟨out, r, rfl, hr⟩ := h
  cases r with
  | error e => exact ⟨out, .error e, rfl, hr⟩
  | ok cb => exact (hnext out cb rfl).after out

theorem returns_field (hfits : Fits done rest) (htame : Tame done rest) (hfuel : rest.length < fuel)
    (ih : ∀ done rest indent inGroup, Fits done rest → Tame done rest → rest.length < fuel →
      Returns (decodeRawMessage floats fuel (reading done rest) indent inGroup)) :
    Returns (decodeField floats (decodeRawMessage floats fuel) (isProbablyMessage fuel) t indent inGroup
      (reading done rest) w) := by
  have hnext : ∀ bs rest' indent inGroup, rest = bs ++ rest' →
      Returns (decodeRawMessage floats fuel (reading (done ++ bs) rest') indent inGroup) := by
    rintro bs rest' indent inGroup rfl
    rw [List.length_append] at hfuel
    exact ih _ _ _ _ hfits.move htame.move (by omega)
  cases w with
  | varint =>
      rw [decodeField]
      rcases reads_number.sound _ _ hfits with ⟨bs, v, rest, rfl, hbs⟩ | ⟨e, he⟩
      · rw [reads_number.complete hfits hbs]
        exact (hnext bs rest indent inGroup rfl).after _
      · rw [he]
        exact returns_error _ e
  | fixed32 =>
      rw [decodeField, CodedReader.decodeFixed32]
      rcases (reads_fixed 4 (by decide)).sound _ _ hfits with ⟨bs, v, rest, rfl, hbs⟩ | ⟨e, he⟩
      · rw [(reads_fixed 4 (by decide)).complete hfits hbs]
        exact (hnext bs rest indent inGroup rfl).after _
      · rw [he]
        exact returns_error _ e
  | fixed64 =>
      rw [decodeField, CodedReader.decodeFixed64]
      rcases (reads_fixed 8 (by decide)).sound _ _ hfits with ⟨bs, v, rest, rfl, hbs⟩ | ⟨e, he⟩
      · rw [(reads_fixed 8 (by decide)).complete hfits hbs]
        exact (hnext bs rest indent inGroup rfl).after _
      · rw [he]
        exact returns_error _ e
  | bytes =>
      rw [decodeField]
      rcases reads_bytes.sound _ _ hfits with ⟨bs, v, rest, rfl, hbs⟩ | ⟨e, he⟩
      · have hfitsv := fits_counted hbs hfits
        have htamev := htame.counted hbs
        have hle : v.length ≤ bs.length := by
          obtain ⟨l, -, rfl⟩ := hbs
          rw [List.length_append]
          omega
        rw [Fits, List.length_nil, Nat.zero_add] at hfitsv
        rw [List.length_append] at hfuel
        rw [reads_bytes.complete hfits hbs]
        simp only
        rcases guess_iff hfitsv htamev (show v.length < fuel by omega) with ⟨-, hguess⟩ | ⟨-, hguess⟩
        · rw [hguess]
          refine ((ih [] v _ false (fits_counted hbs hfits) htamev (by omega)).after _).andThen fun _ _ _ => ?_
          exact (hnext bs rest indent inGroup rfl).after _
        · rw [hguess]
          exact (hnext bs rest indent inGroup rfl).after _
      · rw [he]
        exact returns_error _ e
  | startGroup =>
      rw [decodeField]
      refine ((ih done rest _ true hfits htame hfuel).after _).andThen fun out cb hbody => ?_
      obtain ⟨out, hbody, -⟩ := after_ok_iff.mp hbody
      obtain ⟨bs, e, rest', m, rfl, -, -, -, rfl⟩ := holds_of_decode _ _ _ _ _ _ _ hfits hbody
      rw [List.append_assoc done]
      exact (hnext (bs ++ e) rest' indent inGroup (List.append_assoc _ _ _).symm).after _
  | endGroup => exact returns_error _ _
  | invalid n => exact returns_error _ _

theorem decode_returns (floats : Floats) (fuel : Nat) (done rest : List UInt8) (indent : Text) (inGroup : Bool)
    (hfits : Fits done rest) (htame : Tame done rest) (hfuel : rest.length < fuel) :
    Returns (decodeRawMessage floats fuel (reading done rest) indent inGroup) := by
  induction fuel generalizing done rest indent inGroup with
  | zero => exact absurd hfuel (Nat.not_lt_zero _)
  | succ fuel ih =>
      rcases head_cases done rest hfits with rfl | ⟨hdr, t, w, rest, rfl, hhdr⟩ | ⟨hne, e, he⟩
      · rw [decode_nil]
        cases inGroup with
        | true => exact returns_error _ _
        | false => exact ⟨_, _, rfl, by simp⟩
      · have hpos := hhdr.length_pos
        rw [List.length_append] at hfuel
        rw [decode_header hhdr hfits]
        by_cases hend : w = .endGroup
        · rw [if_pos hend]
          cases inGroup with
          | true => exact ⟨_, _, rfl, by simp⟩
          | false => exact returns_error _ _
        · rw [if_neg hend]
          by_cases hlegal : Legal t
          · rw [if_neg (not_not.mpr hlegal)]
            exact returns_field hfits.move htame.move (by omega) ih
          · rw [if_pos hlegal]
            exact returns_error _ _
      · rw [decodeRawMessage, if_neg (fun heof => hne (eof_reading.mp heof)), he]
        exact returns_error _ e

/-- **Which bytes are accepted.** Of tame bytes the tool lists those that are fields, and returns an error for all others;
    it does not panic and does not run on. -/
theorem decodeRaw_accepts_iff (floats : Floats) {data : List UInt8} (hlength : data.length < 2 ^ 62)
    (htame : Tame [] data) (hfuel : data.length < fuel) :
    (Fields data → ∃ m fuel' cb, Wire data m ∧ doDecodeRaw floats fuel' data = some (render floats [] m, .ok cb)) ∧
      (¬ Fields data → ∃ out e, doDecodeRaw floats fuel data = some (out, .error (.error e))) := by
  constructor
  · intro hfields
    obtain ⟨m, hm⟩ := wire_of_fields hfields hlength htame
    obtain ⟨fuel', cb, hdecode⟩ := decodeRaw_of_wire floats hlength hm
    exact ⟨m, fuel', cb, hm, hdecode⟩
  · intro hno
    obtain ⟨out, r, hdecode, hr⟩ := decode_returns floats fuel [] data [] false (fits_nil hlength)
      htame hfuel
    cases r with
    | ok cb =>
        obtain ⟨m, hm, -⟩ := wire_of_decodeRaw hlength hdecode
        exact absurd hm.fields hno
    | error e =>
        cases e with
        | error e => exact ⟨out, e, hdecode⟩
        | panic => exact absurd rfl hr

theorem decodeRaw_accepts_iff_group :
    Fields [0x0b, 0x10, 0x96, 0x01, 0x0c] ∧
      ∃ m fuel' cb, Wire [0x0b, 0x10, 0x96, 0x01, 0x0c] m ∧
        doDecodeRaw ⟨fun _ => [], fun _ => []⟩ fuel' [0x0b, 0x10, 0x96, 0x01, 0x0c] =
          some (render ⟨fun _ => [], fun _ => []⟩ [] m, .ok cb) := by
  obtain ⟨haccepts, hrejects⟩ := @decodeRaw_accepts_iff 6 ⟨fun _ => [], fun _ => []⟩
    [0x0b, 0x10, 0x96, 0x01, 0x0c] (by decide) (tame_of_short (by decide)) (by decide)
  have hok : (doDecodeRaw ⟨fun _ => [], fun _ => []⟩ 6 [0x0b, 0x10, 0x96, 0x01, 0x0c]).map (fun r => r.2.isOk)
      = some true := rfl
  have hfields : Fields [0x0b, 0x10, 0x96, 0x01, 0x0c] := by
    by_contra hno
    obtain ⟨out, e, herror⟩ := hrejects hno
    rw [herror] at hok
    exact absurd hok (by simp [Except.isOk, Except.toBool])
  exact ⟨hfields, haccepts hfields⟩

/-- **A message that never comes to an end.** A field of bytes, among them a count that leads back to the first. -/
theorem decodeRaw_never_ends (floats : Floats) {p l : List UInt8} {n : UInt64} {hdr' : List UInt8} {t' : Nat}
    (hp : Fields p) (hhdr' : Begins hdr' t' .bytes) (hl : Number l n)
    (hback : n.toNat + (p ++ (hdr' ++ l)).length = 2 ^ 64) (hhdr : Begins hdr t .bytes)
    (hbs : Counted bs (p ++ (hdr' ++ (l ++ v)))) (hlength : (hdr ++ (bs ++ rest)).length < 2 ^ 62) (fuel : Nat) :
    doDecodeRaw floats fuel (hdr ++ (bs ++ rest)) = none := by
  have hfits := fits_nil hlength
  cases fuel with
  | zero => rfl
  | succ fuel =>
      have hfitsv := fits_counted hbs hfits.move
      rw [Fits, List.length_nil, Nat.zero_add] at hfitsv
      have hnever := never_guesses hp hhdr' hl hback hfitsv fuel
      rw [doDecodeRaw, newCodedReader_eq, decode_begins hhdr (by decide) hfits, decodeField,
        reads_bytes.complete hfits.move hbs]
      simp only [hnever]

theorem decodeRaw_never_ends_loop :
    doDecodeRaw ⟨fun _ => [], fun _ => []⟩ 1000
      ([0x0a] ++ ([0x0b, 0x0a, 0xf5, 0xff, 0xff, 0xff, 0xff, 0xff, 0xff, 0xff, 0xff, 0x01] ++ [])) = none := by
  have htag : Begins [0x0a] 1 .bytes :=
    ⟨⟨0x0a, ⟨_, .last (by decide), by decide, rfl⟩, by decide, by decide, by decide⟩, by decide⟩
  have hcount : Number [0xf5, 0xff, 0xff, 0xff, 0xff, 0xff, 0xff, 0xff, 0xff, 0x01] (UInt64.ofNat (2 ^ 64 - 11)) :=
    ⟨_, .more (by decide) <| .more (by decide) <| .more (by decide) <| .more (by decide) <| .more (by decide) <|
      .more (by decide) <| .more (by decide) <| .more (by decide) <| .more (by decide) <| .last (by decide),
      by decide, by decide⟩
  exact decodeRaw_never_ends _ (p := []) (v := []) .nil htag hcount (by decide) htag
    ⟨[0x0b], ⟨0x0b, ⟨_, .last (by decide), by decide, rfl⟩, by decide⟩, rfl⟩ (by decide) 1000

end Goprotoc
end ServiceKit
