import ServiceKit.Lib.GoSource

/-!
# `Lib.Utf8` — where the bytes of a text may be cut

The bytes of a text can be read in one way only, rune after rune, and no rune begins inside another. So what stands
before or after the bytes of a text is valid on its own (`valid_append_utf8_iff`, `valid_utf8_append_iff`), and the
first `n` bytes are valid exactly when they are the bytes of its first runes (`valid_take_iff`).
-/

namespace ServiceKit
namespace Lib
namespace Utf8

open GoSource (utf8 utf8_append)

/-- `utf8.Valid`: the bytes are those of a text. -/
def Valid (bs : List UInt8) : Prop := ∃ t : Text, utf8 t = bs

theorem utf8_cons (c : Char) (t : Text) : utf8 (c :: t) = String.utf8EncodeChar c ++ utf8 t := List.flatMap_cons

theorem utf8_singleton (c : Char) : utf8 [c] = String.utf8EncodeChar c := by
  rw [utf8_cons]
  exact List.append_nil _

theorem utf8_nil_iff {t : Text} : utf8 t = [] ↔ t = [] := by
  constructor
  · intro h
    have hlen := GoSource.length_le_utf8 t
    rw [h] at hlen
    exact List.length_eq_zero_iff.mp (Nat.le_zero.mp hlen)
  · rintro rfl
    exact Eq.refl []

/-- The first rune is known by the bytes. -/
theorem encodeChar_append_inj {c d : Char} {bs bs' : List UInt8}
    (h : String.utf8EncodeChar c ++ bs = String.utf8EncodeChar d ++ bs') : c = d ∧ bs = bs' := by
  have hdecode : ∀ (e : Char) (rest : List UInt8),
      ByteArray.utf8DecodeChar? (String.utf8EncodeChar e ++ rest).toByteArray 0 = some e := by
    intro e rest
    rw [List.toByteArray_append]
    exact ByteArray.utf8DecodeChar?_utf8EncodeChar_append
  have hc := hdecode c bs
  rw [h, hdecode d bs'] at hc
  have hcd : c = d := (Option.some.inj hc).symm
  subst hcd
  exact ⟨Eq.refl c, List.append_cancel_left h⟩

/-- A text whose bytes begin with those of another begins with that one. -/
theorem exists_of_utf8_append {t t' : Text} {bs : List UInt8} (h : utf8 t ++ bs = utf8 t') :
    ∃ s, t' = t ++ s ∧ utf8 s = bs := by
  induction t generalizing t' with
  | nil => exact ⟨t', Eq.refl _, h.symm⟩
  | cons c t ih =>
      cases t' with
      | nil =>
          have hnil := utf8_nil_iff.mp (List.append_eq_nil_iff.mp h).1
          exact absurd hnil (List.cons_ne_nil c t)
      | cons d t' =>
          rw [utf8_cons, utf8_cons, List.append_assoc] at h
          obtain ⟨rfl, hrest⟩ := encodeChar_append_inj h
          obtain ⟨s, rfl, hs⟩ := ih hrest
          exact ⟨s, Eq.refl _, hs⟩

/-- **After a text**, what stands there is valid on its own. -/
theorem valid_utf8_append_iff {t : Text} {bs : List UInt8} : Valid (utf8 t ++ bs) ↔ Valid bs := by
  constructor
  · rintro ⟨t', h⟩
    obtain ⟨s, -, hs⟩ := exists_of_utf8_append h.symm
    exact ⟨s, hs⟩
  · rintro ⟨s, rfl⟩
    exact ⟨t ++ s, utf8_append t s⟩

/-- A byte that a rune begins with is the first byte of its rune. -/
theorem eq_nil_of_encodeChar {c : Char} {bs bs' : List UInt8} {b : UInt8} (hb : b.IsUTF8FirstByte)
    (h : String.utf8EncodeChar c = bs ++ b :: bs') : bs = [] := by
  have hlt : bs.length < (String.utf8EncodeChar c).length := by simp [h]
  have hget : (String.utf8EncodeChar c)[bs.length] = b := by simp [h]
  rw [← hget] at hb
  exact List.length_eq_zero_iff.mp (UInt8.isUTF8FirstByte_getElem_utf8EncodeChar.mp hb)

/-- Before such a byte, the bytes are those of a text. -/
theorem valid_of_firstByte {t : Text} {bs bs' : List UInt8} {b : UInt8} (hb : b.IsUTF8FirstByte)
    (h : utf8 t = bs ++ b :: bs') : Valid bs := by
  induction t generalizing bs with
  | nil => exact absurd h.symm (List.append_ne_nil_of_right_ne_nil bs (List.cons_ne_nil b bs'))
  | cons c t ih =>
      rw [utf8_cons] at h
      rcases List.append_eq_append_iff.mp h with ⟨rest, rfl, hrest⟩ | ⟨rest, hc, hrest⟩
      · rw [← utf8_singleton]
        exact valid_utf8_append_iff.mpr (ih hrest)
      · cases rest with
        | nil => exact ⟨[c], by rw [utf8_singleton, hc, List.append_nil]⟩
        | cons b' rest =>
            obtain ⟨rfl, -⟩ := List.cons.inj hrest
            rw [eq_nil_of_encodeChar hb hc]
            exact ⟨[], Eq.refl _⟩

/-- **Before a text**, what stands there is valid on its own. -/
theorem valid_append_utf8_iff {t : Text} {bs : List UInt8} : Valid (bs ++ utf8 t) ↔ Valid bs := by
  constructor
  · rintro ⟨t', h⟩
    cases t with
    | nil =>
        have hnil : utf8 [] = [] := Eq.refl []
        rw [hnil, List.append_nil] at h
        exact ⟨t', h⟩
    | cons c t =>
        obtain ⟨b, bs', hc⟩ := List.exists_cons_of_length_pos
          ((String.length_utf8EncodeChar c).symm ▸ Char.utf8Size_pos c)
        have hb : b.IsUTF8FirstByte := by
          have hfirst := UInt8.isUTF8FirstByte_getElem_zero_utf8EncodeChar (c := c)
          simpa only [hc, List.getElem_cons_zero] using hfirst
        rw [utf8_cons, hc, List.cons_append] at h
        exact valid_of_firstByte hb h
  · rintro ⟨s, rfl⟩
    exact ⟨s ++ t, utf8_append s t⟩

/-- **The first bytes of a text** are valid when they are those of its first runes. -/
theorem valid_take_iff {t : Text} {n : Nat} (hn : n ≤ (utf8 t).length) :
    Valid ((utf8 t).take n) ↔ ∃ s, s <+: t ∧ (utf8 s).length = n := by
  constructor
  · rintro ⟨s, hs⟩
    have hsplit : utf8 s ++ (utf8 t).drop n = utf8 t := by rw [hs, List.take_append_drop]
    obtain ⟨rest, rfl, -⟩ := exists_of_utf8_append hsplit
    refine ⟨s, List.prefix_append s rest, ?_⟩
    rw [hs, List.length_take, Nat.min_eq_left hn]
  · rintro ⟨s, ⟨rest, rfl⟩, rfl⟩
    rw [utf8_append, List.take_left]
    exact ⟨s, Eq.refl _⟩

end Utf8
end Lib
end ServiceKit
