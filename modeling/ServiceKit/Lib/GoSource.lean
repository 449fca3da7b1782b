import Mathlib.Data.List.TakeWhile
import ServiceKit.Lib.Text

/-!
# `Lib.GoSource` — a text put into Go source

What is read back where a program writes a text into a Go file: between the quotes of a string literal
(`StringBody`), and after `//go:embed` (`Patterns`). A pattern chooses files as `path.Match` does (`Match`). In each
place a text of plain runes stands for itself; the places differ in which runes are plain.
-/

namespace ServiceKit
namespace Lib
namespace GoSource

/-! ## String literals -/

/-- The bytes of a string. -/
def utf8 (s : Text) : List UInt8 := s.flatMap String.utf8EncodeChar

def digitOf (c : Char) : Option Nat :=
  if c.isDigit then some (c.toNat - 48)
  else if 'a' ≤ c ∧ c ≤ 'f' then some (c.toNat - 87)
  else if 'A' ≤ c ∧ c ≤ 'F' then some (c.toNat - 55)
  else none

/-- The number that digits are in a base. -/
def numberIn (base : Nat) (ds : Text) : Option Nat :=
  ds.foldlM (fun n c => (digitOf c).bind fun d => if d < base then some (base * n + d) else none) 0

/-- What follows the backslash of the short escapes, and the byte. -/
def shortEscapes : List (Char × UInt8) :=
  [('a', 7), ('b', 8), ('t', 9), ('n', 10), ('v', 11), ('f', 12), ('r', 13), ('"', 34), ('\\', 92)]

/-- An escape, without its backslash, and its bytes. -/
inductive Escape : Text → List UInt8 → Prop where
  | short {c : Char} {b : UInt8} : (c, b) ∈ shortEscapes → Escape [c] [b]
  | octal {ds : Text} {n : Nat} : ds.length = 3 → numberIn 8 ds = some n → n < 256 → Escape ds [UInt8.ofNat n]
  | hex {ds : Text} {n : Nat} : ds.length = 2 → numberIn 16 ds = some n → Escape ('x' :: ds) [UInt8.ofNat n]
  | littleU {ds : Text} {c : Char} : ds.length = 4 → numberIn 16 ds = some c.toNat →
      Escape ('u' :: ds) (String.utf8EncodeChar c)
  | bigU {ds : Text} {c : Char} : ds.length = 8 → numberIn 16 ds = some c.toNat →
      Escape ('U' :: ds) (String.utf8EncodeChar c)

/-- What may stand between two double quotes, and the bytes of the string. -/
inductive StringBody : Text → List UInt8 → Prop where
  | nil : StringBody [] []
  | rune {c : Char} {t : Text} {bs : List UInt8} : c ≠ '"' → c ≠ '\\' → c ≠ '\n' → StringBody t bs →
      StringBody (c :: t) (String.utf8EncodeChar c ++ bs)
  | escape {e t : Text} {cs bs : List UInt8} : Escape e cs → StringBody t bs →
      StringBody ('\\' :: e ++ t) (cs ++ bs)

/-- `"body"` is a literal of the string `value`. -/
def Denotes (body value : Text) : Prop := StringBody body (utf8 value)

theorem utf8_append (s t : Text) : utf8 (s ++ t) = utf8 s ++ utf8 t := List.flatMap_append

theorem length_utf8_cons (c : Char) (t : Text) : (utf8 (c :: t)).length = c.utf8Size + (utf8 t).length := by
  rw [utf8, List.flatMap_cons, List.length_append, String.length_utf8EncodeChar, utf8]

theorem length_utf8_append (s t : Text) : (utf8 (s ++ t)).length = (utf8 s).length + (utf8 t).length := by
  rw [utf8_append, List.length_append]

theorem length_le_utf8 (t : Text) : t.length ≤ (utf8 t).length := by
  induction t with
  | nil => exact Nat.zero_le 0
  | cons c t ih =>
      have hc := Char.utf8Size_pos c
      rw [length_utf8_cons, List.length_cons]
      omega

/-- No escape is shorter than its bytes. -/
theorem Escape.length_le {e : Text} {cs : List UInt8} (h : Escape e cs) : cs.length ≤ e.length := by
  cases h with
  | short => exact Nat.le_refl 1
  | octal hlen =>
      show 1 ≤ e.length
      omega
  | hex => exact Nat.le_add_left 1 _
  | @littleU ds c hlen =>
      have hsize := Char.utf8Size_le_four c
      rw [String.length_utf8EncodeChar, List.length_cons]
      omega
  | @bigU ds c hlen =>
      have hsize := Char.utf8Size_le_four c
      rw [String.length_utf8EncodeChar, List.length_cons]
      omega

/-- No literal is shorter than its string, and one with an escape is longer. -/
theorem StringBody.length_le {t : Text} {bs : List UInt8} (h : StringBody t bs) :
    bs.length ≤ (utf8 t).length ∧ ('\\' ∈ t → bs.length < (utf8 t).length) := by
  induction h with
  | nil => exact ⟨Nat.le_refl 0, nofun⟩
  | @rune c t bs _ hback _ _ ih =>
      rw [length_utf8_cons, List.length_append, String.length_utf8EncodeChar]
      refine ⟨by omega, ?_⟩
      intro hmem
      have hlt := ih.2 ((List.mem_cons.mp hmem).resolve_left (fun heq => hback heq.symm))
      omega
  | @escape e t cs bs he _ ih =>
      have hesc := he.length_le
      have hlen := length_le_utf8 ('\\' :: e)
      rw [List.length_cons] at hlen
      rw [length_utf8_append, List.length_append]
      omega

/-- **A literal that denotes itself** has no escape. -/
theorem Denotes.no_backslash {t : Text} (h : Denotes t t) : '\\' ∉ t := by
  intro hmem
  have hlt := (StringBody.length_le h).2 hmem
  omega

/-- Between its quotes a text without a backslash is its own string. -/
theorem StringBody.eq_utf8 {t : Text} {bs : List UInt8} (h : StringBody t bs) (hplain : '\\' ∉ t) : bs = utf8 t := by
  induction h with
  | nil => rfl
  | @rune c t bs _ _ _ _ ih =>
      rw [ih (fun hmem => hplain (List.mem_cons_of_mem c hmem)), utf8, utf8, List.flatMap_cons]
  | escape => exact absurd List.mem_cons_self hplain

/-- The literals of the two texts are of one string. -/
def SameString (body body' : Text) : Prop := ∃ bs, StringBody body bs ∧ StringBody body' bs

theorem not_sameString {body body' : Text} (h : '\\' ∉ body) (h' : '\\' ∉ body') (hne : utf8 body ≠ utf8 body') :
    ¬SameString body body' := by
  rintro ⟨bs, hbs, hbs'⟩
  exact hne ((hbs.eq_utf8 h).symm.trans (hbs'.eq_utf8 h'))

theorem denotes_of_plain {t : Text} (h : ∀ c ∈ t, c ≠ '"' ∧ c ≠ '\\' ∧ c ≠ '\n') : Denotes t t := by
  induction t with
  | nil => exact StringBody.nil
  | cons c t ih =>
      obtain ⟨hquote, hback, hline⟩ := h c List.mem_cons_self
      exact StringBody.rune hquote hback hline (ih (fun d hd => h d (List.mem_cons_of_mem c hd)))

/-! ## Embed directives -/

/-- The rest of the line that a text begins on. -/
def firstLine (t : Text) : Text := t.takeWhile (· ≠ '\n')

/-- A pattern ends at a space, or with the line. -/
def EndsPattern (rest : Text) : Prop := ∀ c, rest.head? = some c → isSpace c = true

theorem endsPattern_nil : EndsPattern [] := by
  intro c hc
  simp at hc

/-- The patterns that stand after `//go:embed`: words, and quoted strings of either kind. -/
inductive Patterns : Text → List Text → Prop where
  | nil : Patterns [] []
  | space {c : Char} {args : Text} {ps : List Text} : isSpace c = true → Patterns args ps → Patterns (c :: args) ps
  | word {w rest : Text} {ps : List Text} : w ≠ [] → (∀ c ∈ w, isSpace c = false) → w.head? ≠ some '"' →
      w.head? ≠ some '\x60' → EndsPattern rest → Patterns rest ps → Patterns (w ++ rest) (w :: ps)
  | raw {p rest : Text} {ps : List Text} : '\x60' ∉ p → EndsPattern rest → Patterns rest ps →
      Patterns ('\x60' :: p ++ '\x60' :: rest) (p :: ps)
  | quoted {body p rest : Text} {ps : List Text} : Denotes body p → EndsPattern rest → Patterns rest ps →
      Patterns ('"' :: body ++ '"' :: rest) (p :: ps)

/-- A pattern is a word of its line, or shorter than the line. -/
theorem Patterns.bare_or_shorter {args p : Text} {ps : List Text} (h : Patterns args ps) (hps : ps = [p]) :
    (∀ c ∈ p, isSpace c = false) ∨ (utf8 p).length < (utf8 args).length := by
  induction h with
  | nil => exact absurd hps nofun
  | @space c args ps _ _ ih =>
      have hargs := length_utf8_cons c args
      rcases ih hps with hbare | hlt
      · exact Or.inl hbare
      · exact Or.inr (by omega)
  | word _ hbare =>
      rw [← (List.cons.inj hps).1]
      exact Or.inl hbare
  | @raw p' rest ps _ _ _ =>
      have hargs := length_utf8_append ('\x60' :: p') ('\x60' :: rest)
      have hquote := length_utf8_cons '\x60' p'
      have hpos := Char.utf8Size_pos '\x60'
      rw [← (List.cons.inj hps).1]
      exact Or.inr (by omega)
  | @quoted body p' rest ps hbody _ _ =>
      have hle := (StringBody.length_le hbody).1
      have hargs := length_utf8_append ('"' :: body) ('"' :: rest)
      have hquote := length_utf8_cons '"' body
      have hpos := Char.utf8Size_pos '"'
      rw [← (List.cons.inj hps).1]
      exact Or.inr (by omega)

/-- **A text that is the one pattern of the directive it is written in** has no space. -/
theorem Patterns.no_space {p : Text} (h : Patterns (firstLine p) [p]) : ∀ c ∈ p, isSpace c = false := by
  rcases h.bare_or_shorter (Eq.refl _) with hbare | hlt
  · exact hbare
  · have hline : p = firstLine p ++ p.dropWhile (· ≠ '\n') := List.takeWhile_append_dropWhile.symm
    have hlength := length_utf8_append (firstLine p) (p.dropWhile (· ≠ '\n'))
    rw [← hline] at hlength
    omega

theorem patterns_of_plain {p : Text} (hne : p ≠ []) (hspace : ∀ c ∈ p, isSpace c = false)
    (hquote : ∀ c ∈ p, c ≠ '"' ∧ c ≠ '\x60') : Patterns (firstLine p) [p] := by
  have hline : firstLine p = p := by
    rw [firstLine, List.takeWhile_eq_self_iff]
    intro c hc
    have hnot : c ≠ '\n' := by
      rintro rfl
      exact absurd (hspace '\n' hc) (by decide)
    simpa using hnot
  have hword := Patterns.word hne hspace (fun hhead => (hquote _ (List.mem_of_head? hhead)).1 (Eq.refl _))
    (fun hhead => (hquote _ (List.mem_of_head? hhead)).2 (Eq.refl _)) endsPattern_nil Patterns.nil
  rw [List.append_nil] at hword
  rw [hline]
  exact hword

/-! ## `path.Match` -/

/-- A pattern without the `all:` that may stand before it. -/
def globOf (pattern : Text) : Text := if "all:".toList.isPrefixOf pattern then pattern.drop 4 else pattern

/-- A rune as it may stand in a class. -/
inductive ClassRune : Text → Char → Prop where
  | plain {c : Char} : c ∉ ['\\', '-', ']'] → ClassRune [c] c
  | escaped (c : Char) : ClassRune ['\\', c] c

/-- The ranges of a class, each with its bounds. -/
inductive Ranges : Text → List (Char × Char) → Prop where
  | rune {t : Text} {c : Char} : ClassRune t c → Ranges t [(c, c)]
  | range {t t' : Text} {lo hi : Char} : ClassRune t lo → ClassRune t' hi → Ranges (t ++ '-' :: t') [(lo, hi)]
  | append {t t' : Text} {rs rs' : List (Char × Char)} : Ranges t rs → Ranges t' rs' → Ranges (t ++ t') (rs ++ rs')

def InRanges (c : Char) (rs : List (Char × Char)) : Prop := ∃ r ∈ rs, r.1 ≤ c ∧ c ≤ r.2

/-- `path.Match`: the pattern matches the whole name. -/
inductive Match : Text → Text → Prop where
  | nil : Match [] []
  | star {p q s : Text} : '/' ∉ q → Match p s → Match ('*' :: p) (q ++ s)
  | any {c : Char} {p s : Text} : c ≠ '/' → Match p s → Match ('?' :: p) (c :: s)
  | oneOf {c : Char} {t p s : Text} {rs : List (Char × Char)} : t.head? ≠ some '^' → Ranges t rs → InRanges c rs →
      Match p s → Match ('[' :: (t ++ ']' :: p)) (c :: s)
  | noneOf {c : Char} {t p s : Text} {rs : List (Char × Char)} : Ranges t rs → ¬InRanges c rs → Match p s →
      Match ('[' :: '^' :: (t ++ ']' :: p)) (c :: s)
  | escaped {c : Char} {p s : Text} : Match p s → Match ('\\' :: c :: p) (c :: s)
  | literal {c : Char} {p s : Text} : c ∉ ['*', '?', '[', '\\'] → Match p s → Match (c :: p) (c :: s)

/-- No rune of the text has a meaning in a pattern. -/
def Literal (p : Text) : Prop := ∀ c ∈ p, c ∉ ['*', '?', '[', '\\']

theorem Literal.of_cons {c : Char} {p : Text} (h : Literal (c :: p)) : c ∉ ['*', '?', '[', '\\'] ∧ Literal p :=
  ⟨h c List.mem_cons_self, fun d hd => h d (List.mem_cons_of_mem c hd)⟩

/-- A literal rune of the pattern matches itself. -/
theorem match_cons_iff {c : Char} {p s : Text} (hc : c ∉ ['*', '?', '[', '\\']) :
    Match (c :: p) s ↔ ∃ s', s = c :: s' ∧ Match p s' := by
  constructor
  · intro h
    cases h with
    | star | any | oneOf | noneOf | escaped => exact absurd (by decide) hc
    | @literal _ _ s' _ hp => exact ⟨s', Eq.refl _, hp⟩
  · rintro ⟨s', rfl, hp⟩
    exact Match.literal hc hp

/-- **A pattern without meta characters** matches itself alone. -/
theorem match_literal_append {p : Text} (hp : Literal p) (q s : Text) :
    Match (p ++ q) s ↔ ∃ s', s = p ++ s' ∧ Match q s' := by
  induction p generalizing s with
  | nil => simp
  | cons c p ih =>
      obtain ⟨hc, hp⟩ := hp.of_cons
      rw [List.cons_append, match_cons_iff hc]
      constructor
      · rintro ⟨s', rfl, h⟩
        obtain ⟨s'', rfl, hq⟩ := (ih hp s').mp h
        exact ⟨s'', Eq.refl _, hq⟩
      · rintro ⟨s'', rfl, hq⟩
        exact ⟨p ++ s'', Eq.refl _, (ih hp _).mpr ⟨s'', Eq.refl _, hq⟩⟩

theorem match_nil_iff {s : Text} : Match [] s ↔ s = [] := by
  constructor
  · intro h
    cases h with
    | nil => exact Eq.refl []
  · rintro rfl
    exact Match.nil

theorem match_literal_iff {p : Text} (hp : Literal p) (s : Text) : Match p s ↔ s = p := by
  have h := match_literal_append hp [] s
  simpa [match_nil_iff] using h

theorem match_star_iff {s : Text} : Match ['*'] s ↔ '/' ∉ s := by
  constructor
  · intro h
    cases h with
    | star hq hs =>
        rw [match_nil_iff.mp hs, List.append_nil]
        exact hq
    | literal hc => exact absurd (by decide) hc
  · intro hs
    have h := Match.star hs Match.nil
    rwa [List.append_nil] at h

/-- A pattern matches what it is with a rune for each star. -/
theorem match_map_star {p : Text} (hp : ∀ c ∈ p, c ∉ ['?', '[', '\\']) {x : Char} (hx : x ≠ '/') :
    Match p (p.map fun c => if c = '*' then x else c) := by
  induction p with
  | nil => exact Match.nil
  | cons c p ih =>
      have hrest := ih (fun d hd => hp d (List.mem_cons_of_mem c hd))
      rw [List.map_cons]
      by_cases hstar : c = '*'
      · subst hstar
        rw [if_pos (Eq.refl _)]
        exact Match.star (q := [x]) (by simpa using hx.symm) hrest
      · rw [if_neg hstar]
        refine Match.literal ?_ hrest
        have hc := hp c List.mem_cons_self
        simp only [List.mem_cons, not_or] at hc ⊢
        exact ⟨hstar, hc⟩

end GoSource
end Lib
end ServiceKit
