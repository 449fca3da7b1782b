import Mathlib.Data.List.Forall2

/-!
# `Lib.Text` — text as runes

A Go string, read as runes. What a rune is (a letter, a digit, its upper case) is up to the tables of `unicode`,
which are a parameter (`Unicode`), fixed on ASCII. `fieldsFunc` splits a text at the runs of separators. `marked` is
the same split without the pieces: the runes that stay, each with whether it starts a piece; texts that differ in the
case of those runes are compared rune by rune (`Agree`).
-/

namespace ServiceKit
namespace Lib

/-- A Go `string` as its runes. -/
abbrev Text := List Char

/-- The tables of package `unicode`. -/
structure Unicode where
  isLetter : Char → Bool
  isDigit : Char → Bool
  isUpper : Char → Bool
  isLower : Char → Bool
  toUpper : Char → Char
  toLower : Char → Char
  toTitle : Char → Char
  isLetter_ascii : ∀ c, c.val < 128 → isLetter c = c.isAlpha
  isDigit_ascii : ∀ c, c.val < 128 → isDigit c = c.isDigit
  isUpper_ascii : ∀ c, c.val < 128 → isUpper c = c.isUpper
  isLower_ascii : ∀ c, c.val < 128 → isLower c = c.isLower
  toUpper_ascii : ∀ c, c.val < 128 → toUpper c = c.toUpper
  toLower_ascii : ∀ c, c.val < 128 → toLower c = c.toLower
  toTitle_ascii : ∀ c, c.val < 128 → toTitle c = c.toUpper
  /-- No rune has a small Latin letter as its upper case. -/
  toUpper_not_lower : ∀ c, (toUpper c).isLower = false
  /-- No other rune has `_` as its lower case or its title case. -/
  eq_underscore_of_toLower : ∀ c, toLower c = '_' → c = '_'
  eq_underscore_of_toTitle : ∀ c, toTitle c = '_' → c = '_'

theorem isLower_toUpper (c : Char) : c.toUpper.isLower = false := by
  unfold Char.isLower Char.toUpper
  split
  · grind [UInt32.toNat_add, Char.toNat_val]
  · grind [UInt32.toNat_add, Char.toNat_val]

theorem underscore_of_toLower {c : Char} (h : c.toLower = '_') : c = '_' := by
  unfold Char.toLower at h
  split at h
  · next hrange =>
      have hval : c.val.toNat + 32 = 95 ∨ 4294967296 ≤ c.val.toNat + 32 := by
        have hsum : (c.val + 32).toNat = 95 := congrArg (fun d : Char => d.val.toNat) h
        rw [UInt32.toNat_add] at hsum
        change (c.val.toNat + 32) % 4294967296 = 95 at hsum
        omega
      have hlow : 65 ≤ c.val.toNat := UInt32.le_iff_toNat_le.mp hrange.1
      have hhigh : c.val.toNat ≤ 90 := UInt32.le_iff_toNat_le.mp hrange.2
      omega
  · exact h

theorem underscore_of_toUpper {c : Char} (h : c.toUpper = '_') : c = '_' := by
  unfold Char.toUpper at h
  split at h
  · next hrange =>
      have hsum := congrArg (fun d : Char => d.val.toNat) h
      simp only [UInt32.toNat_add] at hsum
      have hcase : ('A'.val - 'a'.val).toNat = 4294967264 := by decide
      rw [hcase] at hsum
      have hcode : '_'.val.toNat = 95 := by decide
      rw [hcode] at hsum
      have hlow : 97 ≤ c.val.toNat := UInt32.le_iff_toNat_le.mp hrange.1
      have hhigh : c.val.toNat ≤ 122 := UInt32.le_iff_toNat_le.mp hrange.2
      omega
  · exact h

/-- The tables, were there no runes but ASCII. -/
def Unicode.ascii : Unicode where
  isLetter := Char.isAlpha
  isDigit := Char.isDigit
  isUpper := Char.isUpper
  isLower := Char.isLower
  toUpper := Char.toUpper
  toLower := Char.toLower
  toTitle := Char.toUpper
  isLetter_ascii _ _ := rfl
  isDigit_ascii _ _ := rfl
  isUpper_ascii _ _ := rfl
  isLower_ascii _ _ := rfl
  toUpper_ascii _ _ := rfl
  toLower_ascii _ _ := rfl
  toTitle_ascii _ _ := rfl
  toUpper_not_lower := isLower_toUpper
  eq_underscore_of_toLower _ h := underscore_of_toLower h
  eq_underscore_of_toTitle _ h := underscore_of_toUpper h

theorem lt_of_isUpper {c : Char} (h : c.isUpper = true) : c.val < 128 := by
  unfold Char.isUpper at h
  simp only [ge_iff_le, decide_eq_true_eq] at h
  exact UInt32.lt_of_le_of_lt h.2 (by decide)

theorem Unicode.isLetter_of_isUpper (U : Unicode) {c : Char} (h : c.isUpper = true) : U.isLetter c = true := by
  rw [U.isLetter_ascii c (lt_of_isUpper h)]
  unfold Char.isAlpha
  rw [h, Bool.true_or]

theorem Unicode.toUpper_of_isUpper (U : Unicode) {c : Char} (h : c.isUpper = true) : U.toUpper c = c := by
  rw [U.toUpper_ascii c (lt_of_isUpper h)]
  unfold Char.toUpper
  rw [dif_neg]
  rintro ⟨hlow, -⟩
  unfold Char.isUpper at h
  simp only [ge_iff_le, decide_eq_true_eq] at h
  exact absurd (UInt32.le_trans hlow h.2) (by decide)

theorem lt_of_isLower {c : Char} (h : c.isLower = true) : c.val < 128 := by
  unfold Char.isLower at h
  simp only [ge_iff_le, Bool.and_eq_true, decide_eq_true_eq] at h
  exact UInt32.lt_of_le_of_lt h.2 (by decide)

theorem not_le_of_isLower {c : Char} (h : c.isLower = true) : ¬c.val ≤ 'Z'.val := by
  intro hle
  unfold Char.isLower at h
  simp only [ge_iff_le, Bool.and_eq_true, decide_eq_true_eq] at h
  exact absurd (UInt32.le_trans h.1 hle) (by decide)

theorem Unicode.isUpper_of_isLower (U : Unicode) {c : Char} (h : c.isLower = true) : U.isUpper c = false := by
  rw [U.isUpper_ascii c (lt_of_isLower h)]
  apply decide_eq_false
  rintro ⟨-, hle⟩
  exact not_le_of_isLower h hle

theorem Unicode.toLower_of_isLower (U : Unicode) {c : Char} (h : c.isLower = true) : U.toLower c = c := by
  rw [U.toLower_ascii c (lt_of_isLower h)]
  unfold Char.toLower
  rw [dif_neg]
  rintro ⟨-, hle⟩
  exact not_le_of_isLower h hle

/-- `unicode.IsSpace`. -/
def isSpace (c : Char) : Bool :=
  c ∈ ['\t', '\n', '\x0b', '\x0c', '\r', ' ', '\u0085', '\u00a0', '\u1680', '\u2028', '\u2029', '\u202f', '\u205f',
    '\u3000'] || ('\u2000' ≤ c && c ≤ '\u200a')

/-- `strings.TrimSpace`. -/
def trimSpace (s : Text) : Text := ((s.dropWhile isSpace).reverse.dropWhile isSpace).reverse

section Split

variable (sep : Char → Bool)

/-- `strings.FieldsFunc`, with the piece that is being read. -/
def fieldsFrom : Text → Text → List Text
  | piece, [] => if piece = [] then [] else [piece]
  | piece, c :: cs =>
      if sep c then if piece = [] then fieldsFrom [] cs else piece :: fieldsFrom [] cs
      else fieldsFrom (piece ++ [c]) cs

/-- `strings.FieldsFunc`: the pieces between the runs of separators. -/
def fieldsFunc (s : Text) : List Text := fieldsFrom sep [] s

/-- `strings.Fields`. -/
def fields (s : Text) : List Text := fieldsFunc isSpace s

/-- The runes that are no separators, each with whether it starts a piece; `start` is whether the first one does. -/
def marked : Bool → Text → List (Char × Bool)
  | _, [] => []
  | start, c :: cs => if sep c then marked true cs else (c, start) :: marked false cs

variable {sep}

theorem fieldsFrom_no_sep {piece s w : Text} (hp : ∀ c ∈ piece, sep c = false) (h : w ∈ fieldsFrom sep piece s) :
    ∀ c ∈ w, sep c = false := by
  induction s generalizing piece with
  | nil =>
      rw [fieldsFrom] at h
      split at h
      · exact absurd h nofun
      · rw [List.mem_singleton.mp h]
        exact hp
  | cons d ds ih =>
      rw [fieldsFrom] at h
      split at h
      · split at h
        · exact ih (List.forall_mem_nil _) h
        · rcases List.mem_cons.mp h with rfl | h
          · exact hp
          · exact ih (List.forall_mem_nil _) h
      · next hd =>
          apply ih _ h
          intro c hc
          rcases List.mem_append.mp hc with hc | hc
          · exact hp c hc
          · rw [List.mem_singleton.mp hc]
            exact Bool.eq_false_iff.mpr hd

theorem fieldsFunc_no_sep {s w : Text} (h : w ∈ fieldsFunc sep s) : ∀ c ∈ w, sep c = false :=
  fieldsFrom_no_sep (List.forall_mem_nil _) h

/-- A separator cuts the text that it stands in. -/
theorem fieldsFrom_append_sep {c : Char} (hc : sep c = true) (piece x y : Text) :
    fieldsFrom sep piece (x ++ c :: y) = fieldsFrom sep piece x ++ fieldsFunc sep y := by
  induction x generalizing piece with
  | nil =>
      rw [List.nil_append, fieldsFrom, fieldsFrom, if_pos hc]
      split
      · rfl
      · rfl
  | cons d ds ih =>
      rw [List.cons_append, fieldsFrom, fieldsFrom]
      split
      · split
        · exact ih []
        · rw [ih, List.cons_append]
      · exact ih _

theorem fieldsFunc_append_sep {c : Char} (hc : sep c = true) (x y : Text) :
    fieldsFunc sep (x ++ c :: y) = fieldsFunc sep x ++ fieldsFunc sep y := fieldsFrom_append_sep hc [] x y

theorem fieldsFunc_cons_sep {c : Char} (hc : sep c = true) (y : Text) : fieldsFunc sep (c :: y) = fieldsFunc sep y :=
  fieldsFunc_append_sep hc [] y

theorem fieldsFrom_of_no_sep {s : Text} (h : ∀ c ∈ s, sep c = false) (piece : Text) :
    fieldsFrom sep piece s = if piece ++ s = [] then [] else [piece ++ s] := by
  induction s generalizing piece with
  | nil => simp [fieldsFrom]
  | cons c cs ih =>
      have hc := h c List.mem_cons_self
      rw [fieldsFrom, hc, if_neg Bool.false_ne_true, ih (fun d hd => h d (List.mem_cons_of_mem c hd))]
      simp

/-- **Pieces joined by a separator** are found again. -/
theorem fieldsFunc_intercalate {c : Char} (hc : sep c = true) {ws : List Text}
    (h : ∀ w ∈ ws, w ≠ [] ∧ ∀ d ∈ w, sep d = false) : fieldsFunc sep ([c].intercalate ws) = ws := by
  induction ws with
  | nil => rfl
  | cons w ws ih =>
      obtain ⟨hne, hw⟩ := h w List.mem_cons_self
      have hpiece : fieldsFunc sep w = [w] := by
        rw [fieldsFunc, fieldsFrom_of_no_sep hw, List.nil_append, if_neg hne]
      cases ws with
      | nil => rw [List.intercalate_singleton, hpiece]
      | cons v vs =>
          rw [List.intercalate_cons_cons, List.append_assoc]
          show fieldsFunc sep (w ++ c :: [c].intercalate (v :: vs)) = _
          rw [fieldsFunc_append_sep hc, hpiece, ih (fun u hu => h u (List.mem_cons_of_mem w hu))]
          rfl

/-- The first piece of a text that begins with none but its runes. -/
theorem fieldsFunc_takeWhile {s : Text} (h : s.takeWhile (fun c => !sep c) ≠ []) :
    fieldsFunc sep s =
      s.takeWhile (fun c => !sep c) :: fieldsFunc sep (s.dropWhile fun c => !sep c) := by
  have hpiece : fieldsFunc sep (s.takeWhile fun c => !sep c) = [s.takeWhile fun c => !sep c] := by
    rw [fieldsFunc, fieldsFrom_of_no_sep, List.nil_append, if_neg h]
    intro c hc
    simpa using List.all_eq_true.mp (List.all_takeWhile (p := fun c => !sep c)) c hc
  have hsplit : s.takeWhile (fun c => !sep c) ++ s.dropWhile (fun c => !sep c) = s := List.takeWhile_append_dropWhile
  cases hrest : s.dropWhile (fun c => !sep c) with
  | nil =>
      rw [hrest, List.append_nil] at hsplit
      rw [hsplit] at hpiece ⊢
      exact hpiece
  | cons c cs =>
      have hc : sep c = true := by
        have hhead := List.head_dropWhile_not (fun c => !sep c) (l := s) (by simp [hrest])
        simpa [hrest] using hhead
      rw [hrest] at hsplit
      rw [fieldsFunc_cons_sep hc]
      conv_lhs => rw [← hsplit]
      rw [fieldsFunc_append_sep hc, hpiece]
      rfl

theorem flatten_fieldsFrom (piece s : Text) :
    (fieldsFrom sep piece s).flatten = piece ++ s.filter fun c => !sep c := by
  induction s generalizing piece with
  | nil =>
      rw [fieldsFrom]
      split
      · next hp => simp [hp]
      · simp
  | cons c cs ih =>
      rw [fieldsFrom]
      cases hc : sep c with
      | true =>
          rw [if_pos rfl]
          split
          · next hp => simp [ih, hp, hc]
          · simp [ih, hc]
      | false => simp [ih, hc]

/-- The pieces have the runes that are no separators. -/
theorem flatten_fieldsFunc (s : Text) : (fieldsFunc sep s).flatten = s.filter fun c => !sep c := flatten_fieldsFrom [] s

theorem ne_nil_of_mem_fieldsFrom {piece s w : Text} (h : w ∈ fieldsFrom sep piece s) : w ≠ [] := by
  induction s generalizing piece with
  | nil =>
      rw [fieldsFrom] at h
      split at h
      · cases h
      · next hp => rwa [List.mem_singleton.mp h]
  | cons c cs ih =>
      rw [fieldsFrom] at h
      split at h
      · split at h
        · exact ih h
        · next hp =>
            rcases List.mem_cons.mp h with rfl | h
            · exact hp
            · exact ih h
      · exact ih h

theorem fieldsFunc_eq_nil_iff {s : Text} : fieldsFunc sep s = [] ↔ ∀ c ∈ s, sep c = true := by
  have hflatten := @flatten_fieldsFunc sep s
  constructor
  · intro h
    rw [h, List.flatten_nil] at hflatten
    simpa using List.filter_eq_nil_iff.mp hflatten.symm
  · intro h
    have hnil : s.filter (fun c => !sep c) = [] := List.filter_eq_nil_iff.mpr (by simpa using h)
    rw [hnil, List.flatten_eq_nil_iff] at hflatten
    exact List.eq_nil_iff_forall_not_mem.mpr fun w hw => ne_nil_of_mem_fieldsFrom hw (hflatten w hw)

/-- **What is done to the first rune of each piece**, said of the pieces and of the marked runes. -/
theorem fieldsFrom_flatMap {f : Text → Text} {g : Char → Char} (hf : ∀ c cs, f (c :: cs) = g c :: cs)
    (piece s : Text) :
    (fieldsFrom sep piece s).flatMap f =
      (if piece = [] then [] else f piece) ++
        (marked sep (piece = []) s).map (fun r => if r.2 then g r.1 else r.1) := by
  induction s generalizing piece with
  | nil =>
      rw [fieldsFrom, marked]
      split
      · rfl
      · simp
  | cons c cs ih =>
      rw [fieldsFrom, marked]
      by_cases hsep : sep c = true
      · rw [if_pos hsep, if_pos hsep]
        by_cases hp : piece = []
        · rw [if_pos hp, if_pos hp, ih]
          simp
        · rw [if_neg hp, if_neg hp, List.flatMap_cons, ih]
          simp
      · rw [if_neg hsep, if_neg hsep, ih]
        cases piece with
        | nil => simp [hf]
        | cons d ds => simp [hf]

theorem fieldsFunc_flatMap {f : Text → Text} {g : Char → Char} (hf : ∀ c cs, f (c :: cs) = g c :: cs) (s : Text) :
    (fieldsFunc sep s).flatMap f = (marked sep true s).map (fun r => if r.2 then g r.1 else r.1) := by
  rw [fieldsFunc, fieldsFrom_flatMap hf]
  simp

/-- What holds no separator is one piece. -/
theorem marked_of_no_sep {s : Text} (h : ∀ c ∈ s, sep c = false) : marked sep false s = s.map (fun c => (c, false)) := by
  induction s with
  | nil => rfl
  | cons c cs ih =>
      rw [marked, h c List.mem_cons_self, List.map_cons]
      rw [ih (fun d hd => h d (List.mem_cons_of_mem c hd))]
      rfl

/-- Separators may be rewritten to others before the split. -/
theorem marked_map {sep' : Char → Bool} {r : Char → Char} (hsep : ∀ c, sep' (r c) = sep c)
    (hkeep : ∀ c, sep c = false → r c = c) (start : Bool) (s : Text) :
    marked sep' start (s.map r) = marked sep start s := by
  induction s generalizing start with
  | nil => rfl
  | cons c cs ih =>
      rw [List.map_cons, marked, marked, hsep]
      cases hc : sep c with
      | true => exact ih true
      | false =>
          rw [hkeep c hc, ih false]
          rfl

/-- Every rune that is no separator is marked. -/
theorem mem_marked {c : Char} {s : Text} (hc : c ∈ s) (hsep : sep c = false) (start : Bool) :
    ∃ b, (c, b) ∈ marked sep start s := by
  induction s generalizing start with
  | nil => exact absurd hc List.not_mem_nil
  | cons d s ih =>
      rw [marked]
      rcases List.mem_cons.mp hc with rfl | hc
      · rw [hsep]
        exact ⟨start, List.mem_cons_self⟩
      · split
        · exact ih hc true
        · obtain ⟨b, hb⟩ := ih hc false
          exact ⟨b, List.mem_cons_of_mem _ hb⟩

/-- The marks after a separator do not depend on what stands before it. -/
theorem marked_append_sep {c : Char} (hc : sep c = true) (start : Bool) (x y : Text) :
    marked sep start (x ++ c :: y) = marked sep start x ++ marked sep true y := by
  induction x generalizing start with
  | nil =>
      show marked sep start (c :: y) = marked sep true y
      rw [marked, if_pos hc]
  | cons d x ih =>
      rw [List.cons_append, marked, marked]
      split
      · exact ih true
      · rw [ih false, List.cons_append]

end Split

section Recase

variable (g : Char → Char)

/-- The rune that a marked rune becomes, where `g` changes the case of those that start a piece. -/
def recase (r : Char × Bool) : Char := if r.2 then g r.1 else r.1

/-- Two marked runes are the same, up to the case of one that starts a piece. -/
def Agree : Char × Bool → Char × Bool → Prop
  | (c, false), (d, false) => c = d
  | (c, true), (d, false) => g c = d
  | (c, false), (d, true) => c = g d
  | (c, true), (d, true) => g c = g d

variable {g}

theorem agree_iff (r s : Char × Bool) : Agree g r s ↔ recase g r = recase g s := by
  obtain ⟨c, m⟩ := r
  obtain ⟨d, n⟩ := s
  cases m with
  | true =>
      cases n with
      | true => exact Iff.rfl
      | false => exact Iff.rfl
  | false =>
      cases n with
      | true => exact Iff.rfl
      | false => exact Iff.rfl

instance (r s : Char × Bool) : Decidable (Agree g r s) := decidable_of_iff _ (agree_iff r s).symm

/-- Texts that are made from marked runes are equal when the runes agree. -/
theorem map_recase_eq_iff (rs ss : List (Char × Bool)) :
    rs.map (recase g) = ss.map (recase g) ↔ List.Forall₂ (Agree g) rs ss := by
  rw [← List.forall₂_eq_eq_eq, List.forall₂_map_left_iff, List.forall₂_map_right_iff]
  constructor
  · intro h
    exact h.imp (fun r s hrs => (agree_iff r s).mpr hrs)
  · intro h
    exact h.imp (fun r s hrs => (agree_iff r s).mp hrs)

end Recase

end Lib
end ServiceKit
