import ServiceKit.Sql2pb.Core

/-!
# `Sql2pb.Correctness.FieldNames` — which column names become one field name

Camel case drops the underscores of a name and makes a rune title case where a word after the first begins. It keeps
the runes that stay, each with whether its case is left open (`camelRunes`). Snake case, applied to that, keeps the
lower case of each rune and where the upper case runes were. So two columns have one field name when their runes
agree, in a way that depends on the style (`convertName_eq_iff`).
-/

namespace ServiceKit
namespace Sql2pb

open Lib

variable (U : Unicode)

/-! ## The runes of a name -/

/-- The runes of a word, each with whether `strings.Title` changes it. -/
def titled : Char → Text → List (Char × Bool)
  | _, [] => []
  | prev, c :: cs => (c, isSeparator U prev) :: titled c cs

def titledWord (w : Text) : List (Char × Bool) :=
  if isEmptyOrSpace w then w.map (fun c => (c, false)) else titled U ' ' w

/-- The runes of a name without its underscores, each with whether camel case makes it title case. -/
def camelRunes (name : Text) : List (Char × Bool) :=
  if isEmptyOrSpace name then []
  else
    match fieldsFunc (fun r => r = '_') name with
    | [] => []
    | w :: ws => w.map (fun c => (c, false)) ++ ws.flatMap (titledWord U)

/-- The runes that snake case is made from; a name that camel case leaves blank has none. -/
def snakeRunes (name : Text) : List (Char × Bool) :=
  if isEmptyOrSpace ((camelRunes U name).map (recase U.toTitle)) then [] else camelRunes U name

/-- Two runes of a camel case name are the same letter. -/
def SameLetter (r s : Char × Bool) : Prop := U.toLower (recase U.toTitle r) = U.toLower (recase U.toTitle s)

/-- They are the same letter in the same case. -/
def SameCase (r s : Char × Bool) : Prop :=
  SameLetter U r s ∧ U.isUpper (recase U.toTitle r) = U.isUpper (recase U.toTitle s)

/-- The first runes are one letter, and the others are in one case too. -/
def SnakeAlike : List (Char × Bool) → List (Char × Bool) → Prop
  | [], [] => True
  | r :: rs, s :: ss => SameLetter U r s ∧ List.Forall₂ (SameCase U) rs ss
  | _, _ => False

/-- Two names are spelled alike in a field style. -/
def SpelledAlike (style p q : Text) : Prop :=
  if style = fieldStyleToSnake then SnakeAlike U (snakeRunes U p) (snakeRunes U q)
  else List.Forall₂ (Agree U.toTitle) (camelRunes U p) (camelRunes U q)

instance (r s : Char × Bool) : Decidable (SameLetter U r s) := inferInstanceAs (Decidable (_ = _))

instance (r s : Char × Bool) : Decidable (SameCase U r s) := inferInstanceAs (Decidable (_ ∧ _))

instance : (rs ss : List (Char × Bool)) → Decidable (SnakeAlike U rs ss)
  | [], [] => inferInstanceAs (Decidable True)
  | _ :: _, _ :: _ => inferInstanceAs (Decidable (_ ∧ _))
  | [], _ :: _ => inferInstanceAs (Decidable False)
  | _ :: _, [] => inferInstanceAs (Decidable False)

instance (style p q : Text) : Decidable (SpelledAlike U style p q) := by
  unfold SpelledAlike
  infer_instance

variable {U}

/-! ## Camel case -/

theorem splitFrom_remove (fn : Char → Bool) (buffer s : Text) : splitFrom fn true buffer s = fieldsFrom fn buffer s := by
  induction s generalizing buffer with
  | nil => rfl
  | cons c cs ih =>
      rw [splitFrom, fieldsFrom, if_pos rfl, ih, ih]

theorem titleFrom_eq (prev : Char) (s : Text) : titleFrom U prev s = (titled U prev s).map (recase U.toTitle) := by
  induction s generalizing prev with
  | nil => rfl
  | cons c cs ih =>
      rw [titleFrom, titled, List.map_cons, ih]
      rfl

theorem map_recase_unmarked (g : Char → Char) (s : Text) : (s.map (fun c => (c, false))).map (recase g) = s := by
  rw [List.map_map]
  exact List.map_id s

theorem title_eq (w : Text) : title U w = (titledWord U w).map (recase U.toTitle) := by
  rw [title, titledWord]
  split
  · rw [map_recase_unmarked]
  · exact titleFrom_eq ' ' w

/-- **Camel case, rune by rune.** -/
theorem toCamelWithStartLower_eq (name : Text) :
    toCamelWithStartLower U name = (camelRunes U name).map (recase U.toTitle) := by
  rw [toCamelWithStartLower, camelRunes, splitBy]
  by_cases hblank : isEmptyOrSpace name = true
  · rw [if_pos hblank, if_pos hblank]
    rfl
  · rw [if_neg hblank, if_neg hblank, splitFrom_remove, ← fieldsFunc]
    cases fieldsFunc (fun r => decide (r = '_')) name with
    | nil => rfl
    | cons w ws =>
        show w ++ (ws.map (title U)).flatten = (w.map (fun c => (c, false)) ++ ws.flatMap (titledWord U)).map _
        rw [List.map_append, map_recase_unmarked, List.map_flatMap, ← List.flatMap_def]
        congr 1
        exact congrArg ws.flatMap (funext title_eq)

/-! ## Snake case -/

/-- What snake case makes of a rune that is not the first. -/
def snakeRune (U : Unicode) (c : Char) : Text := if U.isUpper c then ['_', U.toLower c] else [U.toLower c]

theorem splitFrom_ne_nil {fn : Char → Bool} {remove : Bool} {buffer : Text} (h : buffer ≠ []) (s : Text) :
    splitFrom fn remove buffer s ≠ [] := by
  induction s generalizing buffer with
  | nil =>
      rw [splitFrom, if_neg h]
      exact nofun
  | cons c cs ih =>
      rw [splitFrom]
      by_cases hfn : fn c = true
      · rw [if_pos hfn, if_neg h]
        exact nofun
      · rw [if_neg hfn]
        exact ih (by simp)

theorem intercalate_cons {sep x : Text} {xs : List Text} (h : xs ≠ []) :
    sep.intercalate (x :: xs) = x ++ sep ++ sep.intercalate xs := by
  cases xs with
  | nil => exact absurd rfl h
  | cons y ys => simp [List.intercalate, List.intersperse]

theorem intercalate_splitFrom {buffer : Text} (h : buffer ≠ []) (s : Text) :
    ['_'].intercalate ((splitFrom U.isUpper false buffer s).map (lower U)) =
      lower U buffer ++ s.flatMap (snakeRune U) := by
  induction s generalizing buffer with
  | nil =>
      rw [splitFrom, if_neg h]
      simp [List.intercalate]
  | cons c cs ih =>
      rw [splitFrom, List.flatMap_cons, snakeRune]
      by_cases hup : U.isUpper c = true
      · have hrest : (splitFrom U.isUpper false [c] cs).map (lower U) ≠ [] := by
          simpa using splitFrom_ne_nil (by simp) cs
        rw [if_pos hup, if_pos hup, if_neg h]
        show ['_'].intercalate (lower U buffer :: (splitFrom U.isUpper false [c] cs).map (lower U)) = _
        rw [intercalate_cons hrest, ih (by simp)]
        simp [lower]
      · rw [if_neg hup, if_neg hup, ih (by simp)]
        simp [lower]

/-- **Snake case, rune by rune.** -/
theorem toSnake_eq {c : Char} {cs : Text} (h : isEmptyOrSpace (c :: cs) = false) :
    toSnake U (c :: cs) = U.toLower c :: cs.flatMap (snakeRune U) := by
  have hstart : splitFrom U.isUpper false [] (c :: cs) = splitFrom U.isUpper false [c] cs := by
    rw [splitFrom]
    split
    · rfl
    · rfl
  rw [toSnake, splitBy, h, if_neg (by decide), hstart, intercalate_splitFrom (by simp)]
  rfl

theorem toSnake_blank {s : Text} (h : isEmptyOrSpace s = true) : toSnake U s = [] := by
  rw [toSnake, splitBy, if_pos h]
  rfl

/-- Without underscores, the runes after the first can be told apart. -/
theorem flatMap_snakeRune_eq_iff {cs ds : Text} (hc : '_' ∉ cs) (hd : '_' ∉ ds) :
    cs.flatMap (snakeRune U) = ds.flatMap (snakeRune U) ↔
      List.Forall₂ (fun c d => U.toLower c = U.toLower d ∧ U.isUpper c = U.isUpper d) cs ds := by
  induction cs generalizing ds with
  | nil =>
      cases ds with
      | nil => simp
      | cons d ds =>
          rw [List.flatMap_cons, snakeRune]
          split <;> simp
  | cons c cs ih =>
      cases ds with
      | nil =>
          rw [List.flatMap_cons, snakeRune]
          split <;> simp
      | cons d ds =>
          obtain ⟨hc1, hc2⟩ := not_or.mp (List.mem_cons.not.mp hc)
          obtain ⟨hd1, hd2⟩ := not_or.mp (List.mem_cons.not.mp hd)
          have hlc : U.toLower c ≠ '_' := fun h => hc1 (U.eq_underscore_of_toLower c h).symm
          have hld : U.toLower d ≠ '_' := fun h => hd1 (U.eq_underscore_of_toLower d h).symm
          rw [List.flatMap_cons, List.flatMap_cons, List.forall₂_cons, ← ih hc2 hd2, snakeRune, snakeRune]
          cases hcu : U.isUpper c with
          | true =>
              cases hdu : U.isUpper d with
              | true => simp
              | false => simp [hld.symm]
          | false =>
              cases hdu : U.isUpper d with
              | true => simp [hlc]
              | false => simp

/-! ## Field names -/

theorem titled_fst (prev : Char) (s : Text) : (titled U prev s).map Prod.fst = s := by
  induction s generalizing prev with
  | nil => rfl
  | cons c cs ih => rw [titled, List.map_cons, ih]

theorem titledWord_fst (w : Text) : (titledWord U w).map Prod.fst = w := by
  rw [titledWord]
  split
  · rw [List.map_map]
    exact List.map_id w
  · exact titled_fst ' ' w

theorem camelRunes_no_underscore {name : Text} {r : Char × Bool} (h : r ∈ camelRunes U name) : r.1 ≠ '_' := by
  rw [camelRunes] at h
  split at h
  · exact absurd h nofun
  · split at h
    · exact absurd h nofun
    · next w ws hwords =>
        have hkeep : ∀ v ∈ w :: ws, ∀ c ∈ v, c ≠ '_' := by
          intro v hv c hc
          rw [← hwords] at hv
          exact of_decide_eq_false (fieldsFunc_no_sep hv c hc)
        rcases List.mem_append.mp h with h | h
        · obtain ⟨c, hc, rfl⟩ := List.mem_map.mp h
          exact hkeep w List.mem_cons_self c hc
        · obtain ⟨v, hv, hr⟩ := List.mem_flatMap.mp h
          have hmem : r.1 ∈ (titledWord U v).map Prod.fst := List.mem_map_of_mem hr
          rw [titledWord_fst] at hmem
          exact hkeep v (List.mem_cons_of_mem w hv) r.1 hmem

theorem recase_ne_underscore {r : Char × Bool} (h : r.1 ≠ '_') : recase U.toTitle r ≠ '_' := by
  rw [recase]
  split
  · exact fun heq => h (U.eq_underscore_of_toTitle r.1 heq)
  · exact h

/-- The text of snake case runes. -/
def snakeText (U : Unicode) : List (Char × Bool) → Text
  | [] => []
  | r :: rs => U.toLower (recase U.toTitle r) :: (rs.map (recase U.toTitle)).flatMap (snakeRune U)

theorem toSnake_camel (name : Text) : toSnake U (toCamelWithStartLower U name) = snakeText U (snakeRunes U name) := by
  rw [toCamelWithStartLower_eq, snakeRunes]
  cases hblank : isEmptyOrSpace ((camelRunes U name).map (recase U.toTitle)) with
  | true =>
      rw [toSnake_blank hblank]
      rfl
  | false =>
      rw [if_neg (by decide)]
      cases hr : camelRunes U name with
      | nil =>
          rw [hr] at hblank
          cases hblank
      | cons r rs =>
          rw [hr] at hblank
          exact toSnake_eq hblank

theorem snakeText_eq_iff {rs ss : List (Char × Bool)} (hr : ∀ r ∈ rs, r.1 ≠ '_') (hs : ∀ s ∈ ss, s.1 ≠ '_') :
    snakeText U rs = snakeText U ss ↔ SnakeAlike U rs ss := by
  have hno : ∀ ts : List (Char × Bool), (∀ t ∈ ts, t.1 ≠ '_') → '_' ∉ ts.map (recase U.toTitle) := by
    intro ts hts hmem
    obtain ⟨t, ht, heq⟩ := List.mem_map.mp hmem
    exact recase_ne_underscore (hts t ht) heq
  cases rs with
  | nil =>
      cases ss with
      | nil => simp [SnakeAlike]
      | cons s ss => simp [snakeText, SnakeAlike]
  | cons r rs =>
      cases ss with
      | nil => simp [snakeText, SnakeAlike]
      | cons s ss =>
          have htail := flatMap_snakeRune_eq_iff (U := U) (hno rs (fun t ht => hr t (List.mem_cons_of_mem r ht)))
            (hno ss (fun t ht => hs t (List.mem_cons_of_mem s ht)))
          rw [snakeText, snakeText, List.cons.injEq, htail, List.forall₂_map_left_iff, List.forall₂_map_right_iff]
          rfl

theorem snakeRunes_no_underscore {name : Text} {r : Char × Bool} (h : r ∈ snakeRunes U name) : r.1 ≠ '_' := by
  rw [snakeRunes] at h
  split at h
  · exact absurd h nofun
  · exact camelRunes_no_underscore h

/-- **The collisions of field names.** -/
theorem convertName_eq_iff (style p q : Text) :
    convertName U style p = convertName U style q ↔ SpelledAlike U style p q := by
  rw [convertName, convertName, SpelledAlike]
  by_cases hstyle : style = fieldStyleToSnake
  · rw [if_pos hstyle, if_pos hstyle, if_pos hstyle, toSnake_camel, toSnake_camel]
    exact snakeText_eq_iff (fun _ => snakeRunes_no_underscore) (fun _ => snakeRunes_no_underscore)
  · rw [if_neg hstyle, if_neg hstyle, if_neg hstyle, toCamelWithStartLower_eq, toCamelWithStartLower_eq]
    exact map_recase_eq_iff _ _

/-- Runes in lower case stay as they are. -/
theorem flatMap_snakeRune_lower {cs : Text} (h : ∀ d ∈ cs, U.toLower d = d ∧ U.isUpper d = false) :
    cs.flatMap (snakeRune U) = cs := by
  have hone : ∀ d ∈ cs, snakeRune U d = [d] := by
    intro d hd
    obtain ⟨hl, hu⟩ := h d hd
    rw [snakeRune, hu, hl]
    rfl
  rw [List.flatMap_congr hone]
  exact List.flatMap_singleton' cs

/-- A word of small Latin letters. -/
def isLowerWord (w : Text) : Bool := !isEmptyOrSpace w && w.all Char.isLower

theorem toSnake_of_isLowerWord {w : Text} (h : isLowerWord w = true) : toSnake U w = w := by
  obtain ⟨hblank, hlow⟩ := Bool.and_eq_true_iff.mp h
  rw [Bool.not_eq_true'] at hblank
  cases w with
  | nil => exact absurd hblank (by decide)
  | cons c cs =>
      have hrune : ∀ d ∈ c :: cs, U.toLower d = d ∧ U.isUpper d = false := by
        intro d hd
        have hd := List.all_eq_true.mp hlow d hd
        exact ⟨U.toLower_of_isLower hd, U.isUpper_of_isLower hd⟩
      have htail := flatMap_snakeRune_lower (fun d hd => hrune d (List.mem_cons_of_mem c hd))
      rw [toSnake_eq hblank, htail, (hrune c List.mem_cons_self).1]

/-- The fields of the List request that are no column of the table. -/
theorem convertName_pageField (style : Text) {f : MessageField} (h : f ∈ pageFields) :
    convertName U style f.name = f.name := by
  have hcamel : toCamelWithStartLower U f.name = f.name := by
    rcases List.mem_pair.mp h with rfl | rfl
    · rfl
    · rfl
  have hword : ∀ f ∈ pageFields, isLowerWord f.name = true := by decide
  rw [convertName, hcamel]
  split
  · exact toSnake_of_isLowerWord (hword f h)
  · rfl

end Sql2pb
end ServiceKit
