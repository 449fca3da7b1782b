import ServiceKit.Lib.GoSource

/-!
# `Lib.Glob` — patterns of file names

`filepath.Match`: a pattern is read rune by rune into terms, which fails where a class is not well formed or not closed,
and the terms are matched against the whole name. The terms are those that the grammar of patterns gives it
(`parse_eq_some_iff`), and the names that match are those that `GoSource.Match` relates to it (`filepathMatch_iff`).
-/

namespace ServiceKit
namespace Lib
namespace Glob

open GoSource (ClassRune Ranges InRanges Match)

/-- A rune of a pattern, with whether it is escaped. -/
abbrev Token := Char × Bool

/-- The runes; none when the last one is a backslash that escapes nothing. -/
def tokens : Text → Option (List Token)
  | [] => some []
  | '\\' :: [] => none
  | '\\' :: c :: p => (tokens p).map fun ts => (c, true) :: ts
  | c :: p => (tokens p).map fun ts => (c, false) :: ts

inductive Term where
  | star
  | any
  | oneOf (negated : Bool) (ranges : List (Char × Char))
  | rune (c : Char)
deriving DecidableEq

/-- Where in a pattern the next rune stands. -/
inductive Mode where
  | outside
  /-- After the bracket that opens a class. -/
  | opened
  | inside (negated : Bool) (ranges : List (Char × Char))
  /-- After a rune of a class, which may be the lower bound of a range. -/
  | lower (negated : Bool) (ranges : List (Char × Char)) (lo : Char)
  /-- After the `-` of a range. -/
  | upper (negated : Bool) (ranges : List (Char × Char)) (lo : Char)

/-- A rune in a class, after these ranges: a class is closed when it has a range. -/
def stepInside (negated : Bool) (ranges : List (Char × Char)) : Token → Option (Mode × Option Term)
  | (']', false) => if ranges = [] then none else some (.outside, some (.oneOf negated ranges))
  | ('-', false) => none
  | (c, _) => some (.lower negated ranges c, none)

def stepOutside : Token → Option (Mode × Option Term)
  | ('*', false) => some (.outside, some .star)
  | ('?', false) => some (.outside, some .any)
  | ('[', false) => some (.opened, none)
  | (c, _) => some (.outside, some (.rune c))

def stepOpened : Token → Option (Mode × Option Term)
  | ('^', false) => some (.inside true [], none)
  | t => stepInside false [] t

def stepLower (negated : Bool) (ranges : List (Char × Char)) (lo : Char) : Token → Option (Mode × Option Term)
  | ('-', false) => some (.upper negated ranges lo, none)
  | t => stepInside negated (ranges ++ [(lo, lo)]) t

def stepUpper (negated : Bool) (ranges : List (Char × Char)) (lo : Char) : Token → Option (Mode × Option Term)
  | (']', false) => none
  | ('-', false) => none
  | (hi, _) => some (.inside negated (ranges ++ [(lo, hi)]), none)

def step : Mode → Token → Option (Mode × Option Term)
  | .outside => stepOutside
  | .opened => stepOpened
  | .inside negated ranges => stepInside negated ranges
  | .lower negated ranges lo => stepLower negated ranges lo
  | .upper negated ranges lo => stepUpper negated ranges lo

/-- The terms that are read, up to the end of the pattern. -/
def terms : Mode → List Token → Option (List Term)
  | .outside, [] => some []
  | _, [] => none
  | mode, t :: ts =>
      match step mode t with
      | none => none
      | some (mode, term) => (terms mode ts).map fun rest => term.toList ++ rest

def parse (pattern : Text) : Option (List Term) := (tokens pattern).bind (terms .outside)

/-- What a star may match, before a rest that matches. -/
def matchStar (rest : Text → Bool) : Text → Bool
  | [] => rest []
  | c :: s => rest (c :: s) || c ≠ '/' && matchStar rest s

def inRanges (c : Char) (ranges : List (Char × Char)) : Bool := ranges.any fun r => r.1 ≤ c && c ≤ r.2

def matchTerms : List Term → Text → Bool
  | [], s => s.isEmpty
  | .star :: ts, s => matchStar (matchTerms ts) s
  | .any :: ts, c :: s => c ≠ '/' && matchTerms ts s
  | .oneOf negated ranges :: ts, c :: s => (inRanges c ranges != negated) && matchTerms ts s
  | .rune d :: ts, c :: s => c = d && matchTerms ts s
  | _ :: _, [] => false

/-- `filepath.ErrBadPattern`. -/
inductive BadPattern where
  | badPattern

/-- `filepath.Match`. A star tries every place for what follows it, where Go's keeps the first one at which the terms
    up to the next star fit: the two differ where a class stands for a slash, as in `*[^a]*c` on `x/c`, which
    matches here and not there. -/
def filepathMatch (pattern name : Text) : Except BadPattern Bool :=
  match parse pattern with
  | none => .error .badPattern
  | some ts => .ok (matchTerms ts name)

/-! ## Runes and tokens -/

/-- A token as it is written. -/
def spell : Token → Text
  | (c, true) => ['\\', c]
  | (c, false) => [c]

theorem tokens_cons {c : Char} (hc : c ≠ '\\') (p : Text) :
    tokens (c :: p) = (tokens p).map fun ts => (c, false) :: ts := by
  rw [tokens]
  · rintro rfl
    exact absurd rfl hc
  · rintro _ _ rfl
    exact absurd rfl hc

/-- **What the tokens of a pattern are**: no backslash among them stands for itself. -/
theorem tokens_eq_some_iff {p : Text} {ts : List Token} :
    tokens p = some ts ↔ p = ts.flatMap spell ∧ ('\\', false) ∉ ts := by
  constructor
  · intro h
    induction p using tokens.induct generalizing ts with
    | case1 =>
        rw [tokens] at h
        cases h
        exact ⟨rfl, List.not_mem_nil⟩
    | case2 =>
        rw [tokens] at h
        cases h
    | case3 c p ih =>
        rw [tokens] at h
        obtain ⟨ts', hts, rfl⟩ := Option.map_eq_some_iff.mp h
        obtain ⟨rfl, hno⟩ := ih hts
        exact ⟨rfl, by simpa using hno⟩
    | case4 c p hlast hesc ih =>
        have hc : c ≠ '\\' := by
          rintro rfl
          cases p with
          | nil => exact hlast rfl rfl
          | cons d p => exact hesc d p rfl rfl
        rw [tokens_cons hc] at h
        obtain ⟨ts', hts, rfl⟩ := Option.map_eq_some_iff.mp h
        obtain ⟨rfl, hno⟩ := ih hts
        exact ⟨rfl, by simpa [hc.symm] using hno⟩
  · rintro ⟨rfl, hno⟩
    induction ts with
    | nil => rfl
    | cons t ts ih =>
        obtain ⟨hne, hrest⟩ := not_or.mp (List.mem_cons.not.mp hno)
        rw [List.flatMap_cons]
        obtain ⟨c, e⟩ := t
        cases e with
        | true =>
            show tokens ('\\' :: c :: ts.flatMap spell) = _
            rw [tokens, ih hrest]
            rfl
        | false =>
            have hc : c ≠ '\\' := by
              rintro rfl
              exact hne rfl
            show tokens (c :: ts.flatMap spell) = _
            rw [tokens_cons hc, ih hrest]
            rfl

/-! ## The grammar -/

/-- The terms of a pattern. -/
inductive Reads : Text → List Term → Prop where
  | nil : Reads [] []
  | star {p : Text} {ts : List Term} : Reads p ts → Reads ('*' :: p) (.star :: ts)
  | any {p : Text} {ts : List Term} : Reads p ts → Reads ('?' :: p) (.any :: ts)
  | oneOf {t p : Text} {rs : List (Char × Char)} {ts : List Term} : t.head? ≠ some '^' → Ranges t rs → Reads p ts →
      Reads ('[' :: (t ++ ']' :: p)) (.oneOf false rs :: ts)
  | noneOf {t p : Text} {rs : List (Char × Char)} {ts : List Term} : Ranges t rs → Reads p ts →
      Reads ('[' :: '^' :: (t ++ ']' :: p)) (.oneOf true rs :: ts)
  | escaped {c : Char} {p : Text} {ts : List Term} : Reads p ts → Reads ('\\' :: c :: p) (.rune c :: ts)
  | rune {c : Char} {p : Text} {ts : List Term} : c ∉ ['*', '?', '[', '\\'] → Reads p ts →
      Reads (c :: p) (.rune c :: ts)

/-- A class is closed after more ranges, and the pattern goes on. -/
def Closes (text : Text) (ts : List Term) (negated : Bool) (closed : Text → List (Char × Char) → Prop) : Prop :=
  ∃ t rs p ts', text = t ++ ']' :: p ∧ closed t rs ∧ ts = .oneOf negated rs :: ts' ∧ Reads p ts'

/-- What the terms say of the rest of the pattern, by where it begins. -/
def Sound : Mode → Text → List Term → Prop
  | .outside, text, ts => Reads text ts
  | .opened, text, ts => Reads ('[' :: text) ts
  | .inside negated ranges, text, ts =>
      Closes text ts negated fun t rs =>
        (t = [] ∧ ranges ≠ [] ∧ rs = ranges) ∨ ∃ more, Ranges t more ∧ rs = ranges ++ more
  | .lower negated ranges lo, text, ts =>
      ∀ u, ClassRune u lo → Closes text ts negated fun t rs => ∃ more, Ranges (u ++ t) more ∧ rs = ranges ++ more
  | .upper negated ranges lo, text, ts =>
      ∀ u, ClassRune u lo → Closes text ts negated fun t rs => ∃ more, Ranges (u ++ '-' :: t) more ∧ rs = ranges ++ more

theorem classRune_spell {c : Char} {e : Bool} (hback : (c, e) ≠ ('\\', false)) (hclose : (c, e) ≠ (']', false))
    (hminus : (c, e) ≠ ('-', false)) : ClassRune (spell (c, e)) c := by
  cases e with
  | true => exact ClassRune.escaped c
  | false =>
      apply ClassRune.plain
      simp only [ne_eq, Prod.mk.injEq, and_true] at hback hclose hminus
      simp [hback, hclose, hminus]

theorem eq_caret_of_spell {t : Token} {text rest : Text} (h : spell t ++ text = '^' :: rest) : t = ('^', false) := by
  obtain ⟨c, e⟩ := t
  cases e with
  | true => exact absurd (List.cons.inj h).1 (by decide)
  | false =>
      have hc : c = '^' := (List.cons.inj h).1
      rw [hc]

theorem stepInside_of_ne {negated : Bool} {ranges : List (Char × Char)} {c : Char} {e : Bool}
    (hclose : (c, e) ≠ (']', false)) (hminus : (c, e) ≠ ('-', false)) :
    stepInside negated ranges (c, e) = some (.lower negated ranges c, none) := by
  rw [stepInside]
  · rintro rfl rfl
    exact hclose rfl
  · rintro rfl rfl
    exact hminus rfl

/-- A rune of a class, where the rest of the pattern is read as the terms say. -/
theorem sound_stepInside {negated : Bool} {ranges : List (Char × Char)} {t : Token} {text : Text} {mode : Mode}
    {term : Option Term} {ts : List Term} (hback : t ≠ ('\\', false))
    (h : stepInside negated ranges t = some (mode, term)) (hrest : Sound mode text ts) :
    Sound (.inside negated ranges) (spell t ++ text) (term.toList ++ ts) := by
  obtain ⟨c, e⟩ := t
  by_cases hclose : (c, e) = (']', false)
  · cases hclose
    rw [stepInside] at h
    split at h
    · cases h
    · next hne =>
        cases h
        exact ⟨[], ranges, text, ts, rfl, Or.inl ⟨rfl, hne, rfl⟩, rfl, hrest⟩
  · by_cases hminus : (c, e) = ('-', false)
    · cases hminus
      rw [stepInside] at h
      cases h
    · cases (stepInside_of_ne hclose hminus).symm.trans h
      obtain ⟨t, rs, p, ts', rfl, ⟨more, hmore, hrs⟩, hts, hp⟩ := hrest _ (classRune_spell hback hclose hminus)
      exact ⟨spell (c, e) ++ t, rs, p, ts', (List.append_assoc _ _ _).symm, Or.inr ⟨more, hmore, hrs⟩, hts, hp⟩

theorem sound_stepOutside {t : Token} {text : Text} {mode : Mode} {term : Option Term} {ts : List Term}
    (hback : t ≠ ('\\', false)) (h : stepOutside t = some (mode, term)) (hrest : Sound mode text ts) :
    Sound .outside (spell t ++ text) (term.toList ++ ts) := by
  unfold stepOutside at h
  split at h
  · cases h
    exact Reads.star hrest
  · cases h
    exact Reads.any hrest
  · cases h
    exact hrest
  · next c e hstar hany hopen =>
      cases h
      cases e with
      | true => exact Reads.escaped hrest
      | false =>
          refine Reads.rune ?_ hrest
          simp only [ne_eq, Prod.mk.injEq, and_true] at hback
          simp only [List.mem_cons, List.not_mem_nil, or_false, not_or]
          exact ⟨fun hc => hstar hc rfl, fun hc => hany hc rfl, fun hc => hopen hc rfl, hback⟩

theorem sound_stepOpened {t : Token} {text : Text} {mode : Mode} {term : Option Term} {ts : List Term}
    (hback : t ≠ ('\\', false)) (h : stepOpened t = some (mode, term)) (hrest : Sound mode text ts) :
    Sound .opened (spell t ++ text) (term.toList ++ ts) := by
  unfold stepOpened at h
  split at h
  · cases h
    obtain ⟨u, rs, p, ts', rfl, ⟨-, hne, -⟩ | ⟨more, hmore, rfl⟩, rfl, hp⟩ := hrest
    -- a class has a range
    · exact absurd rfl hne
    · exact Reads.noneOf hmore hp
  · next hcaret =>
      obtain ⟨u, rs, p, ts', heq, ⟨-, hne, -⟩ | ⟨more, hmore, rfl⟩, hts, hp⟩ := sound_stepInside hback h hrest
      · exact absurd rfl hne
      · show Reads ('[' :: (spell t ++ text)) _
        rw [heq, hts]
        refine Reads.oneOf ?_ hmore hp
        intro hhead
        obtain ⟨u', rfl⟩ := List.head?_eq_some_iff.mp hhead
        exact hcaret (eq_caret_of_spell heq)

/-- A class that is closed after its first ranges, or after more. -/
theorem ranges_append_closed {t t' : Text} {ranges first rs : List (Char × Char)} (ht : Ranges t first)
    (h : (t' = [] ∧ ranges ++ first ≠ [] ∧ rs = ranges ++ first) ∨
      ∃ more, Ranges t' more ∧ rs = ranges ++ first ++ more) :
    ∃ more, Ranges (t ++ t') more ∧ rs = ranges ++ more := by
  rcases h with ⟨rfl, -, rfl⟩ | ⟨more, hmore, rfl⟩
  · rw [List.append_nil]
    exact ⟨first, ht, rfl⟩
  · exact ⟨first ++ more, Ranges.append ht hmore, List.append_assoc _ _ _⟩

theorem sound_stepLower {negated : Bool} {ranges : List (Char × Char)} {lo : Char} {t : Token} {text : Text}
    {mode : Mode} {term : Option Term} {ts : List Term} (hback : t ≠ ('\\', false))
    (h : stepLower negated ranges lo t = some (mode, term)) (hrest : Sound mode text ts) :
    Sound (.lower negated ranges lo) (spell t ++ text) (term.toList ++ ts) := by
  intro u hu
  unfold stepLower at h
  split at h
  · cases h
    obtain ⟨v, rs, p, ts', rfl, hclosed, hts, hp⟩ := hrest u hu
    exact ⟨'-' :: v, rs, p, ts', rfl, hclosed, hts, hp⟩
  · -- no `-` follows, so the rune is a range of its own
    obtain ⟨v, rs, p, ts', heq, hclosed, hts, hp⟩ := sound_stepInside hback h hrest
    exact ⟨v, rs, p, ts', heq, ranges_append_closed (Ranges.rune hu) hclosed, hts, hp⟩

theorem sound_stepUpper {negated : Bool} {ranges : List (Char × Char)} {lo : Char} {t : Token} {text : Text}
    {mode : Mode} {term : Option Term} {ts : List Term} (hback : t ≠ ('\\', false))
    (h : stepUpper negated ranges lo t = some (mode, term)) (hrest : Sound mode text ts) :
    Sound (.upper negated ranges lo) (spell t ++ text) (term.toList ++ ts) := by
  intro u hu
  unfold stepUpper at h
  split at h
  · cases h
  · cases h
  · next hi e hclose hminus =>
      cases h
      have hhi : ClassRune (spell (hi, e)) hi := by
        apply classRune_spell hback
        · rintro heq
          cases heq
          exact hclose rfl rfl
        · rintro heq
          cases heq
          exact hminus rfl rfl
      obtain ⟨v, rs, p, ts', rfl, hclosed, hts, hp⟩ := hrest
      have hranges := ranges_append_closed (Ranges.range hu hhi) hclosed
      rw [List.append_assoc] at hranges
      exact ⟨spell (hi, e) ++ v, rs, p, ts', (List.append_assoc _ _ _).symm, hranges, hts, hp⟩

/-- A token goes before what is sound. -/
theorem sound_step {mode mode' : Mode} {t : Token} {text : Text} {term : Option Term} {ts : List Term}
    (hback : t ≠ ('\\', false)) (h : step mode t = some (mode', term)) (hrest : Sound mode' text ts) :
    Sound mode (spell t ++ text) (term.toList ++ ts) := by
  cases mode with
  | outside => exact sound_stepOutside hback h hrest
  | opened => exact sound_stepOpened hback h hrest
  | inside negated ranges => exact sound_stepInside hback h hrest
  | lower negated ranges lo => exact sound_stepLower hback h hrest
  | upper negated ranges lo => exact sound_stepUpper hback h hrest

/-- **The terms are those of the grammar.** -/
theorem sound_terms {mode : Mode} {toks : List Token} {ts : List Term} (hno : ('\\', false) ∉ toks)
    (h : terms mode toks = some ts) : Sound mode (toks.flatMap spell) ts := by
  induction toks generalizing mode ts with
  | nil =>
      cases mode with
      | outside =>
          rw [terms] at h
          cases h
          exact Reads.nil
      | opened | inside | lower | upper =>
          rw [terms] at h
          · cases h
          · exact nofun
  | cons t toks ih =>
      obtain ⟨hne, hno⟩ := not_or.mp (List.mem_cons.not.mp hno)
      rw [List.flatMap_cons]
      rw [terms] at h
      · split at h
        · cases h
        · next mode' term hstep =>
            obtain ⟨rest, hterms, rfl⟩ := Option.map_eq_some_iff.mp h
            exact sound_step (Ne.symm hne) hstep (ih hno hterms)

/-! ## Every pattern of the grammar is read -/

theorem terms_cons (mode : Mode) (t : Token) (ts : List Token) :
    terms mode (t :: ts) = (step mode t).bind fun next => (terms next.1 ts).map fun rest => next.2.toList ++ rest := by
  rw [terms]
  · cases step mode t with
    | none => rfl
    | some next => rfl

/-- A step that reads no term. -/
theorem terms_of_step {mode mode' : Mode} {t : Token} (h : step mode t = some (mode', none)) (ts : List Token) :
    terms mode (t :: ts) = terms mode' ts := by
  rw [terms_cons, h]
  show (terms mode' ts).map (fun rest => rest) = _
  exact Option.map_id'

theorem terms_inside {negated : Bool} {ranges : List (Char × Char)} {c : Char} {e : Bool}
    (hclose : (c, e) ≠ (']', false)) (hminus : (c, e) ≠ ('-', false)) (ts : List Token) :
    terms (.inside negated ranges) ((c, e) :: ts) = terms (.lower negated ranges c) ts := by
  have hstep : step (.inside negated ranges) (c, e) = some (.lower negated ranges c, none) :=
    stepInside_of_ne hclose hminus
  exact terms_of_step hstep ts

theorem terms_upper {negated : Bool} {ranges : List (Char × Char)} {lo hi : Char} {e : Bool}
    (hclose : (hi, e) ≠ (']', false)) (hminus : (hi, e) ≠ ('-', false)) (ts : List Token) :
    terms (.lower negated ranges lo) (('-', false) :: (hi, e) :: ts) =
      terms (.inside negated (ranges ++ [(lo, hi)])) ts := by
  have hstep : step (.upper negated ranges lo) (hi, e) = some (.inside negated (ranges ++ [(lo, hi)]), none) := by
    show stepUpper negated ranges lo (hi, e) = _
    rw [stepUpper]
    · rintro rfl rfl
      exact hclose rfl
    · rintro rfl rfl
      exact hminus rfl
  have hlower : step (.lower negated ranges lo) ('-', false) = some (.upper negated ranges lo, none) := rfl
  rw [terms_of_step hlower, terms_of_step hstep]

/-- A range of one rune ends where no `-` follows. -/
theorem terms_lower {negated : Bool} {ranges : List (Char × Char)} {lo : Char} {t : Token} (h : t ≠ ('-', false))
    (ts : List Token) :
    terms (.lower negated ranges lo) (t :: ts) = terms (.inside negated (ranges ++ [(lo, lo)])) (t :: ts) := by
  have hstep : stepLower negated ranges lo t = stepInside negated (ranges ++ [(lo, lo)]) t := by
    rw [stepLower]
    exact h
  rw [terms_cons, terms_cons, step, step, hstep]

theorem terms_opened {t : Token} (h : t ≠ ('^', false)) (ts : List Token) :
    terms .opened (t :: ts) = terms (.inside false []) (t :: ts) := by
  have hstep : stepOpened t = stepInside false [] t := by
    rw [stepOpened]
    exact h
  rw [terms_cons, terms_cons, step, step, hstep]

/-- The tokens of a text in front of another. -/
def Opens (t : Text) (ts : List Token) : Prop := ∀ rest, tokens (t ++ rest) = (tokens rest).map fun toks => ts ++ toks

theorem Opens.append {t t' : Text} {ts ts' : List Token} (h : Opens t ts) (h' : Opens t' ts') :
    Opens (t ++ t') (ts ++ ts') := by
  intro rest
  rw [List.append_assoc, h, h', Option.map_map]
  congr 1
  funext toks
  exact (List.append_assoc ts ts' toks).symm

theorem opens_rune {c : Char} (hc : c ≠ '\\') : Opens [c] [(c, false)] := tokens_cons hc

theorem opens_classRune {t : Text} {c : Char} (h : ClassRune t c) :
    ∃ e, Opens t [(c, e)] ∧ (c, e) ≠ (']', false) ∧ (c, e) ≠ ('-', false) := by
  cases h with
  | plain hc =>
      simp only [List.mem_cons, List.not_mem_nil, or_false, not_or] at hc
      exact ⟨false, opens_rune hc.1, by simp [hc.2.2], by simp [hc.2.1]⟩
  | escaped => exact ⟨true, fun rest => rfl, by simp, by simp⟩

/-- Ranges are read one after the other, each up to a rune that does not go on with it. -/
theorem opens_ranges {t : Text} {rs : List (Char × Char)} (h : Ranges t rs) :
    ∃ tok ts, Opens t (tok :: ts) ∧ tok ≠ ('-', false) ∧ ∀ negated ranges next toks, next ≠ ('-', false) →
      terms (.inside negated ranges) (tok :: ts ++ next :: toks) =
        terms (.inside negated (ranges ++ rs)) (next :: toks) := by
  induction h with
  | @rune t c hc =>
      obtain ⟨e, hopens, hclose, hminus⟩ := opens_classRune hc
      refine ⟨(c, e), [], hopens, hminus, ?_⟩
      intro negated ranges next toks hnext
      exact (terms_inside hclose hminus _).trans (terms_lower hnext toks)
  | @range t t' lo hi hlo hhi =>
      obtain ⟨e, hopens, hclose, hminus⟩ := opens_classRune hlo
      obtain ⟨e', hopens', hclose', hminus'⟩ := opens_classRune hhi
      refine ⟨(lo, e), [('-', false), (hi, e')], hopens.append ((opens_rune (by decide)).append hopens'), hminus, ?_⟩
      intro negated ranges next toks _
      exact (terms_inside hclose hminus _).trans (terms_upper hclose' hminus' _)
  | @append t t' rs rs' _ _ ih ih' =>
      obtain ⟨tok, ts, hopens, hminus, hterms⟩ := ih
      obtain ⟨tok', ts', hopens', hminus', hterms'⟩ := ih'
      refine ⟨tok, ts ++ tok' :: ts', hopens.append hopens', hminus, ?_⟩
      intro negated ranges next toks hnext
      have hlist : tok :: (ts ++ tok' :: ts') ++ next :: toks = tok :: ts ++ tok' :: (ts' ++ next :: toks) := by simp
      rw [hlist, hterms negated ranges tok' _ hminus', ← List.append_assoc ranges]
      exact hterms' negated (ranges ++ rs) next toks hnext

theorem ranges_ne_nil {t : Text} {rs : List (Char × Char)} (h : Ranges t rs) : rs ≠ [] := by
  induction h with
  | rune | range => exact List.cons_ne_nil _ _
  | append _ _ ih => exact List.append_ne_nil_of_left_ne_nil ih _

/-- A class is read up to its closing bracket. -/
theorem terms_class {negated : Bool} {rs : List (Char × Char)} (hne : rs ≠ []) (toks : List Token) :
    terms (.inside negated rs) ((']', false) :: toks) =
      (terms .outside toks).map fun ts => .oneOf negated rs :: ts := by
  have hstep : stepInside negated rs (']', false) = some (.outside, some (.oneOf negated rs)) := by
    rw [stepInside, if_neg hne]
  rw [terms_cons, step, hstep]
  rfl

/-- A token that is a term of its own. -/
theorem parse_term {text p : Text} {tok : Token} {x : Term} {ts : List Term} (hopens : Opens text [tok])
    (hstep : stepOutside tok = some (.outside, some x)) (hp : parse p = some ts) :
    parse (text ++ p) = some (x :: ts) := by
  obtain ⟨toks, htoks, hterms⟩ := Option.bind_eq_some_iff.mp hp
  have hrest : terms .outside (tok :: toks) = some (x :: ts) := by
    rw [terms_cons, step, hstep, Option.bind_some, hterms]
    rfl
  rw [parse, hopens, htoks]
  exact hrest

/-- A class, after what opens it. -/
theorem parse_class {text t p : Text} {toks₀ : List Token} {negated : Bool} {rs : List (Char × Char)} {ts : List Term}
    (hopens : Opens text toks₀) (hrs : Ranges t rs)
    (hclass : ∀ tok ttoks, Opens t (tok :: ttoks) → ∀ rest, terms .outside (toks₀ ++ (tok :: ttoks ++ rest)) =
      terms (.inside negated []) (tok :: ttoks ++ rest)) (hp : parse p = some ts) :
    parse (text ++ (t ++ ']' :: p)) = some (.oneOf negated rs :: ts) := by
  obtain ⟨toks, htoks, hterms⟩ := Option.bind_eq_some_iff.mp hp
  obtain ⟨tok, ttoks, ht, -, hranges⟩ := opens_ranges hrs
  have hrest : terms .outside (toks₀ ++ (tok :: ttoks ++ (']', false) :: toks)) = some (.oneOf negated rs :: ts) := by
    rw [hclass _ _ ht, hranges negated [] _ toks (by decide), List.nil_append, terms_class (ranges_ne_nil hrs), hterms]
    rfl
  rw [parse, hopens, ht, tokens_cons (by decide), htoks]
  exact hrest

theorem parse_of_reads {p : Text} {ts : List Term} (h : Reads p ts) : parse p = some ts := by
  induction h with
  | nil => rfl
  | star _ ih => exact parse_term (opens_rune (by decide)) rfl ih
  | any _ ih => exact parse_term (opens_rune (by decide)) rfl ih
  | @escaped c _ _ _ ih =>
      have hstep : stepOutside (c, true) = some (.outside, some (.rune c)) := by
        rw [stepOutside]
        all_goals exact nofun
      have hopens : Opens ['\\', c] [(c, true)] := fun _ => rfl
      exact parse_term hopens hstep ih
  | @rune c _ _ hc _ ih =>
      simp only [List.mem_cons, List.not_mem_nil, or_false, not_or] at hc
      have hstep : stepOutside (c, false) = some (.outside, some (.rune c)) := by
        rw [stepOutside]
        · exact fun h _ => hc.1 h
        · exact fun h _ => hc.2.1 h
        · exact fun h _ => hc.2.2.1 h
      exact parse_term (opens_rune hc.2.2.2) hstep ih
  | @oneOf t _ _ _ hcaret hrs _ ih =>
      refine parse_class (opens_rune (by decide)) hrs ?_ ih
      intro tok ttoks htoks rest
      have hopened : step .outside ('[', false) = some (.opened, none) := rfl
      refine (terms_of_step hopened _).trans (terms_opened ?_ _)
      rintro rfl
      obtain ⟨htext, -⟩ := tokens_eq_some_iff.mp (htoks [])
      rw [List.append_nil] at htext
      apply hcaret
      rw [htext]
      rfl
  | noneOf hrs _ ih =>
      refine parse_class ((opens_rune (by decide)).append (opens_rune (by decide))) hrs ?_ ih
      intro tok ttoks _ rest
      have hopened : step .outside ('[', false) = some (.opened, none) := rfl
      have hcaret : step .opened ('^', false) = some (.inside true [], none) := rfl
      exact (terms_of_step hopened _).trans (terms_of_step hcaret _)

/-- **A pattern is read** as the grammar has it. -/
theorem parse_eq_some_iff {p : Text} {ts : List Term} : parse p = some ts ↔ Reads p ts := by
  constructor
  · intro h
    obtain ⟨toks, htoks, hterms⟩ := Option.bind_eq_some_iff.mp h
    obtain ⟨rfl, hno⟩ := tokens_eq_some_iff.mp htoks
    exact sound_terms hno hterms
  · exact parse_of_reads

/-! ## Matches -/

theorem matchStar_iff {rest : Text → Bool} {s : Text} :
    matchStar rest s = true ↔ ∃ q s', s = q ++ s' ∧ '/' ∉ q ∧ rest s' = true := by
  induction s with
  | nil =>
      rw [matchStar]
      constructor
      · intro h
        exact ⟨[], [], rfl, List.not_mem_nil, h⟩
      · rintro ⟨q, s', heq, -, h⟩
        obtain ⟨rfl, rfl⟩ := List.nil_eq_append_iff.mp heq
        exact h
  | cons c s ih =>
      rw [matchStar, Bool.or_eq_true, Bool.and_eq_true, ih, decide_eq_true_eq]
      constructor
      · rintro (h | ⟨hc, q, s', rfl, hq, h⟩)
        · exact ⟨[], c :: s, rfl, List.not_mem_nil, h⟩
        · exact ⟨c :: q, s', rfl, List.not_mem_cons_of_ne_of_not_mem (Ne.symm hc) hq, h⟩
      · rintro ⟨q, s', heq, hq, h⟩
        cases q with
        | nil =>
            rw [List.nil_append] at heq
            exact Or.inl (heq ▸ h)
        | cons d q =>
            obtain ⟨rfl, rfl⟩ := List.cons.inj heq
            obtain ⟨hd, hq⟩ := not_or.mp (List.mem_cons.not.mp hq)
            exact Or.inr ⟨Ne.symm hd, q, s', rfl, hq, h⟩

theorem inRanges_iff {c : Char} {rs : List (Char × Char)} : inRanges c rs = true ↔ InRanges c rs := by
  simp [inRanges, InRanges]

/-- A pattern matches as its terms do. -/
theorem match_iff {p s : Text} : Match p s ↔ ∃ ts, Reads p ts ∧ matchTerms ts s = true := by
  constructor
  · intro h
    induction h with
    | nil => exact ⟨[], Reads.nil, rfl⟩
    | star hq _ ih =>
        obtain ⟨ts, hts, hmatch⟩ := ih
        exact ⟨_, Reads.star hts, matchStar_iff.mpr ⟨_, _, rfl, hq, hmatch⟩⟩
    | any hc _ ih =>
        obtain ⟨ts, hts, hmatch⟩ := ih
        exact ⟨_, Reads.any hts, by simp [matchTerms, hc, hmatch]⟩
    | oneOf hcaret hrs hin _ ih =>
        obtain ⟨ts, hts, hmatch⟩ := ih
        exact ⟨_, Reads.oneOf hcaret hrs hts, by simp [matchTerms, inRanges_iff.mpr hin, hmatch]⟩
    | noneOf hrs hin _ ih =>
        obtain ⟨ts, hts, hmatch⟩ := ih
        have hout := Bool.eq_false_iff.mpr (inRanges_iff.not.mpr hin)
        exact ⟨_, Reads.noneOf hrs hts, by simp [matchTerms, hout, hmatch]⟩
    | escaped _ ih =>
        obtain ⟨ts, hts, hmatch⟩ := ih
        exact ⟨_, Reads.escaped hts, by simp [matchTerms, hmatch]⟩
    | literal hc _ ih =>
        obtain ⟨ts, hts, hmatch⟩ := ih
        exact ⟨_, Reads.rune hc hts, by simp [matchTerms, hmatch]⟩
  · rintro ⟨ts, hts, hmatch⟩
    induction hts generalizing s with
    | nil =>
        rw [List.isEmpty_iff.mp hmatch]
        exact Match.nil
    | star _ ih =>
        obtain ⟨q, s', rfl, hq, hrest⟩ := matchStar_iff.mp hmatch
        exact Match.star hq (ih hrest)
    | any _ ih =>
        cases s with
        | nil => cases hmatch
        | cons c s =>
            rw [matchTerms, Bool.and_eq_true, decide_eq_true_eq] at hmatch
            exact Match.any hmatch.1 (ih hmatch.2)
    | oneOf hcaret hrs _ ih =>
        cases s with
        | nil => cases hmatch
        | cons c s =>
            rw [matchTerms, Bool.and_eq_true] at hmatch
            exact Match.oneOf hcaret hrs (inRanges_iff.mp (by simpa using hmatch.1)) (ih hmatch.2)
    | noneOf hrs _ ih =>
        cases s with
        | nil => cases hmatch
        | cons c s =>
            rw [matchTerms, Bool.and_eq_true] at hmatch
            exact Match.noneOf hrs (fun hin => by simp [inRanges_iff.mpr hin] at hmatch) (ih hmatch.2)
    | escaped _ ih =>
        cases s with
        | nil => cases hmatch
        | cons d s =>
            rw [matchTerms, Bool.and_eq_true, decide_eq_true_eq] at hmatch
            rw [hmatch.1]
            exact Match.escaped (ih hmatch.2)
    | rune hc _ ih =>
        cases s with
        | nil => cases hmatch
        | cons d s =>
            rw [matchTerms, Bool.and_eq_true, decide_eq_true_eq] at hmatch
            rw [hmatch.1]
            exact Match.literal hc (ih hmatch.2)

/-- **`filepath.Match`** is the relation between patterns and names. -/
theorem filepathMatch_iff {p s : Text} : filepathMatch p s = .ok true ↔ Match p s := by
  rw [match_iff, filepathMatch]
  cases hp : parse p with
  | none =>
      refine iff_of_false nofun ?_
      rintro ⟨ts, hts, -⟩
      rw [parse_of_reads hts] at hp
      cases hp
  | some ts =>
      constructor
      · intro h
        exact ⟨ts, parse_eq_some_iff.mp hp, Except.ok.inj h⟩
      · rintro ⟨ts', hts', hmatch⟩
        rw [parse_of_reads hts'] at hp
        cases hp
        exact congrArg Except.ok hmatch

end Glob
end Lib
end ServiceKit
