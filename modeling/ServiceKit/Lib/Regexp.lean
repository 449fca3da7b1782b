import Mathlib.Data.List.Infix
import ServiceKit.Lib.Text

/-!
# `Lib.Regexp` — regular expressions

What an expression of package `regexp` is once it is compiled, and what it matches. `Matches r x w y` says that `r`
matches `w` where `x` stands before it and `y` after it: anchors and word boundaries look there. `matchString` searches
for such a place (`matchString_iff`). The syntax of the expressions is left to a `Compiler`, of which nothing is known
but that a text without meta characters stands for itself.
-/

namespace ServiceKit
namespace Lib

inductive Regexp where
  | empty
  /-- One rune: a literal, a class or a dot. -/
  | rune (accepts : Char → Bool)
  /-- No rune, by the rune before and the one after: anchors and word boundaries. -/
  | assertion (holds : Option Char → Option Char → Bool)
  | concat (r s : Regexp)
  | alternate (r s : Regexp)
  | star (r : Regexp)

namespace Regexp

/-- `r` matches `w` between `x` and `y`. -/
inductive Matches : Regexp → Text → Text → Text → Prop where
  | empty {x y : Text} : Matches .empty x [] y
  | rune {accepts : Char → Bool} {c : Char} {x y : Text} : accepts c = true → Matches (.rune accepts) x [c] y
  | assertion {holds : Option Char → Option Char → Bool} {x y : Text} : holds x.getLast? y.head? = true →
      Matches (.assertion holds) x [] y
  | concat {r s : Regexp} {x v w y : Text} : Matches r x v (w ++ y) → Matches s (x ++ v) w y →
      Matches (.concat r s) x (v ++ w) y
  | left {r s : Regexp} {x w y : Text} : Matches r x w y → Matches (.alternate r s) x w y
  | right {r s : Regexp} {x w y : Text} : Matches s x w y → Matches (.alternate r s) x w y
  | done {r : Regexp} {x y : Text} : Matches (.star r) x [] y
  | again {r : Regexp} {x v w y : Text} : Matches r x v (w ++ y) → Matches (.star r) (x ++ v) w y →
      Matches (.star r) x (v ++ w) y

/-! ## Search -/

/-- A place in a text: what stands before it and what after. -/
abbrev Place := Text × Text

/-- The places that at most `n` steps lead to, each of which reads something. -/
def starEnds (step : Place → List Place) : ℕ → Place → List Place
  | 0, p => [p]
  | n + 1, p => p :: ((step p).filter fun q => q.2.length < p.2.length).flatMap (starEnds step n)

/-- The places where a match that begins at `p` ends. -/
def ends : Regexp → Place → List Place
  | .empty, p => [p]
  | .rune _, (_, []) => []
  | .rune accepts, (x, c :: y) => if accepts c then [(x ++ [c], y)] else []
  | .assertion holds, p => if holds p.1.getLast? p.2.head? then [p] else []
  | .concat r s, p => (ends r p).flatMap (ends s)
  | .alternate r s, p => ends r p ++ ends s p
  | .star r, p => starEnds (ends r) p.2.length p

/-- `MatchString`: the text contains a match. -/
def matchString (r : Regexp) (s : Text) : Bool :=
  (List.range (s.length + 1)).any fun i => !(ends r (s.take i, s.drop i)).isEmpty

/-- `q` is reached from `p` over a match of `r`. -/
def Leads (r : Regexp) (p q : Place) : Prop := ∃ w, p.2 = w ++ q.2 ∧ q.1 = p.1 ++ w ∧ Matches r p.1 w q.2

theorem leads_star_of_mem {r : Regexp} (hr : ∀ p q, q ∈ ends r p → Leads r p q) (n : ℕ) (p q : Place)
    (h : q ∈ starEnds (ends r) n p) : Leads (.star r) p q := by
  induction n generalizing p with
  | zero =>
      rw [List.mem_singleton.mp h]
      exact ⟨[], rfl, (List.append_nil _).symm, Matches.done⟩
  | succ n ih =>
      rcases List.mem_cons.mp h with rfl | h
      · exact ⟨[], rfl, (List.append_nil _).symm, Matches.done⟩
      · obtain ⟨o, ho, hq⟩ := List.mem_flatMap.mp h
        obtain ⟨v, hv, hov, hmatch⟩ := hr p o (List.mem_of_mem_filter ho)
        obtain ⟨w, hw, hqw, hrest⟩ := ih o hq
        refine ⟨v ++ w, ?_, ?_, ?_⟩
        · rw [hv, hw, List.append_assoc]
        · rw [hqw, hov, List.append_assoc]
        · rw [hw] at hmatch
          rw [hov] at hrest
          exact Matches.again hmatch hrest

/-- Iterations that read nothing lead nowhere, so there are never more than runes left. -/
theorem mem_starEnds {r : Regexp} (hr : ∀ p q, Leads r p q → q ∈ ends r p) {x w y : Text}
    (h : Matches (.star r) x w y) {n : ℕ} (hn : (w ++ y).length ≤ n) :
    (x ++ w, y) ∈ starEnds (ends r) n (x, w ++ y) := by
  generalize hs : Regexp.star r = s at h
  induction h generalizing n with
  | empty | rune | assertion | concat | left | right => cases hs
  | done =>
      rw [List.append_nil]
      cases n with
      | zero => exact List.mem_singleton.mpr rfl
      | succ n => exact List.mem_cons_self
  | @again r' x v w y hmatch hrest _ ih =>
      cases hs
      cases v with
      | nil =>
          have h := ih hn rfl
          rwa [List.append_nil] at h
      | cons c v =>
          cases n with
          | zero => simp at hn
          | succ n =>
              apply List.mem_cons_of_mem
              rw [List.append_assoc, ← List.append_assoc x]
              refine List.mem_flatMap.mpr ⟨(x ++ c :: v, w ++ y), List.mem_filter.mpr ⟨?_, ?_⟩, ih ?_ rfl⟩
              · exact hr _ _ ⟨c :: v, rfl, rfl, hmatch⟩
              · simp only [List.cons_append, List.length_cons, List.length_append, decide_eq_true_eq]
                omega
              · simp only [List.cons_append, List.append_assoc, List.length_cons, List.length_append] at hn ⊢
                omega

/-- **The search is right**: `ends` lists the places that a match leads to. -/
theorem mem_ends_iff {r : Regexp} {p q : Place} : q ∈ ends r p ↔ Leads r p q := by
  induction r generalizing p q with
  | empty =>
      rw [ends, List.mem_singleton]
      constructor
      · rintro rfl
        exact ⟨[], rfl, (List.append_nil _).symm, Matches.empty⟩
      · rintro ⟨w, hp, hq, h⟩
        cases h
        exact Prod.ext (hq.trans (List.append_nil _)) hp.symm
  | rune accepts =>
      obtain ⟨x, z⟩ := p
      constructor
      · intro h
        cases z with
        | nil => exact absurd h List.not_mem_nil
        | cons c y =>
            rw [ends] at h
            split at h
            · next hc =>
                rw [List.mem_singleton.mp h]
                exact ⟨[c], rfl, rfl, Matches.rune hc⟩
            · exact absurd h List.not_mem_nil
      · rintro ⟨w, hp, hq, h⟩
        cases h with
        | @rune _ c _ _ hc =>
            have hz : z = c :: q.2 := hp
            rw [hz, ends, if_pos hc]
            exact List.mem_singleton.mpr (Prod.ext hq rfl)
  | assertion holds =>
      rw [ends]
      constructor
      · intro h
        split at h
        · next hholds =>
            rw [List.mem_singleton.mp h]
            exact ⟨[], rfl, (List.append_nil _).symm, Matches.assertion hholds⟩
        · exact absurd h List.not_mem_nil
      · rintro ⟨w, hp, hq, h⟩
        cases h with
        | assertion hholds =>
            have hqp : q = p := Prod.ext (hq.trans (List.append_nil _)) hp.symm
            subst hqp
            rw [if_pos hholds]
            exact List.mem_singleton.mpr rfl
  | concat r s ihr ihs =>
      rw [ends, List.mem_flatMap]
      constructor
      · rintro ⟨o, ho, hq⟩
        obtain ⟨v, hv, hov, hr⟩ := ihr.mp ho
        obtain ⟨w, hw, hqw, hs⟩ := ihs.mp hq
        refine ⟨v ++ w, ?_, ?_, ?_⟩
        · rw [hv, hw, List.append_assoc]
        · rw [hqw, hov, List.append_assoc]
        · rw [hw] at hr
          rw [hov] at hs
          exact Matches.concat hr hs
      · rintro ⟨u, hp, hq, h⟩
        cases h with
        | @concat _ _ _ v w _ hr hs =>
            refine ⟨(p.1 ++ v, w ++ q.2), ihr.mpr ⟨v, ?_, rfl, hr⟩, ihs.mpr ⟨w, rfl, ?_, hs⟩⟩
            · rw [hp, List.append_assoc]
            · rw [hq, List.append_assoc]
  | alternate r s ihr ihs =>
      rw [ends, List.mem_append, ihr, ihs]
      constructor
      · rintro (⟨w, hp, hq, h⟩ | ⟨w, hp, hq, h⟩)
        · exact ⟨w, hp, hq, Matches.left h⟩
        · exact ⟨w, hp, hq, Matches.right h⟩
      · rintro ⟨w, hp, hq, h⟩
        cases h with
        | left h => exact Or.inl ⟨w, hp, hq, h⟩
        | right h => exact Or.inr ⟨w, hp, hq, h⟩
  | star r ih =>
      constructor
      · intro h
        exact leads_star_of_mem (fun _ _ => ih.mp) _ p q h
      · rintro ⟨w, hp, hq, h⟩
        have hmem := mem_starEnds (fun _ _ => ih.mpr) h (Nat.le_refl (w ++ q.2).length)
        have hplace : (p.1, w ++ q.2) = p := Prod.ext rfl hp.symm
        have hend : (p.1 ++ w, q.2) = q := Prod.ext hq.symm rfl
        rw [hplace, hend, ← hp] at hmem
        exact hmem

theorem matchString_iff {r : Regexp} {s : Text} :
    matchString r s = true ↔ ∃ x w y, s = x ++ w ++ y ∧ Matches r x w y := by
  rw [matchString, List.any_eq_true]
  constructor
  · rintro ⟨i, -, hi⟩
    obtain ⟨q, hq⟩ := List.exists_mem_of_ne_nil _ (by simpa using hi : ends r (s.take i, s.drop i) ≠ [])
    obtain ⟨w, hw, -, h⟩ := mem_ends_iff.mp hq
    refine ⟨s.take i, w, q.2, ?_, h⟩
    rw [List.append_assoc, ← hw, List.take_append_drop]
  · rintro ⟨x, w, y, rfl, h⟩
    have hmem : (x ++ w, y) ∈ ends r (x, w ++ y) := mem_ends_iff.mpr ⟨w, rfl, rfl, h⟩
    refine ⟨x.length, List.mem_range.mpr ?_, ?_⟩
    · simp only [List.length_append]
      omega
    · rw [List.append_assoc, List.take_left, List.drop_left]
      simpa using List.ne_nil_of_mem hmem

/-! ## Literals -/

def literal (t : Text) : Regexp := t.foldr (fun c r => .concat (.rune fun d => d = c) r) .empty

theorem matches_literal_iff {t x w y : Text} : Matches (literal t) x w y ↔ w = t := by
  induction t generalizing x w with
  | nil =>
      constructor
      · intro h
        cases h
        rfl
      · rintro rfl
        exact Matches.empty
  | cons c t ih =>
      constructor
      · intro h
        cases h with
        | concat hc ht =>
            cases hc with
            | rune hd => rw [of_decide_eq_true hd, ih.mp ht, List.singleton_append]
      · rintro rfl
        exact Matches.concat (Matches.rune (decide_eq_true rfl)) (ih.mpr rfl)

/-- **A literal is found** in the texts that it is a part of. -/
theorem matchString_literal {t s : Text} : matchString (literal t) s = true ↔ t <:+: s := by
  rw [matchString_iff]
  constructor
  · rintro ⟨x, w, y, hs, h⟩
    exact ⟨x, y, by rw [hs, matches_literal_iff.mp h]⟩
  · rintro ⟨x, y, hs⟩
    exact ⟨x, t, y, hs.symm, matches_literal_iff.mpr rfl⟩

end Regexp

/-! ## Compilation -/

/-- `regexp.QuoteMeta` has a backslash for each of these. -/
def metaRunes : Text := "\\.+*?()|[]{}^$".toList

/-- `regexp.Compile`, which fails on what is no expression. -/
structure Compiler where
  compile : Text → Option Regexp
  /-- A text without meta characters stands for itself. -/
  compile_literal : ∀ t, (∀ c ∈ t, c ∉ metaRunes) → compile t = some (.literal t)

end Lib
end ServiceKit
