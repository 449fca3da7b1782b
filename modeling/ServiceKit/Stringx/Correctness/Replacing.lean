import ServiceKit.Stringx.Correctness.Occurrences

/-!
# `Stringx.Correctness.Replacing` — what a replacement does

`Rewrites m t t'` reads `t` from the left: where a key of `m` stands, the longest that does is replaced, and the reading
goes on behind it; else one rune is copied. `Replace` does this twice (`replace_words`), the second time to what the
first has written.
-/

namespace ServiceKit
namespace Stringx

open Lib

variable {mapping : GoMap Text Text} {text out out' t u v w : Text} {words : List Text}

/-- A keyword stands at the beginning. -/
def Begins (words : List Text) (w text : Text) : Prop := w ≠ [] ∧ w ∈ words ∧ w <+: text

/-- The keys of the mapping replaced from the left, the longest first. -/
inductive Rewrites (mapping : GoMap Text Text) : Text → Text → Prop where
  | nil : Rewrites mapping [] []
  | copy {c : Char} {rest out : Text} (hnone : ∀ w, ¬ Begins mapping.keys w (c :: rest))
      (h : Rewrites mapping rest out) : Rewrites mapping (c :: rest) (c :: out)
  | replace {w v rest out : Text} (hw : Begins mapping.keys w (w ++ rest)) (hv : mapping.lookup w = some v)
      (hlongest : ∀ w', Begins mapping.keys w' (w ++ rest) → w'.length ≤ w.length)
      (h : Rewrites mapping rest out) : Rewrites mapping (w ++ rest) (v ++ out)

/-- There is one result. -/
theorem Rewrites.unique (h : Rewrites mapping text out) (h' : Rewrites mapping text out') : out = out' := by
  induction h generalizing out' with
  | nil =>
      generalize htext : ([] : Text) = text' at h'
      cases h' with
      | nil => rfl
      | copy hnone h => cases htext
      | replace hw hv hlongest h => exact absurd (List.append_eq_nil_iff.mp htext.symm).1 hw.1
  | @copy c rest out hnone h ih =>
      generalize htext : c :: rest = text' at h'
      cases h' with
      | nil => cases htext
      | copy hnone' h' =>
          obtain ⟨rfl, rfl⟩ := List.cons_eq_cons.mp htext
          rw [ih h']
      | @replace w v rest' out' hw hv hlongest h' => exact absurd (htext ▸ hw) (hnone w)
  | @replace w v rest out hw hv hlongest h ih =>
      generalize htext : w ++ rest = text' at h'
      cases h' with
      | nil => exact absurd (List.append_eq_nil_iff.mp htext).1 hw.1
      | copy hnone' h' => exact absurd (htext ▸ hw) (hnone' w)
      | @replace w' v' rest' out' hw' hv' hlongest' h' =>
          have hle := hlongest w' (htext ▸ hw')
          have hle' := hlongest' w (htext ▸ hw)
          obtain ⟨rfl, rfl⟩ := List.append_inj htext (Nat.le_antisymm hle' hle)
          rw [hv] at hv'
          rw [ih h', Option.some.inj hv']

/-- Runes where no key stands are copied. -/
theorem Rewrites.skip (hnone : ∀ u' c r, u = u' ++ c :: r → ∀ w, ¬ Begins mapping.keys w (c :: r ++ t))
    (h : Rewrites mapping t out) : Rewrites mapping (u ++ t) (u ++ out) := by
  induction u with
  | nil => exact h
  | cons c r ih =>
      refine .copy (hnone [] c r rfl) (ih fun u' c' r' heq => hnone (c :: u') c' r' ?_)
      rw [heq]
      rfl

/-! ## The sorted scopes -/

/-- The order in which the scopes are replaced. -/
def Before (x y : Scope) : Prop := x.start < y.start ∨ x.start = y.start ∧ y.stop ≤ x.stop

/-- The place of a scope in the order, in a text of `n` runes. -/
def rank (n : Nat) (s : Scope) : Nat := s.start * (n + 1) + (n - s.stop)

theorem rank_lt_iff {n : Nat} {x y : Scope} (hx : x.stop ≤ n) (hy : y.stop ≤ n) :
    rank n x < rank n y ↔ x.start < y.start ∨ x.start = y.start ∧ y.stop < x.stop := by
  rw [rank, rank]
  rcases Nat.lt_trichotomy x.start y.start with hlt | heq | hgt
  · have hmul : (x.start + 1) * (n + 1) ≤ y.start * (n + 1) := Nat.mul_le_mul_right _ hlt
    rw [Nat.add_mul] at hmul
    omega
  · rw [heq]
    omega
  · have hmul : (y.start + 1) * (n + 1) ≤ x.start * (n + 1) := Nat.mul_le_mul_right _ hgt
    rw [Nat.add_mul] at hmul
    omega

theorem scopeLess_iff (x y : Scope) :
    scopeLess x y = true ↔ x.start < y.start ∨ x.start = y.start ∧ y.stop < x.stop := by
  rw [scopeLess]
  by_cases hlt : x.start < y.start
  · rw [if_pos hlt]
    exact ⟨fun _ => .inl hlt, fun _ => rfl⟩
  · rw [if_neg hlt]
    by_cases heq : x.start = y.start
    · rw [if_pos heq, decide_eq_true_eq]
      exact ⟨fun hs => .inr ⟨heq, hs⟩, fun hs => (hs.resolve_left hlt).2⟩
    · rw [if_neg heq]
      exact ⟨fun hf => absurd hf Bool.false_ne_true, fun hs => hs.elim (fun h => absurd h hlt) fun h => absurd h.1 heq⟩

/-- `sort.Slice` puts the scopes in this order. -/
theorem sorted_scopes (sort : SortSlice) (text : Text) {scopes : List Scope} (hstop : ∀ s ∈ scopes, s.stop ≤ text.length) :
    (sort.slice scopeLess scopes).Pairwise Before := by
  have hsorted := sort.sorted scopeLess (rank text.length) scopes fun x hx y hy => by
    rw [Bool.eq_iff_iff, scopeLess_iff, decide_eq_true_eq, rank_lt_iff (hstop x hx) (hstop y hy)]
  refine hsorted.imp_of_mem fun {x y} hx hy hle => ?_
  have hx' := hstop x ((sort.perm _ _).mem_iff.mp hx)
  have hy' := hstop y ((sort.perm _ _).mem_iff.mp hy)
  have hnot := mt (rank_lt_iff hy' hx').mpr (Nat.not_lt.mpr hle)
  rw [Before]
  omega

/-! ## The loop -/

/-- A keyword at the beginning of what is left is an occurrence. -/
theorem occurrence_of_begins {i : Nat} (hw : Begins words w (text.drop i)) (hi : i ≤ text.length) :
    ⟨i, i + w.length⟩ ∈ occurrences words text ∧ slice text ⟨i, i + w.length⟩ = w := by
  obtain ⟨hne, hmem, rest, hrest⟩ := hw
  have hpos := List.length_pos_iff.mpr hne
  have hslice : slice text ⟨i, i + w.length⟩ = w := by
    rw [slice, List.drop_take, Nat.add_sub_cancel_left, ← hrest, List.take_left]
  have hlength := congrArg List.length hrest
  rw [List.length_append, List.length_drop] at hlength
  refine ⟨mem_occurrences.mpr ⟨?_, ?_, by rw [hslice]; exact hmem⟩, hslice⟩
  · show i < i + w.length
    omega
  · show i + w.length ≤ text.length
    omega

/-- What is left of a text, cut at a place behind its beginning. -/
theorem drop_eq_slice_append {i j : Nat} (hij : i ≤ j) : text.drop i = slice text ⟨i, j⟩ ++ text.drop j := by
  rw [slice, List.drop_take]
  have hj : text.drop j = (text.drop i).drop (j - i) := by rw [List.drop_drop, Nat.add_sub_cancel' hij]
  rw [hj, List.take_append_drop]

theorem length_slice {i j : Nat} (hj : j ≤ text.length) : (slice text ⟨i, j⟩).length = j - i := by
  rw [slice, List.length_drop, List.length_take, Nat.min_eq_left hj]

/-- **The loop of `doReplace`**: from the scopes that are left, if they hold all that begin from `index` on. -/
theorem writeFrom_rewrites (r : Replacer) (scopes : List Scope) (index : Nat) (hindex : index ≤ text.length)
    (hsorted : scopes.Pairwise Before) (hall : ∀ s ∈ scopes, s ∈ occurrences r.mapping.keys text)
    (hcomplete : ∀ s ∈ occurrences r.mapping.keys text, index ≤ s.start → s ∈ scopes) :
    Rewrites r.mapping (text.drop index) (r.writeFrom text index scopes) := by
  induction scopes generalizing index with
  | nil =>
      have hwrite : r.writeFrom text index [] = text.drop index := by
        rw [Replacer.writeFrom]
        split
        · rfl
        · next hle => exact (List.drop_eq_nil_of_le (Nat.not_lt.mp hle)).symm
      have hcopied : Rewrites r.mapping (text.drop index ++ []) (text.drop index ++ []) := by
        refine .skip (fun u' c rest heq w hw => ?_) .nil
        -- a key would be an occurrence that is left
        have hdrop : text.drop (index + u'.length) = c :: rest := by rw [← List.drop_drop, heq, List.drop_left]
        have hle : index + u'.length ≤ text.length := by
          have hlength := congrArg List.length heq
          rw [List.length_drop, List.length_append, List.length_cons] at hlength
          omega
        rw [List.append_nil, ← hdrop] at hw
        exact absurd (hcomplete _ (occurrence_of_begins hw hle).1 (Nat.le_add_right _ _)) List.not_mem_nil
      rw [hwrite]
      rwa [List.append_nil] at hcopied
  | cons scp scopes ih =>
      obtain ⟨hhead, htail⟩ := List.pairwise_cons.mp hsorted
      have hrest : ∀ s ∈ scopes, s ∈ occurrences r.mapping.keys text := fun s hs => hall s (List.mem_cons_of_mem _ hs)
      obtain ⟨hlt, hstop, hword⟩ := mem_occurrences.mp (hall scp List.mem_cons_self)
      rw [Replacer.writeFrom]
      by_cases hskip : scp.start < index
      · rw [if_pos hskip]
        refine ih index hindex htail hrest fun s hs hle => ?_
        exact (List.mem_cons.mp (hcomplete s hs hle)).resolve_left fun heq => absurd hle (by rw [heq]; omega)
      · rw [if_neg hskip]
        have hle : index ≤ scp.start := Nat.not_lt.mp hskip
        -- nothing begins before this scope, and nothing longer at its start
        have hfirst : ∀ s ∈ occurrences r.mapping.keys text, index ≤ s.start → s = scp ∨ Before scp s := fun s hs hi =>
          (List.mem_cons.mp (hcomplete s hs hi)).imp_right fun hmem => hhead s hmem
        have hwrite : Rewrites r.mapping (text.drop scp.start)
            ((r.mapping.lookup (slice text scp)).getD [] ++ r.writeFrom text scp.stop scopes) := by
          obtain ⟨value, hvalue⟩ := Option.isSome_iff_exists.mp (AList.lookup_isSome.mpr hword)
          have hsplit : text.drop scp.start = slice text scp ++ text.drop scp.stop :=
            drop_eq_slice_append (Nat.le_of_lt hlt)
          have hslice : (slice text scp).length = scp.stop - scp.start := length_slice hstop
          rw [hvalue, Option.getD_some, hsplit]
          refine .replace ⟨List.ne_nil_of_length_pos (by omega), hword, List.prefix_append _ _⟩ hvalue (fun w' hw' => ?_)
            (ih scp.stop hstop htail hrest fun s hs hi => ?_)
          · rw [← hsplit] at hw'
            have hocc := occurrence_of_begins hw' (by omega)
            rcases hfirst _ hocc.1 hle with heq | hbefore
            · rw [← heq, hocc.2]
            · rw [Before] at hbefore
              simp only at hbefore
              omega
          · refine (List.mem_cons.mp (hcomplete s hs (by omega))).resolve_left fun heq => ?_
            rw [heq] at hi
            omega
        rw [drop_eq_slice_append hle]
        refine .skip (fun u' c rest heq w hw => ?_) hwrite
        have hdrop : text.drop (index + u'.length) = c :: rest ++ text.drop scp.start := by
          rw [← List.drop_drop, drop_eq_slice_append hle, heq, List.append_assoc, List.drop_left]
        have hlength := congrArg List.length heq
        rw [length_slice (by omega), List.length_append, List.length_cons] at hlength
        rw [← hdrop] at hw
        have hocc := occurrence_of_begins hw (by omega)
        rcases hfirst _ hocc.1 (Nat.le_add_right _ _) with heq' | hbefore
        · have hstart := congrArg Scope.start heq'
          simp only at hstart
          omega
        · rw [Before] at hbefore
          simp only at hbefore
          omega

/-- One round of `Replace`. -/
theorem doReplace_rewrites {r : Replacer} (hfind : ∀ text, r.nodes.find text = some (occurrences r.mapping.keys text))
    (sort : SortSlice) (text : Text) :
    ∃ out replaced, r.doReplace sort text = some (out, replaced) ∧ Rewrites r.mapping text out ∧
      (replaced = false → out = text) := by
  rw [Replacer.doReplace, hfind, Option.map_some]
  have hwrites : ∀ scopes : List Scope, scopes.Perm (occurrences r.mapping.keys text) → scopes.Pairwise Before →
      Rewrites r.mapping text (r.writeFrom text 0 scopes) := by
    intro scopes hperm hsorted
    have h : Rewrites r.mapping (text.drop 0) (r.writeFrom text 0 scopes) :=
      writeFrom_rewrites r scopes 0 (Nat.zero_le _) hsorted (fun s hs => hperm.mem_iff.mp hs) fun s hs _ =>
        hperm.mem_iff.mpr hs
    rwa [List.drop_zero] at h
  by_cases hempty : (occurrences r.mapping.keys text).length = 0
  · rw [if_pos hempty]
    have hnil := List.length_eq_zero_iff.mp hempty
    have h := hwrites [] (by rw [hnil]) .nil
    rw [Replacer.writeFrom] at h
    have hcopy : (if 0 < text.length then text.drop 0 else []) = text := by
      cases text with
      | nil => rfl
      | cons c rest => rfl
    rw [hcopy] at h
    exact ⟨text, false, rfl, h, fun _ => rfl⟩
  · rw [if_neg hempty]
    refine ⟨_, true, rfl, hwrites _ (sort.perm _ _) (sorted_scopes sort text fun s hs => ?_), fun hf => ?_⟩
    · exact (mem_occurrences.mp hs).2.1
    · cases hf

/-- **What a replacer does.** It ends, and its result is what two rounds of replacing from the left give, the longest key
    first, whatever the orders of the maps and of the sort. -/
theorem replace_words (order : RangeOrder Char) (keys : RangeOrder Text) (sort : SortSlice)
    (mapping : GoMap Text Text) (text : Text) :
    ∃ mid out, Rewrites mapping text mid ∧ Rewrites mapping mid out ∧
      ((NewReplacer order keys mapping).bind fun r => r.replace sort text) = some out := by
  -- the order of the keys does not matter
  have hocc : ∀ text, occurrences ((keys.range mapping).map fun e => e.1) text = occurrences mapping.keys text := by
    intro text
    have hmem : ∀ w, w ∈ (keys.range mapping).map (fun e => e.1) ↔ w ∈ mapping.keys := fun w =>
      ((keys.perm mapping).map fun e => e.1).mem_iff
    rw [occurrences, occurrences]
    refine List.flatMap_congr fun t _ => ?_
    rw [endingAt, endingAt]
    refine congrArg _ (List.filter_congr fun w _ => ?_)
    simp only [hmem]
  obtain ⟨n, hn, -⟩ := Option.bind_eq_some_iff.mp
    (find_words order ((keys.range mapping).map fun e => e.1) none text)
  rw [NewTrie] at hn
  obtain ⟨h, hbuild, -⟩ := Option.map_eq_some_iff.mp hn
  have hfind : ∀ text, h.find text = some (occurrences mapping.keys text) := by
    intro text
    have hwords := find_words order ((keys.range mapping).map fun e => e.1) none text
    rw [NewTrie, hbuild, Option.map_some, Option.bind_some, hocc] at hwords
    exact hwords
  rw [NewReplacer, hbuild, Option.map_some, Option.bind_some]
  generalize hr : (⟨h, mapping⟩ : Replacer) = r
  have hfind' : ∀ text, r.nodes.find text = some (occurrences r.mapping.keys text) := by
    rw [← hr]
    exact hfind
  have hmapping : r.mapping = mapping := by rw [← hr]
  obtain ⟨mid, replaced, hmid, hrewrites, hsame⟩ := doReplace_rewrites hfind' sort text
  obtain ⟨out, replaced', hout, hrewrites', hsame'⟩ := doReplace_rewrites hfind' sort mid
  rw [hmapping] at hrewrites hrewrites'
  rw [Replacer.replace, replaceTimes, Replacer.replaceFrom, hmid, Option.bind_some]
  cases replaced with
  | false =>
      -- nothing was replaced, and a second round would replace nothing
      have hsecond : Rewrites mapping mid mid := by
        rw [hsame rfl] at hrewrites ⊢
        exact hrewrites
      exact ⟨mid, mid, hrewrites, hsecond, rfl⟩
  | true =>
      refine ⟨mid, out, hrewrites, hrewrites', ?_⟩
      simp only [if_true]
      rw [Replacer.replaceFrom, hout, Option.bind_some]
      cases replaced' <;> rfl

end Stringx
end ServiceKit
