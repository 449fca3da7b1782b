import ServiceKit.Stringx.Correctness.Links
import Mathlib.Data.List.Infix

/-!
# `Stringx.Correctness.Occurrences` — the search finds every keyword

After each rune the search is at the longest suffix of what it has read that is a node, so the nodes from there up are
all keywords that end here (`findFrom_eq`). From this: what `Filter` masks and names (`filter_words`), and what `Replace`
does (`replace_words`).
-/

namespace ServiceKit
namespace Stringx

open Lib

variable {K : List Addr} {E : Text → Prop} [DecidablePred E] {h : Nodes} {cur : Addr} {c : Char} {words : List Text}
  {text : Text}

/-! ## The search -/

/-- Where the search is after one more rune. -/
def gone (K : List Addr) (cur : Addr) (c : Char) : Addr := longestSuffix (fun w => w ∈ K) (cur ++ [c])

omit [DecidablePred E] in
theorem gone_of_mem (hmem : cur ++ [c] ∈ K) : gone K cur c = cur ++ [c] := longestSuffix_of_mem hmem

omit [DecidablePred E] in
theorem goOn_eq (hl : Linked K E h) (fuel : Nat) (hcur : cur ∈ K) (hfuel : cur.length ≤ fuel) (hc : cur ++ [c] ∉ K) :
    h.goOn c fuel cur = some (gone K cur c, if gone K cur c = [] then none else some (gone K cur c)) := by
  induction fuel generalizing cur with
  | zero =>
      obtain rfl := List.length_eq_zero_iff.mp (Nat.le_zero.mp hfuel)
      have hgone : gone K [] c = [] := longestSuffix_cons_of_not hc
      rw [hgone, if_pos rfl, Nodes.goOn]
  | succ fuel ih =>
      by_cases hroot : cur = []
      · subst hroot
        have hgone : gone K [] c = [] := longestSuffix_cons_of_not hc
        rw [hgone, if_pos rfl, Nodes.goOn]
      · have hgone : gone K cur c = gone K (target K cur) c :=
          longestSuffix_concat_of_not hl.shaped.closed hroot hc
        have hlt := length_target_lt (K := K) hroot
        have htarget := target_mem hl.shaped cur
        rw [Nodes.goOn, hl.link cur hcur hroot]
        · simp only
          rw [hl.shaped.child _ htarget, hgone]
          by_cases hmem : target K cur ++ [c] ∈ K
          · rw [if_pos hmem, gone_of_mem hmem, if_neg (by simp)]
          · rw [if_neg hmem]
            exact ih htarget (by omega) hmem
        · exact fun heq => hroot heq

omit [DecidablePred E] in
theorem advance_eq (hl : Linked K E h) (hcur : cur ∈ K) :
    h.advance cur c = some (gone K cur c, if gone K cur c = [] then none else some (gone K cur c)) := by
  rw [Nodes.advance, hl.shaped.child cur hcur]
  by_cases hmem : cur ++ [c] ∈ K
  · rw [if_pos hmem, gone_of_mem hmem, if_neg (by simp)]
  · rw [if_neg hmem]
    exact goOn_eq hl _ hcur (Nat.le_refl _) hmem

/-- The keywords that end where `t` ends, the longest first. -/
def endingAt (E : Text → Prop) [DecidablePred E] (t : Text) : List Scope :=
  (t.tails.filter fun w => E w).map fun w => ⟨t.length - w.length, t.length⟩

theorem filter_tails_nil (hE : ¬ E []) : ([] : Text).tails.filter (fun w => E w) = [] :=
  List.filter_cons_of_neg (by simpa using hE)

theorem scopesAt_eq (hl : Linked K E h) (hE : ¬ E []) (i fuel : Nat) (hcur : cur ∈ K) (hfuel : cur.length ≤ fuel) :
    h.scopesAt i fuel cur = some ((cur.tails.filter fun w => E w).map fun w => ⟨i + 1 - w.length, i + 1⟩) := by
  induction fuel generalizing cur with
  | zero =>
      obtain rfl := List.length_eq_zero_iff.mp (Nat.le_zero.mp hfuel)
      rw [Nodes.scopesAt, filter_tails_nil hE, List.map_nil]
  | succ fuel ih =>
      cases cur with
      | nil =>
          rw [Nodes.scopesAt, filter_tails_nil hE, List.map_nil]
      | cons x xs =>
          have hne : x :: xs ≠ [] := List.cons_ne_nil x xs
          have hlt := length_target_lt (K := K) hne
          have htails : (target K (x :: xs)).tails.filter (fun w => E w) = xs.tails.filter fun w => E w :=
            filter_tails_longestSuffix hl.shaped.ends xs
          rw [Nodes.scopesAt, hl.link _ hcur hne, Option.bind_some,
            ih (target_mem hl.shaped _) (by omega), Option.map_some, htails, List.tails_cons, hl.shaped.depth _ hcur]
          · by_cases hend : E (x :: xs)
            · rw [if_pos ((hl.shaped.isEnd _ hcur).mpr hend), List.filter_cons_of_pos (by simpa using hend),
                List.map_cons]
            · rw [if_neg fun hc => hend ((hl.shaped.isEnd _ hcur).mp hc), List.filter_cons_of_neg (by simpa using hend)]
          · exact hne

/-- The keywords in a text, from where `t` was read. -/
def endingFrom (E : Text → Prop) [DecidablePred E] (t : Text) : Text → List Scope
  | [] => []
  | c :: chars => endingAt E (t ++ [c]) ++ endingFrom E (t ++ [c]) chars

/-- **The search.** It is at the longest suffix of what it has read that is a node, and has found all keywords. -/
theorem findFrom_eq (hl : Linked K E h) (hE : ¬ E []) (chars t : Text) :
    h.findFrom (longestSuffix (fun w => w ∈ K) t) t.length chars = some (endingFrom E t chars) := by
  induction chars generalizing t with
  | nil => rfl
  | cons c chars ih =>
      have hcur : longestSuffix (fun w => w ∈ K) t ∈ K := longestSuffix_mem hl.shaped.root t
      have hgone : gone K (longestSuffix (fun w => w ∈ K) t) c = longestSuffix (fun w => w ∈ K) (t ++ [c]) :=
        (longestSuffix_concat hl.shaped.closed t c).symm
      have hlength : (t ++ [c]).length = t.length + 1 := List.length_append
      -- the nodes from the new place up are the keywords that end here
      have hscopes : h.scopesOf t.length (if gone K (longestSuffix (fun w => w ∈ K) t) c = [] then none
          else some (gone K (longestSuffix (fun w => w ∈ K) t) c)) = some (endingAt E (t ++ [c])) := by
        rw [hgone, endingAt, hlength, ← filter_tails_longestSuffix hl.shaped.ends (t ++ [c])]
        by_cases hnil : longestSuffix (fun w => w ∈ K) (t ++ [c]) = []
        · rw [if_pos hnil, hnil, filter_tails_nil hE, List.map_nil, Nodes.scopesOf]
        · rw [if_neg hnil]
          exact scopesAt_eq hl hE _ _ (longestSuffix_mem hl.shaped.root _) (Nat.le_refl _)
      have hrest := ih (t ++ [c])
      rw [hlength] at hrest
      rw [Nodes.findFrom, advance_eq hl hcur, Option.bind_some]
      rw [hscopes, Option.bind_some, hgone, hrest, Option.map_some, endingFrom]

/-! ## Occurrences -/

/-- The occurrences of the words in a text: by where they end, and of those that end at one place the longest first. -/
def occurrences (words : List Text) (text : Text) : List Scope :=
  text.inits.flatMap (endingAt fun w => w ≠ [] ∧ w ∈ words)

theorem endingFrom_eq (E : Text → Prop) [DecidablePred E] (chars t : Text) :
    endingAt E t ++ endingFrom E t chars = (chars.inits.map fun u => t ++ u).flatMap (endingAt E) := by
  induction chars generalizing t with
  | nil => simp [endingFrom]
  | cons c chars ih =>
      rw [endingFrom, ih, List.inits_cons, List.map_cons, List.flatMap_cons, List.append_nil, List.map_map]
      simp [Function.comp_def]

/-- An occurrence is a place where one of the words stands. -/
theorem mem_occurrences {s : Scope} :
    s ∈ occurrences words text ↔ s.start < s.stop ∧ s.stop ≤ text.length ∧ slice text s ∈ words := by
  rw [occurrences, List.mem_flatMap]
  constructor
  · rintro ⟨t, ht, hs⟩
    obtain ⟨w, hw, rfl⟩ := List.mem_map.mp hs
    obtain ⟨htails, hE⟩ := List.mem_filter.mp hw
    obtain ⟨hne, hword⟩ := of_decide_eq_true hE
    obtain ⟨u, rfl⟩ := (List.mem_tails _ _).mp htails
    obtain ⟨v, rfl⟩ := (List.mem_inits _ _).mp ht
    have hpos := List.length_pos_iff.mpr hne
    have hlength : (u ++ w).length - w.length = u.length := by rw [List.length_append, Nat.add_sub_cancel]
    refine ⟨?_, ?_, ?_⟩
    · rw [hlength]
      show u.length < (u ++ w).length
      rw [List.length_append]
      omega
    · simp
    · rw [slice, hlength, List.take_left', List.drop_left']
      · exact hword
      · rfl
      · rfl
  · rintro ⟨hlt, hle, hword⟩
    refine ⟨text.take s.stop, (List.mem_inits _ _).mpr (List.take_prefix _ _), List.mem_map.mpr ⟨slice text s, ?_, ?_⟩⟩
    · refine List.mem_filter.mpr ⟨(List.mem_tails _ _).mpr (List.drop_suffix _ _), decide_eq_true ⟨?_, hword⟩⟩
      refine List.ne_nil_of_length_pos ?_
      rw [slice, List.length_drop, List.length_take]
      omega
    · have htake : (text.take s.stop).length = s.stop := by rw [List.length_take, Nat.min_eq_left hle]
      have hslice : (slice text s).length = s.stop - s.start := by rw [slice, List.length_drop, htake]
      rw [htake, hslice]
      obtain ⟨start, stop⟩ := s
      simp only [Scope.mk.injEq, and_true]
      simp only at hlt
      omega

/-- **The search finds every occurrence of every keyword.** Whatever the order in which the tree is linked, the search
    ends and gives exactly these. -/
theorem find_words (order : RangeOrder Char) (words : List Text) (mask : Option Char) (text : Text) :
    ((NewTrie order words mask).bind fun n => n.nodes.find text) = some (occurrences words text) := by
  obtain ⟨K, h, hbuild, hl⟩ := build_linked order words
  have hE : ¬ (([] : Text) ≠ [] ∧ [] ∈ words) := fun hc => hc.1 rfl
  have hfind := findFrom_eq hl hE text []
  have hnone : endingAt (fun w => w ≠ [] ∧ w ∈ words) [] = [] := by rw [endingAt, filter_tails_nil hE, List.map_nil]
  have hall := endingFrom_eq (fun w => w ≠ [] ∧ w ∈ words) text []
  rw [hnone, List.nil_append] at hall
  simp only [List.nil_append, List.map_id'] at hall
  rw [NewTrie, hbuild, Option.map_some, Option.bind_some, occurrences, ← hall]
  exact hfind

/-! ## Filtering -/

/-- A keyword stands over this place. -/
def Covered (words : List Text) (text : Text) (i : Nat) : Prop :=
  ∃ s : Scope, s.start ≤ i ∧ i < s.stop ∧ s.stop ≤ text.length ∧ slice text s ∈ words

theorem getElem?_replaceWithAsterisk (mask : Char) (chars : Text) (s : Scope) (i : Nat) :
    (replaceWithAsterisk mask chars s)[i]? =
      if s.start ≤ i ∧ i < s.stop ∧ i < chars.length then some mask else chars[i]? := by
  have hloop : ∀ n start (chars : Text),
      ((List.range' start n).foldl (fun chars i => chars.set i mask) chars)[i]? =
        if start ≤ i ∧ i < start + n ∧ i < chars.length then some mask else chars[i]? := by
    intro n
    induction n with
    | zero =>
        intro start chars
        rw [if_neg (by omega)]
        rfl
    | succ n ih =>
        intro start chars
        rw [List.range'_succ, List.foldl_cons, ih, List.length_set, List.getElem?_set]
        by_cases heq : start = i
        · subst heq
          rw [if_neg (by omega), if_pos rfl]
          by_cases hlt : start < chars.length
          · rw [if_pos hlt, if_pos (by omega)]
          · rw [if_neg hlt, if_neg (by omega), List.getElem?_eq_none (Nat.not_lt.mp hlt)]
        · rw [if_neg heq]
          exact if_congr (by omega) rfl rfl
  rw [replaceWithAsterisk, hloop]
  exact if_congr (by omega) rfl rfl

theorem length_replaceWithAsterisk (mask : Char) (chars : Text) (s : Scope) :
    (replaceWithAsterisk mask chars s).length = chars.length := by
  have hloop : ∀ (is : List Nat) (chars : Text),
      (is.foldl (fun chars i => chars.set i mask) chars).length = chars.length := by
    intro is
    induction is with
    | nil => exact fun chars => rfl
    | cons i is ih => exact fun chars => (ih _).trans List.length_set
  exact hloop _ chars

/-- What the masks of some scopes leave. -/
theorem getElem?_masked (mask : Char) (scopes : List Scope) (chars : Text) (i : Nat) :
    (scopes.foldl (replaceWithAsterisk mask) chars)[i]? =
      if (∃ s ∈ scopes, s.start ≤ i ∧ i < s.stop) ∧ i < chars.length then some mask else chars[i]? := by
  induction scopes generalizing chars with
  | nil => rw [if_neg fun hc => absurd hc.1.choose_spec.1 List.not_mem_nil]; rfl
  | cons s scopes ih =>
      have hcons : (∃ s' ∈ s :: scopes, s'.start ≤ i ∧ i < s'.stop) ↔
          (s.start ≤ i ∧ i < s.stop) ∨ ∃ s' ∈ scopes, s'.start ≤ i ∧ i < s'.stop := by
        simp only [List.mem_cons, exists_eq_or_imp]
      rw [List.foldl_cons, ih, length_replaceWithAsterisk, getElem?_replaceWithAsterisk]
      by_cases hlt : i < chars.length
      · by_cases hs : s.start ≤ i ∧ i < s.stop
        · have hinner : s.start ≤ i ∧ i < s.stop ∧ i < chars.length := ⟨hs.1, hs.2, hlt⟩
          rw [if_pos hinner, ite_self, if_pos ⟨hcons.mpr (.inl hs), hlt⟩]
        · have hinner : ¬ (s.start ≤ i ∧ i < s.stop ∧ i < chars.length) := fun hc => hs ⟨hc.1, hc.2.1⟩
          rw [if_neg hinner]
          exact if_congr (and_congr_left fun _ => (hcons.trans (or_iff_right hs)).symm) rfl rfl
      · rw [if_neg fun hc => hlt hc.2, if_neg fun hc => hlt hc.2.2, if_neg fun hc => hlt hc.2]

/-- The keywords that `collectKeywords` gives, each once. -/
theorem collectKeywords_spec (order : RangeOrder Text) (chars : Text) (scopes : List Scope) :
    (collectKeywords order chars scopes).Nodup ∧
      ∀ w, w ∈ collectKeywords order chars scopes ↔ ∃ s ∈ scopes, slice chars s = w := by
  rw [collectKeywords]
  refine ⟨order.nodup_keys _, fun w => ?_⟩
  have hmem : w ∈ putAll (∅ : GoMap Text Unit) (scopes.map fun s => (slice chars s, ())) ↔
      w ∈ scopes.map fun s => slice chars s := by
    rw [mem_putAll, List.map_map]
    exact or_iff_right (AList.notMem_empty w)
  rw [← List.mem_map (f := fun s => slice chars s), ← hmem, ((order.perm _).map fun e => e.1).mem_iff]
  rfl

/-- Where a keyword occurs, a scope of it is an occurrence. -/
theorem exists_slice_iff {w : Text} :
    (∃ s ∈ occurrences words text, slice text s = w) ↔ w ≠ [] ∧ w ∈ words ∧ w <:+: text := by
  constructor
  · rintro ⟨s, hs, rfl⟩
    obtain ⟨hlt, hle, hword⟩ := mem_occurrences.mp hs
    refine ⟨List.ne_nil_of_length_pos ?_, hword, ?_⟩
    · rw [slice, List.length_drop, List.length_take]
      omega
    · exact (List.drop_suffix _ _).isInfix.trans (List.take_prefix _ _).isInfix
  · rintro ⟨hne, hword, u, v, rfl⟩
    have hslice : slice (u ++ w ++ v) ⟨u.length, (u ++ w).length⟩ = w := by
      rw [slice, List.take_left', List.drop_left']
      · rfl
      · rfl
    refine ⟨⟨u.length, (u ++ w).length⟩, mem_occurrences.mpr ⟨?_, ?_, by rw [hslice]; exact hword⟩, hslice⟩
    · have hpos := List.length_pos_iff.mpr hne
      show u.length < (u ++ w).length
      rw [List.length_append]
      omega
    · simp

/-- **What the filter does.** It ends, and then a rune of the sentence is the mask (the default one where the zero rune
    was asked for) where a keyword stands over it and the rune of the text elsewhere; the keywords are those that occur
    in the text, each once; they are found if there is one. -/
theorem filter_words (order : RangeOrder Char) (range : RangeOrder Text) (words : List Text) (mask : Option Char)
    (text : Text) :
    ∃ sentence keywords found,
      ((NewTrie order words mask).bind fun n => n.filter range text) = some (sentence, keywords, found) ∧
      sentence.length = text.length ∧
      (∀ i, Covered words text i → sentence[i]? = some (maskOf mask)) ∧
      (∀ i, ¬ Covered words text i → sentence[i]? = text[i]?) ∧
      keywords.Nodup ∧ (∀ w, w ∈ keywords ↔ w ≠ [] ∧ w ∈ words ∧ w <:+: text) ∧
      (found = true ↔ ∃ w, w ≠ [] ∧ w ∈ words ∧ w <:+: text) := by
  have hfind := find_words order words mask text
  obtain ⟨n, hn, hscopes⟩ := Option.bind_eq_some_iff.mp hfind
  have hmask : n.mask = maskOf mask := by
    rw [NewTrie] at hn
    obtain ⟨h, -, rfl⟩ := Option.map_eq_some_iff.mp hn
    rfl
  have hcovered : ∀ i, ((∃ s ∈ occurrences words text, s.start ≤ i ∧ i < s.stop) ∧ i < text.length) ↔
      Covered words text i := by
    intro i
    constructor
    · rintro ⟨⟨s, hs, hle, hlt⟩, -⟩
      obtain ⟨-, hstop, hword⟩ := mem_occurrences.mp hs
      exact ⟨s, hle, hlt, hstop, hword⟩
    · rintro ⟨s, hle, hlt, hstop, hword⟩
      exact ⟨⟨s, mem_occurrences.mpr ⟨by omega, hstop, hword⟩, hle, hlt⟩, by omega⟩
  rw [hn, Option.bind_some, TrieNode.filter]
  by_cases hempty : text.length = 0
  · have hnil := List.length_eq_zero_iff.mp hempty
    have hnone : ∀ w, ¬ (w ≠ [] ∧ w ∈ words ∧ w <:+: text) := fun w hw =>
      hw.1 (List.infix_nil.mp (hnil ▸ hw.2.2))
    rw [if_pos hempty]
    refine ⟨text, [], false, rfl, rfl, fun i hi => ?_, fun _ _ => rfl, List.nodup_nil, fun w => ?_, ?_⟩
    · obtain ⟨s, hle, hlt, hstop, -⟩ := hi
      omega
    · exact ⟨fun hw => absurd hw List.not_mem_nil, fun hw => absurd hw (hnone w)⟩
    · exact ⟨fun hf => absurd hf Bool.false_ne_true, fun ⟨w, hw⟩ => absurd hw (hnone w)⟩
  · rw [if_neg hempty, hscopes, Option.map_some]
    obtain ⟨hnodup, hmem⟩ := collectKeywords_spec range text (occurrences words text)
    have hmem' := fun w => (hmem w).trans exists_slice_iff
    refine ⟨_, _, _, rfl, ?_, fun i hi => ?_, fun i hi => ?_, hnodup, hmem', ?_⟩
    · have hlength : ∀ (scopes : List Scope) (chars : Text),
          (scopes.foldl (replaceWithAsterisk n.mask) chars).length = chars.length := by
        intro scopes
        induction scopes with
        | nil => exact fun chars => rfl
        | cons s scopes ih => exact fun chars => (ih _).trans (length_replaceWithAsterisk _ _ _)
      exact hlength _ text
    · rw [getElem?_masked, if_pos ((hcovered i).mpr hi), hmask]
    · rw [getElem?_masked, if_neg fun hc => hi ((hcovered i).mp hc)]
    · rw [decide_eq_true_eq, List.length_pos_iff_exists_mem]
      exact exists_congr hmem'

end Stringx
end ServiceKit
