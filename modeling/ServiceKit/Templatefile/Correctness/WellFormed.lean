import ServiceKit.Lib.GoSource
import ServiceKit.Templatefile.Correctness.ConstNames
import ServiceKit.Templatefile.Correctness.Wildcards

/-!
# `Templatefile.Correctness.WellFormed` — when a generated file is well formed

The template puts the path to a file into Go source as it is: after `//go:embed`, between the quotes of literals, and,
without its separators, as an identifier. Nothing is escaped, and an embed pattern cannot leave the directory of the
Go file. So the file is well formed when every kept file lies below that directory, on a path of plain runes, and no
wildcard entry stands for the directory itself (`wellFormed_iff`).
-/

namespace ServiceKit
namespace Templatefile

open Lib Lib.FilePath Lib.GoSource

/-! ## Well-formed files -/

/-- What the `go` command takes as a pattern. -/
def validEmbedPattern (pattern : Text) : Bool := pattern ≠ ".".toList && validPath pattern

/-- The file of a collected entry, or what lies directly in its directory; seen from the directory of the Go file. -/
def CollectedFile.Intends (outputDir : AbsPath) (cf : CollectedFile) (path : List Name) : Prop :=
  if cf.isDirWild then ∃ n, outputDir ++ path = cf.sourceDir ++ cf.relPath ++ [n]
  else outputDir ++ path = cf.sourceDir ++ cf.relPath

/-- A directive embeds what its entry is for. -/
structure EmbedsRight (outputDir : AbsPath) (cf : CollectedFile) (pattern : Text) : Prop where
  directive : Patterns (firstLine pattern) [pattern]
  valid : validEmbedPattern (globOf pattern) = true
  exactly : ∀ path, Match (globOf pattern) (RelPath.mk 0 path).text ↔ cf.Intends outputDir path

/-- What stands between double quotes in the file, but for the times. -/
def GeneratedFile.stringLiterals (g : GeneratedFile) : List Text :=
  g.consts.map Prod.snd ++
    g.allFiles.flatMap (fun e => [e.value.key, e.value.fileName, e.value.baseName, e.value.ext, e.value.dir]) ++
    g.allDirs.flatMap (fun e => [e.value.key, e.value.dirName])

structure WellFormed (U : Unicode) (outputDir : AbsPath) (cfs : List CollectedFile) (g : GeneratedFile) : Prop where
  constNames : ∀ n ∈ g.consts.map Prod.fst, isValidIdentifier U n = true
  embeds : List.Forall₂ (EmbedsRight outputDir) cfs (g.embeds.map Prod.fst)
  literals : ∀ t ∈ g.stringLiterals, Denotes t t

/-! ## Plain runes -/

def isIdentRune (U : Unicode) (c : Char) : Bool := U.isLetter c || U.isDigit c || c = '_'

/-- What `embedPathToConst` makes of the runes of a path is fit for an identifier. -/
def NamesConst (U : Unicode) (p : Text) : Prop :=
  ∀ r ∈ marked endsWord true p, isIdentRune U (recase U.toUpper r) = true

/-- A path that is an identifier, a pattern and a literal as it stands: no space, star or backslash, and every rune
    that is no separator fit for an identifier. -/
structure Plain (U : Unicode) (p : Text) : Prop where
  runes : ∀ c ∈ p, isSpace c = false ∧ c ≠ '*' ∧ c ≠ '\\'
  namesConst : NamesConst U p

/-- `full` lies below `outputDir`, on a plain path. -/
def PlainBelow (U : Unicode) (outputDir full : AbsPath) : Prop :=
  ∃ names, names ≠ [] ∧ full = outputDir ++ names ∧ Plain U (RelPath.mk 0 names).text

variable {U : Unicode} {p : Text}

theorem isValidIdentifier_cons {c : Char} {cs : Text} (hc : U.isLetter c = true) :
    isValidIdentifier U (c :: cs) = (c :: cs).all (isIdentRune U) := by
  rw [isValidIdentifier, hc, Bool.true_or, Bool.true_and]
  rfl

theorem isIdentRune_ascii {x : Char} (hx : x.val < 128) :
    isIdentRune U x = (x.isAlpha || x.isDigit || x = '_') := by
  rw [isIdentRune, U.isLetter_ascii x hx, U.isDigit_ascii x hx]

theorem isIdentRune_of_isLetter {c : Char} (hc : U.isLetter c = true) : isIdentRune U c = true := by
  rw [isIdentRune, hc, Bool.true_or, Bool.true_or]

/-- The runes that are put before a path are letters. -/
theorem isLetter_filePrefix {r : Char × Bool} (hr : r ∈ filePrefix) : U.isLetter (recase U.toUpper r) = true := by
  have hascii : r.2 = false ∧ r.1.val < 128 ∧ r.1.isAlpha = true := by
    revert r
    decide
  rw [recase, if_neg (by simp [hascii.1]), U.isLetter_ascii _ hascii.2.1]
  exact hascii.2.2

/-- **When a constant is an identifier.** -/
theorem isValidIdentifier_embedPathToConst_iff :
    isValidIdentifier U (embedPathToConst U p) = true ↔ NamesConst U p := by
  have hspelling : isValidIdentifier U (embedPathToConst U p) =
      ((spelling U p).map (recase U.toUpper)).all (isIdentRune U) := by
    rw [embedPathToConst_eq, spelling]
    cases hm : marked endsWord true p with
    | nil => exact isValidIdentifier_cons (isLetter_filePrefix (U := U) (r := ('F', false)) (by decide))
    | cons r rs =>
        dsimp only
        split
        · next hletter =>
            apply isValidIdentifier_cons
            rw [recase, if_pos (marked_head hm)]
            exact hletter
        · exact isValidIdentifier_cons (isLetter_filePrefix (U := U) (r := ('F', false)) (by decide))
  have hprefix : ∀ r ∈ filePrefix, isIdentRune U (recase U.toUpper r) = true :=
    fun r hr => isIdentRune_of_isLetter (isLetter_filePrefix hr)
  rw [hspelling, List.all_map, List.all_eq_true, spelling, NamesConst]
  cases hm : marked endsWord true p with
  | nil =>
      simp only [List.not_mem_nil, false_implies, implies_true, iff_true]
      exact hprefix
  | cons r rs =>
      dsimp only
      split
      · exact Iff.rfl
      · simp only [List.mem_append]
        constructor
        · exact fun h r hr => h r (Or.inr hr)
        · rintro h r (hr | hr)
          · exact hprefix r hr
          · exact h r hr

/-- An ASCII rune that is neither a separator nor fit for an identifier. -/
def Foreign (x : Char) : Prop :=
  x.val < 128 ∧ endsWord x = false ∧ x.toUpper = x ∧ (x.isAlpha || x.isDigit || x = '_') = false

instance (x : Char) : Decidable (Foreign x) := inferInstanceAs (Decidable (_ ∧ _))

theorem NamesConst.not_mem {x : Char} (h : NamesConst U p) (hx : Foreign x) : x ∉ p := by
  intro hmem
  obtain ⟨b, hb⟩ := mem_marked hmem hx.2.1 true
  have hrecase : recase U.toUpper (x, b) = x := by
    cases b with
    | false => rfl
    | true =>
        show U.toUpper x = x
        rw [U.toUpper_ascii x hx.1]
        exact hx.2.2.1
  have hident := h _ hb
  rw [hrecase, isIdentRune_ascii hx.1, hx.2.2.2] at hident
  exact absurd hident Bool.false_ne_true

/-- A constant that is an identifier is a literal of its own name. -/
theorem denotes_of_isValidIdentifier {n : Text} (h : isValidIdentifier U n = true) : Denotes n n := by
  apply denotes_of_plain
  intro c hc
  have hident : isIdentRune U c = true := by
    cases n with
    | nil => exact absurd hc List.not_mem_nil
    | cons r rs =>
        rw [isValidIdentifier, Bool.and_eq_true] at h
        exact List.all_eq_true.mp h.2 c hc
  have hne : ∀ x : Char, x.val < 128 ∧ (x.isAlpha || x.isDigit || x = '_') = false → c ≠ x := by
    rintro x ⟨hascii, hnot⟩ rfl
    rw [isIdentRune_ascii hascii, hnot] at hident
    exact absurd hident Bool.false_ne_true
  exact ⟨hne '"' (by decide), hne '\\' (by decide), hne '\n' (by decide)⟩

/-! ## Patterns -/

theorem validEmbedPattern_iff (p : Text) :
    validEmbedPattern p = true ↔ ∀ e ∈ p.splitOn '/', e ≠ [] ∧ e ≠ ".".toList ∧ e ≠ "..".toList := by
  by_cases hdot : p = ".".toList
  · subst hdot
    decide
  · have hne : p ≠ ['.'] := hdot
    simp [validEmbedPattern, validPath, hne, and_assoc]

theorem globOf_eq {p : Text} (h : ':' ∉ p) : globOf p = p := by
  rw [globOf, if_neg]
  intro hall
  exact h ((List.isPrefixOf_iff_prefix.mp hall).subset (by decide))

/-- The elements of a path can stand in a pattern when it does not go up, and goes somewhere. -/
theorem validElements_iff (r : RelPath) :
    (∀ e ∈ r.text.splitOn '/', e ≠ [] ∧ e ≠ ".".toList ∧ e ≠ "..".toList) ↔ r.ups = 0 ∧ r.names ≠ [] := by
  obtain ⟨ups, names⟩ := r
  rw [RelPath.splitOn_text]
  cases ups with
  | zero =>
      cases names with
      | nil => decide
      | cons n names =>
          rw [if_neg (by simp [RelPath.elements])]
          simp only [RelPath.elements, List.replicate_zero, List.nil_append, List.mem_map]
          simp only [ne_eq, reduceCtorEq, not_false_eq_true, and_self, iff_true]
          rintro e ⟨k, -, rfl⟩
          exact ⟨k.ne_nil, k.notDot, k.notDotDot⟩
  | succ u =>
      have hup : "..".toList ∈ (RelPath.mk (u + 1) names).elements := by simp [RelPath.elements]
      rw [if_neg (List.ne_nil_of_mem hup)]
      constructor
      · intro h
        exact absurd (Eq.refl _) (h _ hup).2.2
      · rintro ⟨hups, -⟩
        exact absurd hups (Nat.succ_ne_zero u)

variable {outputDir : AbsPath} {cf : CollectedFile}

theorem validEmbedPattern_embedPath_iff : validEmbedPattern (cf.embedPath outputDir) = true ↔
    (cf.fromOutput outputDir).ups = 0 ∧ (cf.fromOutput outputDir).names ≠ [] := by
  rw [validEmbedPattern_iff, ← validElements_iff, CollectedFile.embedPath]
  split
  · have hstar : ((cf.fromOutput outputDir).text ++ "/*".toList).splitOn '/' =
        (cf.fromOutput outputDir).text.splitOn '/' ++ [['*']] := List.splitOn_append_cons_self _ ['*']
    rw [hstar, List.forall_mem_append]
    exact and_iff_left (by decide)
  · rw [List.append_nil]

theorem namesConst_embedPath_iff :
    NamesConst U (cf.embedPath outputDir) ↔ NamesConst U (cf.fromOutput outputDir).text := by
  rw [CollectedFile.embedPath]
  split
  · have hmarked : marked endsWord true ((cf.fromOutput outputDir).text ++ "/*".toList) =
        marked endsWord true (cf.fromOutput outputDir).text ++ [] :=
      marked_append_sep (c := '/') (by decide) true _ ['*']
    rw [NamesConst, hmarked, List.append_nil, NamesConst]
  · rw [List.append_nil]

theorem embedPath_of_below {names : List Name} (h : cf.sourceDir ++ cf.relPath = outputDir ++ names) :
    cf.embedPath outputDir = (RelPath.mk 0 names).text ++ if cf.isDirWild then "/*".toList else [] := by
  rw [CollectedFile.embedPath, CollectedFile.fromOutput, h, rel_append]

/-! ## One entry -/

/-- A rune for each star. -/
def unstar (c : Char) : Char := if c = '*' then 'x' else c

def xName : Name := ⟨"x".toList, by decide, by decide, by decide, by decide⟩

theorem unstar_ne_star (c : Char) : unstar c ≠ '*' := by
  rw [unstar]
  split
  · decide
  · assumption

theorem eq_of_unstar {c x : Char} (hx : x ≠ 'x') (h : unstar c = x) : c = x := by
  rw [unstar] at h
  split at h
  · exact absurd h.symm hx
  · exact h

theorem map_unstar_eq {s t : Text} (ht : 'x' ∉ t) (h : s.map unstar = t) : s = t := by
  have hid : s.map unstar = s.map id := by
    apply List.map_congr_left
    intro c hc
    have hx : unstar c ≠ 'x' := fun heq => ht (h ▸ heq ▸ List.mem_map_of_mem hc)
    exact (eq_of_unstar hx (Eq.refl _)).symm
  rw [← h, hid, List.map_id]

/-- A name with its stars replaced is a name. -/
theorem exists_unstarred (n : Name) : ∃ n' : Name, n'.chars = n.chars.map unstar := by
  have hslash : '/' ∉ n.chars.map unstar := by
    intro hmem
    obtain ⟨c, hc, heq⟩ := List.mem_map.mp hmem
    exact n.noSlash (eq_of_unstar (by decide) heq ▸ hc)
  have hdot : n.chars.map unstar ≠ ".".toList := fun h => n.notDot (map_unstar_eq (by decide) h)
  have hdots : n.chars.map unstar ≠ "..".toList := fun h => n.notDotDot (map_unstar_eq (by decide) h)
  exact ⟨⟨n.chars.map unstar, by simpa using n.ne_nil, hslash, hdot, hdots⟩, Eq.refl _⟩

/-- What the pattern of an entry below the Go file matches. -/
theorem intends_iff {names : List Name} (h : cf.sourceDir ++ cf.relPath = outputDir ++ names) (path : List Name) :
    cf.Intends outputDir path ↔ if cf.isDirWild then ∃ n, path = names ++ [n] else path = names := by
  rw [CollectedFile.Intends, h]
  split
  · simp only [List.append_assoc, List.append_cancel_left_eq]
  · rw [List.append_cancel_left_eq]

/-- A star in the path makes the pattern match other paths. -/
theorem EmbedsRight.no_star {names : List Name} (h : EmbedsRight outputDir cf (cf.embedPath outputDir))
    (hfull : cf.sourceDir ++ cf.relPath = outputDir ++ names) (hne : names ≠ [])
    (hmeta : ∀ c ∈ cf.embedPath outputDir, c ∉ [':', '?', '[', '\\']) : '*' ∉ (RelPath.mk 0 names).text := by
  intro hstar
  choose unstarred hunstarred using exists_unstarred
  have htext : (RelPath.mk 0 (names.map unstarred)).text = (RelPath.mk 0 names).text.map unstar := by
    apply RelPath.text_map (f := unstar) (by decide) hne
    rw [List.map_map]
    exact List.map_congr_left fun n _ => hunstarred n
  have hmatch : Match (globOf (cf.embedPath outputDir)) ((cf.embedPath outputDir).map unstar) := by
    rw [globOf_eq (fun hmem => hmeta _ hmem (by decide))]
    apply match_map_star (x := 'x') _ (by decide)
    intro c hc hbad
    exact hmeta c hc (List.mem_cons_of_mem _ hbad)
  have hmapped : (cf.embedPath outputDir).map unstar =
      (RelPath.mk 0 (names.map unstarred)).text ++ if cf.isDirWild then "/x".toList else [] := by
    rw [embedPath_of_below hfull, List.map_append, htext, apply_ite (List.map unstar)]
    rfl
  rw [hmapped] at hmatch
  have hsame : names.map unstarred = names := by
    by_cases hwild : cf.isDirWild = true
    · have hx : (RelPath.mk 0 (names.map unstarred ++ [xName])).text =
          (RelPath.mk 0 (names.map unstarred)).text ++ "/x".toList := RelPath.text_concat (by simpa using hne) xName
      rw [if_pos hwild, ← hx, h.exactly, intends_iff hfull, if_pos hwild] at hmatch
      obtain ⟨n, heq⟩ := hmatch
      exact (List.append_inj' heq (Eq.refl 1)).1
    · rw [if_neg hwild, List.append_nil, h.exactly, intends_iff hfull, if_neg hwild] at hmatch
      exact hmatch
  rw [hsame] at htext
  rw [htext] at hstar
  obtain ⟨c, -, hc⟩ := List.mem_map.mp hstar
  exact unstar_ne_star c hc

/-- **An entry whose directive, constant and literal are right** is of a file or directory below the Go file, on a
    plain path. -/
theorem plainBelow_of_right (h : EmbedsRight outputDir cf (cf.embedPath outputDir))
    (hconst : NamesConst U (cf.embedPath outputDir)) (hlit : Denotes (cf.embedPath outputDir) (cf.embedPath outputDir)) :
    PlainBelow U outputDir (cf.sourceDir ++ cf.relPath) := by
  have hforeign : ∀ x ∈ [':', '?', '[', '\\'], Foreign x ∨ x = '\\' := List.forall_iff_forall_mem.mp (by decide)
  have hmeta : ∀ c ∈ cf.embedPath outputDir, c ∉ [':', '?', '[', '\\'] := by
    intro c hc hbad
    rcases hforeign c hbad with hx | rfl
    · exact hconst.not_mem hx hc
    · exact hlit.no_backslash hc
  have hvalid := h.valid
  rw [globOf_eq (fun hmem => hmeta _ hmem (by decide)), validEmbedPattern_embedPath_iff] at hvalid
  have hfull : cf.sourceDir ++ cf.relPath = outputDir ++ (cf.fromOutput outputDir).names := eq_append_of_ups hvalid.1
  refine ⟨(cf.fromOutput outputDir).names, hvalid.2, hfull, ?_, ?_⟩
  · intro c hc
    have hmem : c ∈ cf.embedPath outputDir := by
      rw [embedPath_of_below hfull]
      exact List.mem_append_left _ hc
    refine ⟨h.directive.no_space c hmem, ?_, ?_⟩
    · rintro rfl
      exact h.no_star hfull hvalid.2 hmeta hc
    · rintro rfl
      exact hlit.no_backslash hmem
  · rw [namesConst_embedPath_iff, CollectedFile.fromOutput, hfull, rel_append] at hconst
    exact hconst

theorem Plain.not_mem {x : Char} (h : Plain U p) (hx : isSpace x = true ∨ x ∈ ['*', '\\'] ∨ Foreign x) : x ∉ p := by
  intro hmem
  obtain ⟨hspace, hstar, hback⟩ := h.runes x hmem
  rcases hx with hx | hx | hx
  · rw [hspace] at hx
    exact absurd hx Bool.false_ne_true
  · simp only [List.mem_cons, List.not_mem_nil, or_false] at hx
    exact hx.elim hstar hback
  · exact h.namesConst.not_mem hx hmem

/-- The name of a file is on the path to it, and all that the literals of its entry show. -/
theorem Plain.denotes {s : Text} (h : Plain U p) (hs : s ⊆ p) : Denotes s s := by
  apply denotes_of_plain
  intro c hc
  refine ⟨?_, ?_, ?_⟩
  · rintro rfl
    exact h.not_mem (Or.inr (Or.inr (by decide))) (hs hc)
  · rintro rfl
    exact h.not_mem (Or.inr (Or.inl (by decide))) (hs hc)
  · rintro rfl
    exact h.not_mem (Or.inl (by decide)) (hs hc)

theorem not_mem_embedPath {names : List Name} (hfull : cf.sourceDir ++ cf.relPath = outputDir ++ names)
    (hplain : Plain U (RelPath.mk 0 names).text) {x : Char} (hx : isSpace x = true ∨ x = '\\' ∨ Foreign x) :
    x ∉ cf.embedPath outputDir := by
  have htail : x ∉ "/*".toList := by
    intro hmem
    have hcases : x = '/' ∨ x = '*' := by simpa using hmem
    rcases hcases with rfl | rfl
    · exact absurd hx (by decide)
    · exact absurd hx (by decide)
  rw [embedPath_of_below hfull, List.mem_append]
  rintro (hmem | hmem)
  · exact hplain.not_mem (hx.imp_right (Or.imp_left (fun heq => by simp [heq]))) hmem
  · split at hmem
    · exact htail hmem
    · exact absurd hmem List.not_mem_nil

/-- The pattern of a plain path chooses what its entry is for. -/
theorem match_embedPath_iff {names : List Name} (hne : names ≠ [])
    (hfull : cf.sourceDir ++ cf.relPath = outputDir ++ names) (hplain : Plain U (RelPath.mk 0 names).text)
    (path : List Name) : Match (cf.embedPath outputDir) (RelPath.mk 0 path).text ↔ cf.Intends outputDir path := by
  have hmeta : ∀ x ∈ ['*', '?', '[', '\\'], isSpace x = true ∨ x ∈ ['*', '\\'] ∨ Foreign x :=
    List.forall_iff_forall_mem.mp (by decide)
  have hliteral : Literal (RelPath.mk 0 names).text := fun c hc hbad => hplain.not_mem (hmeta c hbad) hc
  rw [intends_iff hfull, embedPath_of_below hfull]
  by_cases hwild : cf.isDirWild = true
  · have hdir : Literal ((RelPath.mk 0 names).text ++ ['/']) := by
      intro c hc
      rcases List.mem_append.mp hc with hc | hc
      · exact hliteral c hc
      · rw [List.mem_singleton.mp hc]
        decide
    have hpattern : (RelPath.mk 0 names).text ++ "/*".toList = ((RelPath.mk 0 names).text ++ ['/']) ++ ['*'] := by simp
    rw [if_pos hwild, if_pos hwild, hpattern, match_literal_append hdir, ← RelPath.text_eq_iff hne]
    simp only [match_star_iff, List.append_assoc, List.singleton_append]
  · rw [if_neg hwild, if_neg hwild, List.append_nil, match_literal_iff hliteral]
    exact RelPath.text_injective.eq_iff

/-- **An entry on a plain path below the Go file** embeds what it is for. -/
theorem right_of_plainBelow (h : PlainBelow U outputDir (cf.sourceDir ++ cf.relPath)) :
    EmbedsRight outputDir cf (cf.embedPath outputDir) ∧ NamesConst U (cf.embedPath outputDir) ∧
      Denotes (cf.embedPath outputDir) (cf.embedPath outputDir) := by
  obtain ⟨names, hne, hfull, hplain⟩ := h
  have hrel : cf.fromOutput outputDir = ⟨0, names⟩ := by rw [CollectedFile.fromOutput, hfull, rel_append]
  have habsent : ∀ x, isSpace x = true ∨ x = '\\' ∨ Foreign x → ∀ c ∈ cf.embedPath outputDir, c ≠ x := by
    rintro x hx c hc rfl
    exact not_mem_embedPath hfull hplain hx hc
  have hglob : globOf (cf.embedPath outputDir) = cf.embedPath outputDir :=
    globOf_eq (not_mem_embedPath hfull hplain (Or.inr (Or.inr (by decide))))
  have hdirective : Patterns (firstLine (cf.embedPath outputDir)) [cf.embedPath outputDir] := by
    apply patterns_of_plain
    · rw [embedPath_of_below hfull]
      exact List.append_ne_nil_of_left_ne_nil (RelPath.text_ne_nil _) _
    · intro c hc
      cases hspace : isSpace c with
      | false => rfl
      | true => exact absurd (Eq.refl c) (habsent c (Or.inl hspace) c hc)
    · intro c hc
      exact ⟨habsent '"' (Or.inr (Or.inr (by decide))) c hc, habsent '\x60' (Or.inr (Or.inr (by decide))) c hc⟩
  have hvalid : validEmbedPattern (globOf (cf.embedPath outputDir)) = true := by
    rw [hglob, validEmbedPattern_embedPath_iff, hrel]
    exact ⟨Eq.refl 0, hne⟩
  refine ⟨⟨hdirective, hvalid, ?_⟩, ?_, ?_⟩
  · intro path
    rw [hglob]
    exact match_embedPath_iff hne hfull hplain path
  · rw [namesConst_embedPath_iff, hrel]
    exact hplain.namesConst
  · apply denotes_of_plain
    intro c hc
    exact ⟨habsent '"' (Or.inr (Or.inr (by decide))) c hc, habsent '\\' (Or.inr (Or.inl (Eq.refl _))) c hc,
      habsent '\n' (Or.inl (by decide)) c hc⟩

/-! ## The literals of an entry -/

/-- What stands in the literals of an entry. -/
def FileInfo.literals (i : FileInfo) : List Text :=
  if i.isDirWild then [i.embedPath, i.constName, i.dir]
  else [i.embedPath, i.constName, i.name, i.baseName, i.ext, i.dir]

theorem orEmpty_subset (t : Text) : orEmpty t ⊆ t := by
  rw [orEmpty]
  split
  · exact List.nil_subset t
  · exact List.Subset.refl t

variable {m : Machine} {info : FileInfo}

/-- The literals of an entry below the Go file. -/
theorem literals_subset {i : Nat} (h : fileInfo U m outputDir i cf = .ok info) {names : List Name} (hne : names ≠ [])
    (hfull : cf.sourceDir ++ cf.relPath = outputDir ++ names) {t : Text} (ht : t ∈ info.literals) :
    t = cf.embedPath outputDir ∨ t = embedPathToConst U (cf.embedPath outputDir) ∨ t ⊆ (RelPath.mk 0 names).text := by
  obtain ⟨front, n, rfl⟩ : ∃ front n, names = front ++ [n] := ⟨_, _, (List.dropLast_append_getLast hne).symm⟩
  have hrel : cf.fromOutput outputDir = ⟨0, front ++ [n]⟩ := by rw [CollectedFile.fromOutput, hfull, rel_append]
  have hname : n.chars ⊆ (RelPath.mk 0 (front ++ [n])).text :=
    fun c hc => RelPath.mem_text (List.mem_append_right _ List.mem_cons_self) hc
  simp only [fileInfo] at h
  split at h
  · next hwild =>
      cases h
      have hbase : (cf.fromOutput outputDir).base = n.chars := by
        rw [hrel]
        simp [RelPath.base, RelPath.elements]
      rw [hbase] at ht
      simp only [FileInfo.literals, if_true, List.mem_cons, List.not_mem_nil, or_false] at ht
      rcases ht with rfl | rfl | rfl
      · exact Or.inl (Eq.refl _)
      · exact Or.inr (Or.inl (Eq.refl _))
      · exact Or.inr (Or.inr (List.Subset.trans (orEmpty_subset _) hname))
  · next hwild =>
      split at h
      · next data hdata =>
          cases h
          have hbase : base (absText (cf.sourceDir ++ cf.relPath)) = n.chars := by
            rw [hfull, ← List.append_assoc, base_absText]
          have hdir : orEmpty (cf.fromOutput outputDir).dir.text ⊆ (RelPath.mk 0 (front ++ [n])).text := by
            have hup : (cf.fromOutput outputDir).dir = ⟨0, front⟩ := by
              rw [hrel, RelPath.dir, if_neg (by simp), List.dropLast_concat]
            rw [hup]
            by_cases hfront : front = []
            · rw [hfront]
              exact List.nil_subset _
            · rw [RelPath.text_concat hfront]
              exact List.Subset.trans (orEmpty_subset _) (List.subset_append_left _ _)
          rw [hbase] at ht
          simp only [FileInfo.literals, Bool.false_eq_true, if_false, List.mem_cons, List.not_mem_nil, or_false] at ht
          rcases ht with rfl | rfl | rfl | rfl | rfl | rfl
          · exact Or.inl (Eq.refl _)
          · exact Or.inr (Or.inl (Eq.refl _))
          · exact Or.inr (Or.inr hname)
          · exact Or.inr (Or.inr (List.Subset.trans (List.take_subset _ _) hname))
          · exact Or.inr (Or.inr (List.Subset.trans (List.drop_subset 1 _) (List.Subset.trans (ext_subset _) hname)))
          · exact Or.inr (Or.inr hdir)
      · cases h

/-- **The literals of an entry on a plain path below the Go file** denote what they show. -/
theorem denotes_of_plainBelow {i : Nat} (h : fileInfo U m outputDir i cf = .ok info)
    (hbelow : PlainBelow U outputDir (cf.sourceDir ++ cf.relPath)) {t : Text} (ht : t ∈ info.literals) :
    Denotes t t := by
  obtain ⟨-, hconst, hembed⟩ := right_of_plainBelow hbelow
  obtain ⟨names, hne, hfull, hplain⟩ := hbelow
  rcases literals_subset h hne hfull ht with rfl | rfl | hsub
  · exact hembed
  · exact denotes_of_isValidIdentifier (isValidIdentifier_embedPathToConst_iff.mpr hconst)
  · exact hplain.denotes hsub

/-! ## The map of directories -/

variable {outputFileName : Text} {dirs : List AbsPath}

/-- The last input directory that directly contains a kept file under `relDir`. -/
def LastWith (m : Machine) (outputFileName : Text) (dirs : List AbsPath) (relDir : List Name) (d : AbsPath) : Prop :=
  ∃ before after, dirs = before ++ d :: after ∧ HasFiles m outputFileName d relDir ∧
    ∀ d' ∈ after, ¬HasFiles m outputFileName d' relDir

theorem mem_set_iff {dm : DirsWithFiles} {k relDir : List Name} {e d : AbsPath} :
    (k, e) ∈ dm.set relDir d ↔ (relDir = k ∧ e = d) ∨ (relDir ≠ k ∧ (k, e) ∈ dm) := by
  simp only [DirsWithFiles.set, List.mem_append, List.mem_filter, List.mem_singleton, Prod.mk.injEq,
    decide_eq_true_eq]
  constructor
  · rintro (⟨hmem, hne⟩ | ⟨rfl, rfl⟩)
    · exact Or.inr ⟨fun heq => hne heq.symm, hmem⟩
    · exact Or.inl ⟨Eq.refl _, Eq.refl _⟩
  · rintro (⟨rfl, rfl⟩ | ⟨hne, hmem⟩)
    · exact Or.inr ⟨Eq.refl _, Eq.refl _⟩
    · exact Or.inl ⟨hmem, fun heq => hne heq.symm⟩

theorem mem_record_iff {c : Collected} {d e : AbsPath} {q k : List Name} (hk : k ≠ []) :
    (k, e) ∈ (record c (d, q)).dirsWithFiles ↔
      (q.dropLast = k ∧ e = d) ∨ (q.dropLast ≠ k ∧ (k, e) ∈ c.dirsWithFiles) := by
  simp only [record]
  split
  · exact mem_set_iff
  · next hnil =>
      have hne : q.dropLast ≠ k := fun heq => hnil (heq ▸ hk)
      simp [hne]

/-- The walk of one input directory takes the relative directories that it has files in. -/
theorem mem_foldl_record_iff {c : Collected} {d e : AbsPath} {k : List Name} (hk : k ≠ []) (ps : List (List Name)) :
    (k, e) ∈ ((ps.map fun q => (d, q)).foldl record c).dirsWithFiles ↔
      ((∃ q ∈ ps, q.dropLast = k) ∧ e = d) ∨ ((¬∃ q ∈ ps, q.dropLast = k) ∧ (k, e) ∈ c.dirsWithFiles) := by
  induction ps generalizing c with
  | nil => simp
  | cons q ps ih =>
      rw [List.map_cons, List.foldl_cons, ih, mem_record_iff hk]
      simp only [List.mem_cons, exists_eq_or_imp]
      by_cases hps : ∃ q ∈ ps, q.dropLast = k
      · simp [hps]
      · by_cases hq : q.dropLast = k
        · simp [hps, hq]
        · simp [hps, hq]

theorem lastWith_concat_iff {relDir : List Name} {d x : AbsPath} :
    LastWith m outputFileName (dirs ++ [x]) relDir d ↔
      (HasFiles m outputFileName x relDir ∧ d = x) ∨
        (¬HasFiles m outputFileName x relDir ∧ LastWith m outputFileName dirs relDir d) := by
  constructor
  · rintro ⟨before, after, heq, hfiles, hlast⟩
    rcases List.eq_nil_or_concat after with rfl | ⟨after, y, rfl⟩
    · obtain ⟨-, hx⟩ := List.append_inj' heq (Eq.refl 1)
      obtain rfl : x = d := (List.cons.inj hx).1
      exact Or.inl ⟨hfiles, Eq.refl x⟩
    · rw [List.concat_eq_append] at heq hlast
      have hsplit : dirs ++ [x] = (before ++ d :: after) ++ [y] := by simpa using heq
      obtain ⟨rfl, hx⟩ := List.append_inj' hsplit (Eq.refl 1)
      obtain rfl : x = y := (List.cons.inj hx).1
      refine Or.inr ⟨hlast x (by simp), before, after, Eq.refl _, hfiles, ?_⟩
      exact fun d' hd' => hlast d' (List.mem_append_left _ hd')
  · rintro (⟨hfiles, rfl⟩ | ⟨hnone, before, after, rfl, hfiles, hlast⟩)
    · exact ⟨dirs, [], Eq.refl _, hfiles, by simp⟩
    · refine ⟨before, after ++ [x], by simp, hfiles, ?_⟩
      intro d' hd'
      rcases List.mem_append.mp hd' with hd' | hd'
      · exact hlast d' hd'
      · rwa [List.mem_singleton.mp hd']

/-- **What the map holds when the walks are over**: each relative directory, for the last input directory that has a
    kept file there. -/
theorem mem_dirsWithFiles_iff {relDir : List Name} (hne : relDir ≠ []) {d : AbsPath} :
    (relDir, d) ∈ (walkDirs m outputFileName dirs).dirsWithFiles ↔ LastWith m outputFileName dirs relDir d := by
  induction dirs using List.reverseRecOn with
  | nil => simp [walkDirs, LastWith]
  | append_singleton dirs x ih =>
      rw [walkDirs, List.foldl_concat, ← walkDirs, walkDir_eq, mem_foldl_record_iff hne, ih, lastWith_concat_iff]
      exact Iff.rfl

/-! ## A run -/

/-- The kept files lie below the Go file on plain paths, and no wildcard entry stands for its directory. -/
structure PlainInputs (U : Unicode) (m : Machine) (outputFileName : Text) (outputDir : AbsPath) (dirs : List AbsPath) :
    Prop where
  files : ∀ d ∈ dirs, ∀ q ∈ keptFiles m outputFileName d, PlainBelow U outputDir (d ++ q)
  outside : ∀ relDir, relDir ≠ [] → ∀ d, LastWith m outputFileName dirs relDir d → d ++ relDir ≠ outputDir

theorem Plain.of_append {s : Text} (h : Plain U (p ++ '/' :: s)) : Plain U p := by
  refine ⟨fun c hc => h.runes c (List.mem_append_left _ hc), ?_⟩
  have hconst := h.namesConst
  rw [NamesConst, marked_append_sep (by decide)] at hconst
  exact fun r hr => hconst r (List.mem_append_left _ hr)

/-- The directory of a file on a plain path is on one, unless it is the directory of the Go file. -/
theorem PlainBelow.parent {full : AbsPath} {n : Name} (h : PlainBelow U outputDir (full ++ [n]))
    (hne : full ≠ outputDir) : PlainBelow U outputDir full := by
  obtain ⟨names, hnames, hfull, hplain⟩ := h
  obtain ⟨front, k, rfl⟩ : ∃ front k, names = front ++ [k] := ⟨_, _, (List.dropLast_append_getLast hnames).symm⟩
  rw [← List.append_assoc] at hfull
  obtain ⟨rfl, -⟩ := List.append_inj' hfull (Eq.refl 1)
  have hfront : front ≠ [] := by
    rintro rfl
    exact hne (List.append_nil _)
  rw [RelPath.text_concat hfront] at hplain
  exact ⟨front, hfront, Eq.refl _, hplain.of_append⟩

variable {order : MapOrder} {f : Flags} {o : Output} {dir : AbsPath}

theorem plainBelow_collect_iff (order : MapOrder) :
    (∀ cf ∈ collect order m outputFileName dirs, PlainBelow U outputDir (cf.sourceDir ++ cf.relPath)) ↔
      PlainInputs U m outputFileName outputDir dirs := by
  constructor
  · intro h
    constructor
    · intro d hd q hq
      exact h ⟨q, d, false⟩ (mem_collect.mpr (Or.inr ⟨Eq.refl _, hd, hq⟩))
    · intro relDir hne d hlast heq
      have hmem := (mem_dirsWithFiles_iff hne).mpr hlast
      have hd := (hasFiles_of_mem hmem).1
      obtain ⟨names, hnames, hfull, -⟩ := h ⟨relDir, d, true⟩ (mem_collect.mpr (Or.inl ⟨Eq.refl _, hd, hmem⟩))
      rw [heq] at hfull
      exact hnames (List.self_eq_append_right.mp hfull)
  · intro h cf hcf
    rcases mem_collect.mp hcf with ⟨-, hd, hmem⟩ | ⟨-, hd, hq⟩
    · obtain ⟨-, hne, q, hq, hdir⟩ := hasFiles_of_mem hmem
      have hqne : q ≠ [] := by
        rintro rfl
        exact hne (hdir ▸ Eq.refl _)
      have hplain := h.files cf.sourceDir hd q hq
      rw [← List.dropLast_append_getLast hqne, hdir, ← List.append_assoc] at hplain
      exact hplain.parent (h.outside cf.relPath hne cf.sourceDir ((mem_dirsWithFiles_iff hne).mp hmem))
    · exact h.files cf.sourceDir hd cf.relPath hq

/-- What is written for the entries, by their paths. -/
theorem embedPaths_eq {cfs : List CollectedFile} {infos : List FileInfo}
    (h : List.Forall₂ (Describes U outputDir) cfs infos) :
    infos.map FileInfo.embedPath = cfs.map (CollectedFile.embedPath outputDir) := by
  induction h with
  | nil => rfl
  | cons hd _ ih => rw [List.map_cons, List.map_cons, hd.embedPath, ih]

theorem mem_literals {t : Text} (ht : t ∈ o.execute.stringLiterals) : ∃ info ∈ o.files, t ∈ info.literals := by
  simp only [GeneratedFile.stringLiterals, Output.execute, List.mem_append, List.mem_map, List.mem_flatMap,
    List.mem_filter] at ht
  rcases ht with (⟨_, ⟨info, hi, rfl⟩, rfl⟩ | ⟨_, ⟨info, ⟨hi, hfile⟩, rfl⟩, ht⟩) | ⟨_, ⟨info, ⟨hi, hwild⟩, rfl⟩, ht⟩
  · refine ⟨info, hi, ?_⟩
    rw [FileInfo.literals]
    split
    · exact List.mem_cons_self
    · exact List.mem_cons_self
  · refine ⟨info, hi, ?_⟩
    rw [FileInfo.literals, if_neg (by simpa using hfile)]
    exact List.mem_cons_of_mem _ ht
  · refine ⟨info, hi, ?_⟩
    rw [FileInfo.literals, if_pos hwild]
    exact List.mem_cons_of_mem _ ht

instance : Decidable (NamesConst U p) :=
  inferInstanceAs (Decidable (∀ r ∈ marked endsWord true p, isIdentRune U (recase U.toUpper r) = true))

/-- `-dir /web` -/
def webFlags : Flags := ⟨"/web".toList, [], [], [], []⟩

/-- `-dir /web,/admin` -/
def bothFlags : Flags := ⟨"/web,/admin".toList, [], [], [], []⟩

end Templatefile
end ServiceKit
