import ServiceKit.Lib.GoSource
import ServiceKit.Templatefile.Correctness.Entries

/-!
# `Templatefile.Correctness.ConstNames` — when the constants of a generated file clash

`embedPathToConst` leaves the separators of a path out and makes each rune after one upper case. So it forgets which
separator stood where, and where an upper case rune was one already. `spelling` is what it keeps; two paths have
one name when their spellings agree rune by rune (`embedPathToConst_eq_iff`), and a generated file declares a name
twice when two of its paths do, or one path and a name of the template. The template writes a path between quotes as it
is, so two keys of a map are one string where their paths are, once Go has read the escapes in them
(`noDuplicates_iff`).
-/

namespace ServiceKit
namespace Templatefile

open Lib Lib.FilePath Lib.GoSource

variable {U : Unicode}

/-! ## Spellings -/

/-- What ends a word of a path. -/
def endsWord (c : Char) : Bool := isSeparator c || isSpace c

/-- The runes of `File`, none of them at a place where the case is left open. -/
def filePrefix : List (Char × Bool) := [('F', false), ('i', false), ('l', false), ('e', false)]

/-- The runes of a path that end no word, each with whether it begins one; with `File` before them where the path
    does not begin with a letter. -/
def spelling (U : Unicode) (p : Text) : List (Char × Bool) :=
  match marked endsWord true p with
  | [] => filePrefix
  | r :: rs => if U.isLetter (U.toUpper r.1) then r :: rs else filePrefix ++ r :: rs

/-- Two paths with the same runes, up to separators and to the case of the runes that begin a word. -/
def SpelledAlike (U : Unicode) (p q : Text) : Prop := List.Forall₂ (Agree U.toUpper) (spelling U p) (spelling U q)

instance (p q : Text) : Decidable (SpelledAlike U p q) :=
  inferInstanceAs (Decidable (List.Forall₂ (Agree U.toUpper) (spelling U p) (spelling U q)))

theorem isSpace_normalize (c : Char) : isSpace (normalize c) = endsWord c := by
  rw [normalize, endsWord]
  cases hc : isSeparator c with
  | true =>
      show true = (true || isSpace c)
      rw [Bool.true_or]
  | false =>
      show isSpace c = (false || isSpace c)
      rw [Bool.false_or]

theorem normalize_of_not_endsWord {c : Char} (h : endsWord c = false) : normalize c = c := by
  rw [endsWord, Bool.or_eq_false_iff] at h
  rw [normalize, h.1]
  simp

/-- The words of a path, capitalized and joined. -/
theorem words_joined (p : Text) :
    ((fields (p.map normalize)).map (capitalize U)).flatten = (marked endsWord true p).map (recase U.toUpper) := by
  have h := @fieldsFunc_flatMap isSpace (capitalize U) U.toUpper (fun _ _ => rfl) (p.map normalize)
  rw [marked_map isSpace_normalize (fun c hc => normalize_of_not_endsWord hc)] at h
  rw [← List.flatMap_def]
  exact h

theorem marked_head {sep : Char → Bool} {s : Text} {r : Char × Bool} {rs : List (Char × Bool)}
    (h : marked sep true s = r :: rs) : r.2 = true := by
  induction s with
  | nil => exact absurd h nofun
  | cons c cs ih =>
      rw [marked] at h
      split at h
      · exact ih h
      · rw [← (List.cons.inj h).1]

theorem map_recase_filePrefix : filePrefix.map (recase U.toUpper) = "File".toList := rfl

/-- **What a constant is called.** -/
theorem embedPathToConst_eq (p : Text) : embedPathToConst U p = (spelling U p).map (recase U.toUpper) := by
  rw [embedPathToConst, words_joined, spelling]
  cases h : marked endsWord true p with
  | nil => exact map_recase_filePrefix.symm
  | cons r rs =>
      have hr : recase U.toUpper r = U.toUpper r.1 := if_pos (marked_head h)
      show (if U.isLetter (recase U.toUpper r) then recase U.toUpper r :: rs.map (recase U.toUpper)
          else "File".toList ++ recase U.toUpper r :: rs.map (recase U.toUpper)) =
        (if U.isLetter (U.toUpper r.1) then r :: rs else filePrefix ++ r :: rs).map (recase U.toUpper)
      rw [apply_ite (List.map (recase U.toUpper)), List.map_append, map_recase_filePrefix, List.map_cons, hr]

/-- **The collisions of `embedPathToConst`.** -/
theorem embedPathToConst_eq_iff (p q : Text) :
    embedPathToConst U p = embedPathToConst U q ↔ SpelledAlike U p q := by
  rw [embedPathToConst_eq, embedPathToConst_eq]
  exact map_recase_eq_iff _ _

/-! ## The other names of the file -/

/-- The constant begins with no small Latin letter. -/
theorem not_lower_of_embedPathToConst {p cs : Text} {c : Char} (h : embedPathToConst U p = c :: cs) :
    c.isLower = false := by
  rw [embedPathToConst_eq, spelling] at h
  cases hm : marked endsWord true p with
  | nil =>
      rw [hm] at h
      have hc : 'F' = c := (List.cons.inj h).1
      rw [← hc]
      decide
  | cons r rs =>
      rw [hm] at h
      dsimp only at h
      split at h
      · have hc : recase U.toUpper r = c := (List.cons.inj h).1
        rw [← hc, recase, if_pos (marked_head hm)]
        exact U.toUpper_not_lower r.1
      · have hc : 'F' = c := (List.cons.inj h).1
        rw [← hc]
        decide

/-- A name that begins with a small Latin letter. -/
def StartsLower (n : Text) : Prop := ∃ c cs, n = c :: cs ∧ c.isLower = true

theorem ne_of_startsLower {n : Text} (hn : StartsLower n) (p : Text) : embedPathToConst U p ≠ n := by
  obtain ⟨c, cs, rfl, hc⟩ := hn
  intro h
  rw [not_lower_of_embedPathToConst h] at hc
  exact absurd hc (by decide)

theorem startsLower_embedVar (i : Nat) : StartsLower (embedVar i) := ⟨'f', _, rfl, by decide⟩

/-- The exported names that the template declares. -/
def exportedNames : List Text :=
  ["AssetFile".toList, "AssetDir".toList, "LoadAssetFile".toList, "LoadAllAssetFiles".toList, "LoadAssetDir".toList,
    "ExcelTmplData".toList]

/-- A word that begins with a capital letter. -/
def isCapitalWord : Text → Bool
  | [] => false
  | c :: cs => c.isUpper && (c :: cs).all (fun d => !endsWord d)

/-- Such a word is the name of its own constant. -/
theorem embedPathToConst_of_isCapitalWord {n : Text} (hn : isCapitalWord n = true) : embedPathToConst U n = n := by
  cases n with
  | nil => exact absurd hn nofun
  | cons c cs =>
      obtain ⟨hc, hw⟩ := Bool.and_eq_true_iff.mp hn
      have hword : ∀ d ∈ c :: cs, endsWord d = false := fun d hd => by simpa using List.all_eq_true.mp hw d hd
      have hup : U.toUpper c = c := U.toUpper_of_isUpper hc
      have hspelling : spelling U (c :: cs) = (c, true) :: cs.map (fun d => (d, false)) := by
        rw [spelling, marked, hword c List.mem_cons_self,
          marked_of_no_sep (fun d hd => hword d (List.mem_cons_of_mem c hd))]
        show (if U.isLetter (U.toUpper c) then _ else _) = _
        rw [hup, if_pos (U.isLetter_of_isUpper hc)]
      have hid : recase U.toUpper ∘ (fun d => (d, false)) = id := rfl
      rw [embedPathToConst_eq, hspelling, List.map_cons, List.map_map, hid, List.map_id]
      show U.toUpper c :: cs = c :: cs
      rw [hup]

/-- **A path whose constant is a name of the template.** -/
theorem embedPathToConst_eq_exportedName_iff {n : Text} (hn : n ∈ exportedNames) (p : Text) :
    embedPathToConst U p = n ↔ SpelledAlike U p n := by
  have hword : ∀ n ∈ exportedNames, isCapitalWord n = true := by decide
  rw [← embedPathToConst_eq_iff, embedPathToConst_of_isCapitalWord (hword n hn)]

/-- The names that the template declares itself, and those of its imports: the exported ones, and no other begins
    with a capital. -/
theorem mem_templateNames (n : Text) (hn : n ∈ templateNames ++ importNames) :
    n ∈ exportedNames ∨ (n.head?.any Char.isLower) = true := by
  revert n
  decide

theorem startsLower_of_head? {n : Text} (h : (n.head?.any Char.isLower) = true) : StartsLower n := by
  cases n with
  | nil => exact absurd h nofun
  | cons c cs => exact ⟨c, cs, rfl, h⟩

theorem mem_otherNames_iff {g : GeneratedFile} (hg : ∀ v ∈ g.embeds.map Prod.snd, StartsLower v) (p : Text) :
    embedPathToConst U p ∈ g.otherNames ↔ ∃ n ∈ exportedNames, SpelledAlike U p n := by
  rw [GeneratedFile.otherNames, List.append_assoc, List.mem_append]
  constructor
  · rintro (hvar | hname)
    · exact absurd rfl (ne_of_startsLower (hg _ hvar) p)
    · rcases mem_templateNames _ hname with hexp | hlow
      · exact ⟨_, hexp, (embedPathToConst_eq_exportedName_iff hexp p).mp rfl⟩
      · exact absurd rfl (ne_of_startsLower (startsLower_of_head? hlow) p)
  · rintro ⟨n, hn, halike⟩
    have hsub : ∀ n ∈ exportedNames, n ∈ templateNames ++ importNames := by decide
    rw [(embedPathToConst_eq_exportedName_iff hn p).mpr halike]
    exact Or.inr (hsub n hn)

/-! ## A generated file -/

/-- No identifier and no string is the key of two entries of a map literal. -/
structure KeysApart {α : Type} (entries : List (Entry α)) : Prop where
  idents : (entries.map Entry.ident).Nodup
  strings : entries.Pairwise fun e e' => ¬SameString e.key e'.key

/-- No name is declared twice in the file, and no map literal has a key twice. -/
structure NoDuplicates (g : GeneratedFile) : Prop where
  consts : (g.consts.map Prod.fst).Nodup
  apart : ∀ n ∈ g.consts.map Prod.fst, n ∉ g.otherNames
  allFiles : KeysApart g.allFiles
  allDirs : KeysApart g.allDirs

/-- The embed paths of a run: of its files and of its wildcard entries. -/
def Output.embedPaths (o : Output) : List Text := o.files.map FileInfo.embedPath

/-- Of its files. -/
def Output.filePaths (o : Output) : List Text := (o.files.filter (fun i => !i.isDirWild)).map FileInfo.embedPath

/-- Of its wildcard entries. -/
def Output.wildcards (o : Output) : List Text := (o.files.filter FileInfo.isDirWild).map FileInfo.embedPath

variable {order : MapOrder} {m : Machine} {f : Flags} {o : Output}

theorem constNames_eq (h : main U order m f = .ok o) :
    o.execute.consts.map Prod.fst = o.embedPaths.map (embedPathToConst U) := by
  rw [Output.execute, Output.embedPaths, List.map_map, List.map_map]
  apply List.map_congr_left
  intro info hi
  obtain ⟨outputDir, cf, hd⟩ := describes_of_mem h hi
  exact hd.constName

theorem startsLower_of_mem_embeds (h : main U order m f = .ok o) {v : Text}
    (hv : v ∈ o.execute.embeds.map Prod.snd) : StartsLower v := by
  rw [Output.execute, List.map_map] at hv
  obtain ⟨info, hi, rfl⟩ := List.mem_map.mp hv
  obtain ⟨outputDir, cf, hd⟩ := describes_of_mem h hi
  obtain ⟨i, hvar⟩ := hd.embedFS
  show StartsLower info.embedFS
  rw [hvar]
  exact startsLower_embedVar i

/-- The entries of a map literal are of some of the constants. -/
theorem keysApart_iff {α : Type} (entry : FileInfo → Entry α) (hident : ∀ i, (entry i).ident = i.constName)
    (hkey : ∀ i, (entry i).key = i.embedPath) (keep : FileInfo → Bool)
    (hconsts : (o.files.map FileInfo.constName).Nodup) :
    KeysApart ((o.files.filter keep).map entry) ↔
      ((o.files.filter keep).map FileInfo.embedPath).Pairwise fun p q => ¬SameString p q := by
  have hstrings : ((o.files.filter keep).map entry).Pairwise (fun e e' => ¬SameString e.key e'.key) ↔
      ((o.files.filter keep).map FileInfo.embedPath).Pairwise fun p q => ¬SameString p q := by
    rw [List.pairwise_map, List.pairwise_map]
    simp only [hkey]
  constructor
  · intro h
    exact hstrings.mp h.strings
  · intro h
    refine ⟨?_, hstrings.mpr h⟩
    rw [List.map_map, show Entry.ident ∘ entry = FileInfo.constName from funext hident]
    exact hconsts.sublist (List.filter_sublist.map _)

/-- `/srv` with two empty files. -/
def twoFiles (a b : Name) : Machine := ⟨[], .dir [(srv, .dir [(a, .file ⟨[], 0⟩), (b, .file ⟨[], 0⟩)])]⟩

def aDashB : Name := ⟨"a-b".toList, by decide, by decide, by decide, by decide⟩
def aScoreB : Name := ⟨"a_b".toList, by decide, by decide, by decide, by decide⟩
def logo : Name := ⟨"logo.svg".toList, by decide, by decide, by decide, by decide⟩

/-- **When the constants of a generated file are unique.** No two embed paths of the run are spelled alike, none is
    spelled like an exported name of the template, and as literals no two file paths are one string and no two
    wildcards. -/
theorem noDuplicates_iff (h : main U order m f = .ok o) :
    NoDuplicates o.execute ↔
      o.embedPaths.Pairwise (fun p q => ¬SpelledAlike U p q) ∧
        (∀ p ∈ o.embedPaths, ∀ n ∈ exportedNames, ¬SpelledAlike U p n) ∧
        o.filePaths.Pairwise (fun p q => ¬SameString p q) ∧ o.wildcards.Pairwise (fun p q => ¬SameString p q) := by
  have hnodup : (o.execute.consts.map Prod.fst).Nodup ↔ o.embedPaths.Pairwise (fun p q => ¬SpelledAlike U p q) := by
    rw [constNames_eq h, List.Nodup, List.pairwise_map]
    simp only [ne_eq, embedPathToConst_eq_iff]
  have hother := mem_otherNames_iff (U := U) (g := o.execute) (fun v hv => startsLower_of_mem_embeds h hv)
  have hnames : ∀ hconsts : (o.execute.consts.map Prod.fst).Nodup, (o.files.map FileInfo.constName).Nodup := by
    intro hconsts
    rw [Output.execute, List.map_map] at hconsts
    exact hconsts
  have hfiles := keysApart_iff (o := o) FileInfo.assetFile (fun _ => rfl) (fun _ => rfl) (fun i => !i.isDirWild)
  have hdirs := keysApart_iff (o := o) FileInfo.assetDir (fun _ => rfl) (fun _ => rfl) FileInfo.isDirWild
  constructor
  · intro hg
    refine ⟨hnodup.mp hg.consts, ?_, (hfiles (hnames hg.consts)).mp hg.allFiles,
      (hdirs (hnames hg.consts)).mp hg.allDirs⟩
    intro p hp n hn halike
    have hmem : embedPathToConst U p ∈ o.execute.consts.map Prod.fst := by
      rw [constNames_eq h]
      exact List.mem_map_of_mem hp
    exact hg.apart _ hmem ((hother p).mpr ⟨n, hn, halike⟩)
  · rintro ⟨hpair, hexp, hfile, hwild⟩
    have hconsts := hnodup.mpr hpair
    refine ⟨hconsts, ?_, (hfiles (hnames hconsts)).mpr hfile, (hdirs (hnames hconsts)).mpr hwild⟩
    intro n hn hmem
    rw [constNames_eq h] at hn
    obtain ⟨p, hp, rfl⟩ := List.mem_map.mp hn
    obtain ⟨n, hn, halike⟩ := (hother p).mp hmem
    exact hexp p hp n hn halike

theorem noDuplicates_iff_logo : NoDuplicates (outcome (twoFiles aDashB logo) srvFlags).execute := by
  have hrun : main Unicode.ascii asSet (twoFiles aDashB logo) srvFlags = .ok (outcome (twoFiles aDashB logo) srvFlags) :=
    Eq.refl _
  have hpaths : (outcome (twoFiles aDashB logo) srvFlags).filePaths = ["a-b".toList, "logo.svg".toList] := by decide
  have hwild : (outcome (twoFiles aDashB logo) srvFlags).wildcards = [] := by decide
  refine (noDuplicates_iff hrun).mpr ⟨by decide, by decide, ?_, ?_⟩
  · rw [hpaths, List.pairwise_pair]
    exact not_sameString (by decide) (by decide) (by decide)
  · rw [hwild]
    exact List.Pairwise.nil

/-- `a-b` and `a_b` are both `AB`. -/
theorem not_noDuplicates :
    ¬∀ (U : Unicode) (order : MapOrder) (m : Machine) (f : Flags) (o : Output), main U order m f = .ok o →
      o.embedPaths.Nodup → NoDuplicates o.execute := by
  intro h
  have hbad := (h Unicode.ascii asSet (twoFiles aDashB aScoreB) srvFlags
    (outcome (twoFiles aDashB aScoreB) srvFlags) (by rfl) (by decide)).consts
  exact absurd hbad (by decide)

end Templatefile
end ServiceKit
