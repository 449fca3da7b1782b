import Mathlib.Data.List.Forall2
import ServiceKit.Templatefile.Assets

/-!
# `Templatefile.Correctness.Entries` — which entries a run of the generator makes

`main` succeeds only past its checks, and then has one `FileInfo` for each collected file, in order (`main_ok`,
`Describes`). What is collected: an entry for each kept file, and a wildcard entry for what `dirsWithFiles` holds when
the walks are over (`mem_collect`).
-/

namespace ServiceKit
namespace Templatefile

open Lib Lib.FilePath

variable {U : Unicode} {order : MapOrder} {m : Machine} {f : Flags} {o : Output} {outputDir : AbsPath}
variable {outputFileName : Text}

/-! ## File infos -/

/-- What the file info of a collected file has, whatever the machine. -/
structure Describes (U : Unicode) (outputDir : AbsPath) (cf : CollectedFile) (info : FileInfo) : Prop where
  embedPath : info.embedPath = cf.embedPath outputDir
  constName : info.constName = embedPathToConst U info.embedPath
  embedFS : ∃ i, info.embedFS = embedVar i
  isDirWild : info.isDirWild = cf.isDirWild
  dir : cf.isDirWild = true → info.dir = orEmpty (cf.fromOutput outputDir).base

theorem fileInfo_describes {i : Nat} {cf : CollectedFile} {info : FileInfo}
    (h : fileInfo U m outputDir i cf = .ok info) : Describes U outputDir cf info := by
  simp only [fileInfo] at h
  split at h
  · next hwild =>
      cases h
      exact ⟨rfl, rfl, ⟨i + 1, rfl⟩, hwild.symm, fun _ => rfl⟩
  · next hwild =>
      split at h
      · cases h
        refine ⟨rfl, rfl, ⟨i + 1, rfl⟩, ?_, fun hw => absurd hw hwild⟩
        exact (Bool.eq_false_of_not_eq_true hwild).symm
      · cases h

/-- One info for each collected file, in order. -/
theorem fileInfos_forall₂ {i : Nat} {cfs : List CollectedFile} {infos : List FileInfo}
    (h : fileInfos U m outputDir i cfs = .ok infos) :
    List.Forall₂ (fun cf info => ∃ i, fileInfo U m outputDir i cf = .ok info) cfs infos := by
  induction cfs generalizing i infos with
  | nil =>
      cases h
      exact List.Forall₂.nil
  | cons cf cfs ih =>
      rw [fileInfos] at h
      cases hinfo : fileInfo U m outputDir i cf with
      | error e =>
          rw [hinfo] at h
          cases h
      | ok info =>
          rw [hinfo] at h
          cases hrest : fileInfos U m outputDir (i + 1) cfs with
          | error e =>
              simp only [hrest, bind, Except.bind] at h
              cases h
          | ok rest =>
              simp only [hrest, bind, Except.bind] at h
              cases h
              exact List.Forall₂.cons ⟨i, hinfo⟩ (ih hrest)

/-- The infos of a successful run. -/
theorem main_infos (h : main U order m f = .ok o) :
    ∃ dir dirs, f.dirs m = .ok (dir :: dirs) ∧
      List.Forall₂ (fun cf info => ∃ i, fileInfo U m (f.outputDir m dir) i cf = .ok info)
        (collect order m f.outputFileName (dir :: dirs)) o.files := by
  rw [main] at h
  cases hdirs : f.dirs m with
  | error e =>
      rw [hdirs] at h
      cases h
  | ok dirs =>
      simp only [hdirs, bind, Except.bind] at h
      split at h
      · next cf cfs dir rest hcollect =>
          split at h
          · split at h
            · cases h
            · next infos hinfos =>
                cases h
                exact ⟨dir, rest, rfl, fileInfos_forall₂ hinfos⟩
          · cases h
      · cases h

/-- **A successful run**, as the steps of `main` leave it. -/
theorem main_ok (h : main U order m f = .ok o) :
    ∃ dir dirs, f.dirs m = .ok (dir :: dirs) ∧
      List.Forall₂ (Describes U (f.outputDir m dir)) (collect order m f.outputFileName (dir :: dirs)) o.files := by
  obtain ⟨dir, dirs, hdirs, hinfos⟩ := main_infos h
  exact ⟨dir, dirs, hdirs, hinfos.imp fun cf info hinfo => fileInfo_describes hinfo.choose_spec⟩

theorem exists_described {cfs : List CollectedFile} {infos : List FileInfo}
    (h : List.Forall₂ (Describes U outputDir) cfs infos) {info : FileInfo} (hi : info ∈ infos) :
    ∃ cf ∈ cfs, Describes U outputDir cf info := by
  induction h with
  | nil => exact absurd hi nofun
  | @cons cf head cfs infos hd _ ih =>
      rcases List.mem_cons.mp hi with rfl | hi
      · exact ⟨cf, List.mem_cons_self, hd⟩
      · obtain ⟨cf', hcf, hd'⟩ := ih hi
        exact ⟨cf', List.mem_cons_of_mem cf hcf, hd'⟩

theorem describes_of_mem (h : main U order m f = .ok o) {info : FileInfo} (hi : info ∈ o.files) :
    ∃ outputDir cf, Describes U outputDir cf info := by
  obtain ⟨dir, dirs, -, hall⟩ := main_ok h
  obtain ⟨cf, -, hd⟩ := exists_described hall hi
  exact ⟨f.outputDir m dir, cf, hd⟩

/-! ## What is collected -/

/-- The kept files of an input directory, in the order of its walk. -/
def keptFiles (m : Machine) (outputFileName : Text) (sourceDir : AbsPath) : List (List Name) :=
  match m.root.stat sourceDir with
  | some t => t.walk.filter (kept outputFileName)
  | none => []

/-- `visit`, on a file that is kept. -/
def record (c : Collected) (v : AbsPath × List Name) : Collected where
  allFiles := c.allFiles ++ [⟨v.2, v.1, false⟩]
  dirsWithFiles := if v.2.dropLast ≠ [] then c.dirsWithFiles.set v.2.dropLast v.1 else c.dirsWithFiles

/-- The kept files of all input directories, each with its directory. -/
def visits (m : Machine) (outputFileName : Text) (dirs : List AbsPath) : List (AbsPath × List Name) :=
  dirs.flatMap (fun d => (keptFiles m outputFileName d).map (fun p => (d, p)))

theorem walkDir_eq (c : Collected) (d : AbsPath) :
    walkDir m outputFileName c d = ((keptFiles m outputFileName d).map (fun p => (d, p))).foldl record c := by
  rw [walkDir, keptFiles]
  cases m.root.stat d with
  | none => rfl
  | some t =>
      show t.walk.foldl (visit outputFileName d) c = _
      rw [List.foldl_map, List.foldl_filter]
      rfl

theorem walkDirs_eq (dirs : List AbsPath) :
    walkDirs m outputFileName dirs = (visits m outputFileName dirs).foldl record ⟨[], []⟩ := by
  rw [walkDirs, visits, List.foldl_flatMap]
  congr
  funext c d
  exact walkDir_eq c d

theorem mem_visits {dirs : List AbsPath} {d : AbsPath} {p : List Name} :
    (d, p) ∈ visits m outputFileName dirs ↔ d ∈ dirs ∧ p ∈ keptFiles m outputFileName d := by
  simp only [visits, List.mem_flatMap, List.mem_map, Prod.mk.injEq]
  constructor
  · rintro ⟨d', hd, p', hp, rfl, rfl⟩
    exact ⟨hd, hp⟩
  · rintro ⟨hd, hp⟩
    exact ⟨d, hd, p, hp, rfl, rfl⟩

theorem allFiles_foldl_record (vs : List (AbsPath × List Name)) (c : Collected) :
    (vs.foldl record c).allFiles = c.allFiles ++ vs.map (fun v => ⟨v.2, v.1, false⟩) := by
  induction vs generalizing c with
  | nil => simp
  | cons v vs ih =>
      rw [List.foldl_cons, ih]
      simp [record]

/-- An entry of `dirsWithFiles` comes from a file that lies in it. -/
theorem of_mem_dirsWithFiles {vs : List (AbsPath × List Name)} {c : Collected} {e : List Name × AbsPath}
    (h : e ∈ (vs.foldl record c).dirsWithFiles) :
    e ∈ c.dirsWithFiles ∨ ∃ p, (e.2, p) ∈ vs ∧ p.dropLast = e.1 ∧ e.1 ≠ [] := by
  induction vs generalizing c with
  | nil => exact Or.inl h
  | cons v vs ih =>
      rcases ih h with hrec | ⟨p, hp, hdir, hne⟩
      · simp only [record] at hrec
        split at hrec
        · next hne =>
            rw [DirsWithFiles.set, List.mem_append] at hrec
            rcases hrec with hold | hnew
            · exact Or.inl (List.mem_of_mem_filter hold)
            · rw [List.mem_singleton] at hnew
              subst hnew
              exact Or.inr ⟨v.2, List.mem_cons_self, rfl, hne⟩
        · exact Or.inl hrec
      · exact Or.inr ⟨p, List.mem_cons_of_mem v hp, hdir, hne⟩

/-- A directory stays in `dirsWithFiles`, though for the input directory that had it last. -/
theorem key_mem_set {dm : DirsWithFiles} {k relDir : List Name} {d sourceDir : AbsPath} (h : (k, d) ∈ dm) :
    ∃ d', (k, d') ∈ dm.set relDir sourceDir := by
  by_cases hk : k = relDir
  · subst hk
    exact ⟨sourceDir, List.mem_append_right _ (List.mem_singleton.mpr rfl)⟩
  · exact ⟨d, List.mem_append_left _ (List.mem_filter.mpr ⟨h, by simpa using hk⟩)⟩

theorem key_mem_foldl_record {vs : List (AbsPath × List Name)} {c : Collected} {k : List Name} {d : AbsPath}
    (h : (k, d) ∈ c.dirsWithFiles) : ∃ d', (k, d') ∈ (vs.foldl record c).dirsWithFiles := by
  induction vs generalizing c d with
  | nil => exact ⟨d, h⟩
  | cons v vs ih =>
      have hrec : ∃ d', (k, d') ∈ (record c v).dirsWithFiles := by
        simp only [record]
        split
        · exact key_mem_set h
        · exact ⟨d, h⟩
      obtain ⟨d', hd'⟩ := hrec
      exact ih hd'

theorem dir_mem_foldl_record {vs : List (AbsPath × List Name)} {c : Collected} {v : AbsPath × List Name}
    (hv : v ∈ vs) (hne : v.2.dropLast ≠ []) : ∃ d, (v.2.dropLast, d) ∈ (vs.foldl record c).dirsWithFiles := by
  induction vs generalizing c with
  | nil => exact absurd hv nofun
  | cons w vs ih =>
      rcases List.mem_cons.mp hv with rfl | hv
      · have hnow : (v.2.dropLast, v.1) ∈ (record c v).dirsWithFiles := by
          simp only [record]
          rw [if_pos hne]
          exact List.mem_append_right _ (List.mem_singleton.mpr rfl)
        rw [List.foldl_cons]
        exact key_mem_foldl_record hnow
      · exact ih hv

theorem mem_dirsForSource {entries : DirsWithFiles} {sourceDir : AbsPath} {relDir : List Name} :
    relDir ∈ dirsForSource entries sourceDir ↔ (relDir, sourceDir) ∈ entries := by
  rw [dirsForSource, sortStrings, List.mem_insertionSort]
  simp

theorem mem_prependWildcards {sourceDir : AbsPath} {ds : List (List Name)} {fs : List CollectedFile}
    {cf : CollectedFile} :
    cf ∈ prependWildcards sourceDir ds fs ↔
      (cf.isDirWild = true ∧ cf.sourceDir = sourceDir ∧ cf.relPath ∈ ds) ∨ cf ∈ fs := by
  induction ds generalizing fs with
  | nil => simp [prependWildcards]
  | cons d ds ih =>
      rw [prependWildcards, List.foldl_cons, ← prependWildcards, ih]
      obtain ⟨relPath, source, wild⟩ := cf
      simp only [List.mem_cons, CollectedFile.mk.injEq]
      tauto

theorem mem_prependAll {dm : DirsWithFiles} {i : Nat} {dirs : List AbsPath} {fs : List CollectedFile}
    {cf : CollectedFile} :
    cf ∈ prependAll order dm i dirs fs ↔
      (cf.isDirWild = true ∧ cf.sourceDir ∈ dirs ∧ (cf.relPath, cf.sourceDir) ∈ dm) ∨ cf ∈ fs := by
  induction dirs generalizing i fs with
  | nil => simp [prependAll]
  | cons d dirs ih =>
      rw [prependAll, ih, mem_prependWildcards, mem_dirsForSource, (order.perm i dm).mem_iff]
      constructor
      · rintro (⟨hw, hd, hm⟩ | ⟨hw, rfl, hm⟩ | hf)
        · exact Or.inl ⟨hw, List.mem_cons_of_mem d hd, hm⟩
        · exact Or.inl ⟨hw, List.mem_cons_self, hm⟩
        · exact Or.inr hf
      · rintro (⟨hw, hd, hm⟩ | hf)
        · rcases List.mem_cons.mp hd with rfl | hd
          · exact Or.inr (Or.inl ⟨hw, rfl, hm⟩)
          · exact Or.inl ⟨hw, hd, hm⟩
        · exact Or.inr (Or.inr hf)

/-- **What is collected**: the kept files, and a wildcard entry for each directory in `dirsWithFiles`. -/
theorem mem_collect {dirs : List AbsPath} {cf : CollectedFile} :
    cf ∈ collect order m outputFileName dirs ↔
      (cf.isDirWild = true ∧ cf.sourceDir ∈ dirs ∧
          (cf.relPath, cf.sourceDir) ∈ (walkDirs m outputFileName dirs).dirsWithFiles) ∨
        (cf.isDirWild = false ∧ cf.sourceDir ∈ dirs ∧ cf.relPath ∈ keptFiles m outputFileName cf.sourceDir) := by
  have hfiles : cf ∈ (walkDirs m outputFileName dirs).allFiles ↔
      cf.isDirWild = false ∧ cf.sourceDir ∈ dirs ∧ cf.relPath ∈ keptFiles m outputFileName cf.sourceDir := by
    rw [walkDirs_eq, allFiles_foldl_record, List.nil_append, List.mem_map, ← mem_visits]
    constructor
    · rintro ⟨v, hv, rfl⟩
      exact ⟨rfl, hv⟩
    · rintro ⟨hw, hv⟩
      refine ⟨(cf.sourceDir, cf.relPath), hv, ?_⟩
      rw [← hw]
  rw [collect, mem_prependAll, hfiles]

/-- **There are wildcard entries** when some kept file lies in a subdirectory of its input directory. -/
theorem exists_wildcard_iff {dirs : List AbsPath} :
    (∃ cf ∈ collect order m outputFileName dirs, cf.isDirWild = true) ↔
      ∃ d ∈ dirs, ∃ p ∈ keptFiles m outputFileName d, p.dropLast ≠ [] := by
  constructor
  · rintro ⟨cf, hcf, hwild⟩
    rcases mem_collect.mp hcf with ⟨-, hd, hmem⟩ | ⟨hfile, -, -⟩
    · rw [walkDirs_eq] at hmem
      rcases of_mem_dirsWithFiles hmem with h | ⟨p, hp, hdir, hne⟩
      · exact absurd h nofun
      · exact ⟨cf.sourceDir, hd, p, (mem_visits.mp hp).2, hdir ▸ hne⟩
    · rw [hwild] at hfile
      exact absurd hfile nofun
  · rintro ⟨d, hd, p, hp, hne⟩
    have hvisit : (d, p) ∈ visits m outputFileName dirs := mem_visits.mpr ⟨hd, hp⟩
    obtain ⟨d', hd'⟩ := dir_mem_foldl_record (c := ⟨[], []⟩) hvisit hne
    have hsource : d' ∈ dirs := by
      rcases of_mem_dirsWithFiles hd' with h | ⟨q, hq, -, -⟩
      · exact absurd h nofun
      · exact (mem_visits.mp hq).1
    rw [← walkDirs_eq] at hd'
    exact ⟨⟨p.dropLast, d', true⟩, mem_collect.mpr (Or.inl ⟨rfl, hsource, hd'⟩), rfl⟩

/-! ## A machine -/

/-- A map is ranged over in the order its keys were set. -/
def asSet : MapOrder := ⟨fun _ m => m, fun _ m => List.Perm.refl m⟩

def srv : Name := ⟨"srv".toList, by decide, by decide, by decide, by decide⟩

def js : Name := ⟨"js".toList, by decide, by decide, by decide, by decide⟩

def appJs : Name := ⟨"app.js".toList, by decide, by decide, by decide, by decide⟩

/-- `-dir /srv` -/
def srvFlags : Flags := ⟨"/srv".toList, [], [], [], []⟩

/-- The outcome of a run. -/
def outcome (m : Machine) (f : Flags) : Output :=
  match main Unicode.ascii asSet m f with
  | .ok o => o
  | .error _ => ⟨[], [], ([], [])⟩

end Templatefile
end ServiceKit
