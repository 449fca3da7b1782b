import ServiceKit.Templatefile.Correctness.Entries

/-!
# `Templatefile.Correctness.AssetDirs` — loading a directory of a generated file

`allDirs` is keyed by embed paths, and those of its entries end in `/*`; the `DirName` of an entry is the last element
of its directory, without a slash. So `LoadAssetDir`, called with a `DirName`, finds no entry, in no state of the
program (`loadAssetDir_dirName`), and directories are served as the comment of `LoadAssetDir` says only where there
are none (`dirsServed_iff`).

Keys and names are taken as they stand between their quotes. Where a backslash makes them other strings, some directory
is still not found: a key is longer than the name of its own directory, so the shortest name is that of no key.
-/

namespace ServiceKit
namespace Templatefile

open Lib Lib.FilePath

variable {U : Unicode} {order : MapOrder} {m : Machine} {f : Flags} {o : Output} {E : Embedded} {g : GeneratedFile}

/-! ## What the caches hold -/

/-- Directories are cached under keys of `allDirs`. -/
def CachedByKey (g : GeneratedFile) (s : Vars) : Prop :=
  ∀ e ∈ s.dirCacheData, ∃ d ∈ g.allDirs, d.key = e.1

theorem lookupEntry_mem {α : Type} {es : List (Entry α)} {key : Text} {e : Entry α}
    (h : lookupEntry es key = some e) : e ∈ es ∧ e.key = key := by
  rw [lookupEntry] at h
  exact ⟨List.mem_of_find?_eq_some h, by simpa using List.find?_some h⟩

theorem dirCacheData_loadAssetFile (fileName : Text) (s : Vars) :
    (loadAssetFile E fileName s).1.dirCacheData = s.dirCacheData := by
  rw [loadAssetFile]
  split
  · rfl
  · split
    · rfl
    · split
      · rfl
      · rfl

theorem cachedByKey_loadAssetDir {s : Vars} (h : CachedByKey g s) (dirName : Text) :
    CachedByKey g (loadAssetDir g dirName s).1 := by
  rw [loadAssetDir]
  split
  · exact h
  · split
    · next d hd =>
        split
        · intro e he
          rcases List.mem_append.mp he with he | he
          · exact h e he
          · rw [List.mem_singleton.mp he]
            exact ⟨d, lookupEntry_mem hd⟩
        · exact h
    · exact h

theorem cachedByKey_of_run {calls : List Call} {s : Vars} (h : Run (Step E g) g.start calls s) : CachedByKey g s := by
  apply h.preserves
  · exact fun e he => absurd he nofun
  · intro s c t hs hstep
    cases hstep with
    | loadAssetFile fileName =>
        rw [CachedByKey, dirCacheData_loadAssetFile]
        exact hs
    | loadAssetDir dirName => exact cachedByKey_loadAssetDir hs dirName

/-- What is no key of `allDirs` is not found, whatever was loaded before. -/
theorem loadAssetDir_of_not_key {calls : List Call} {s : Vars} (h : Run (Step E g) g.start calls s) {dirName : Text}
    (hkey : ∀ d ∈ g.allDirs, d.key ≠ dirName) : loadAssetDir g dirName s = (s, .error (.dirNotFound dirName)) := by
  have hcache : s.dirCacheData.find? (fun e => e.1 = dirName) = none := by
    rw [List.find?_eq_none]
    intro e he hname
    obtain ⟨d, hd, hkeyd⟩ := cachedByKey_of_run h e he
    exact hkey d hd (hkeyd.trans (of_decide_eq_true hname))
  have hentry : lookupEntry g.allDirs dirName = none := by
    rw [lookupEntry, List.find?_eq_none]
    intro d hd hname
    exact hkey d hd (of_decide_eq_true hname)
  rw [loadAssetDir, hcache, hentry]

/-! ## Keys and directory names -/

theorem noSlash_orEmpty {t : Text} (h : '/' ∉ t) : '/' ∉ orEmpty t := by
  rw [orEmpty]
  split
  · exact nofun
  · exact h

theorem Describes.noSlash_dir {outputDir : AbsPath} {cf : CollectedFile} {info : FileInfo}
    (h : Describes U outputDir cf info) (hwild : cf.isDirWild = true) : '/' ∉ info.dir := by
  rw [h.dir hwild]
  exact noSlash_orEmpty (RelPath.noSlash_base _)

theorem Describes.slash_embedPath {outputDir : AbsPath} {cf : CollectedFile} {info : FileInfo}
    (h : Describes U outputDir cf info) (hwild : cf.isDirWild = true) : '/' ∈ info.embedPath := by
  rw [h.embedPath, CollectedFile.embedPath, if_pos hwild]
  exact List.mem_append_right _ (by decide)

theorem slash_of_mem_allDirs (h : main U order m f = .ok o) {d : Entry AssetDir} (hd : d ∈ o.execute.allDirs) :
    '/' ∈ d.key := by
  obtain ⟨info, hi, rfl⟩ := List.mem_map.mp hd
  obtain ⟨hmem, hwild⟩ := List.mem_filter.mp hi
  obtain ⟨outputDir, cf, hdesc⟩ := describes_of_mem h hmem
  exact hdesc.slash_embedPath (hdesc.isDirWild ▸ hwild)

/-- **No directory is found under its `DirName`**, in any state of the program. -/
theorem loadAssetDir_dirName (h : main U order m f = .ok o) {d : Entry AssetDir} (hd : d ∈ o.execute.allDirs)
    {calls : List Call} {s : Vars} (hrun : Run (Step E o.execute) o.execute.start calls s) :
    loadAssetDir o.execute d.value.dirName s = (s, .error (.dirNotFound d.value.dirName)) := by
  apply loadAssetDir_of_not_key hrun
  intro d' hd' heq
  obtain ⟨info, hi, rfl⟩ := List.mem_map.mp hd
  obtain ⟨hmem, hwild⟩ := List.mem_filter.mp hi
  obtain ⟨outputDir, cf, hdesc⟩ := describes_of_mem h hmem
  have hno : '/' ∉ info.dir := hdesc.noSlash_dir (hdesc.isDirWild ▸ hwild)
  have hslash := slash_of_mem_allDirs h hd'
  rw [heq] at hslash
  exact hno hslash

/-! ## Serving directories -/

/-- In this state, `LoadAssetDir` of the directory's name succeeds; the kept files below the directory are read
    from what it returns; and later calls return the same. -/
def Serves (E : Embedded) (m : Machine) (cfs : List CollectedFile) (g : GeneratedFile) (cf : CollectedFile)
    (info : FileInfo) (s : Vars) : Prop :=
  ∃ s' fs, loadAssetDir g info.dir s = (s', .ok fs) ∧
    (∀ k ∈ cfs, k.isDirWild = false → k.sourceDir = cf.sourceDir → ∀ rest, k.relPath = cf.relPath ++ rest →
      ∃ data, m.root.stat (k.sourceDir ++ k.relPath) = some (.file data) ∧
        fs.readFile E (RelPath.mk 0 rest).text = some data.content) ∧
    ∀ calls t, Run (Step E g) s' calls t → (loadAssetDir g info.dir t).2 = .ok fs

/-- The directories of a generated file are loaded as the comment of `LoadAssetDir` says. -/
structure DirsServed (E : Embedded) (m : Machine) (cfs : List CollectedFile) (o : Output) : Prop where
  serves : ∀ cf info, (cf, info) ∈ cfs.zip o.files → cf.isDirWild = true →
    ∀ calls s, Run (Step E o.execute) o.execute.start calls s → Serves E m cfs o.execute cf info s
  /-- Two directories have two entries. -/
  apart : ∀ cf info cf' info', (cf, info) ∈ cfs.zip o.files → (cf', info') ∈ cfs.zip o.files →
    cf.isDirWild = true → cf'.isDirWild = true → cf.sourceDir ++ cf.relPath ≠ cf'.sourceDir ++ cf'.relPath →
      info.assetDir.key ≠ info'.assetDir.key

theorem exists_info {outputDir : AbsPath} {cfs : List CollectedFile} {infos : List FileInfo}
    (h : List.Forall₂ (Describes U outputDir) cfs infos) {cf : CollectedFile} (hcf : cf ∈ cfs) :
    ∃ info, (cf, info) ∈ cfs.zip infos ∧ info ∈ infos ∧ Describes U outputDir cf info := by
  induction h with
  | nil => exact absurd hcf nofun
  | @cons cf' info cfs infos hd _ ih =>
      rcases List.mem_cons.mp hcf with rfl | hcf
      · exact ⟨info, List.mem_cons_self, List.mem_cons_self, hd⟩
      · obtain ⟨info', hzip, hmem, hd'⟩ := ih hcf
        exact ⟨info', List.mem_cons_of_mem _ hzip, List.mem_cons_of_mem _ hmem, hd'⟩

/-- `/srv` with one file. -/
def oneFile : Machine := ⟨[], .dir [(srv, .dir [(appJs, .file ⟨[], 0⟩)])]⟩

/-- `/srv` with one file below `js`. -/
def subdirectory : Machine := ⟨[], .dir [(srv, .dir [(js, .dir [(appJs, .file ⟨[], 0⟩)])])]⟩

def jsInfo : FileInfo :=
  ⟨"file001".toList, "js/*".toList, "Js".toList, "js".toList, "js".toList, [], "js".toList, 0, 0, true⟩

/-- **When asset directories are served.** No kept file lies in a subdirectory of its input directory. -/
theorem dirsServed_iff {dirs : List AbsPath} (hdirs : f.dirs m = .ok dirs) (h : main U order m f = .ok o) :
    DirsServed E m (collect order m f.outputFileName dirs) o ↔
      ∀ d ∈ dirs, ∀ p ∈ keptFiles m f.outputFileName d, p.dropLast = [] := by
  obtain ⟨dir, rest, hdirs', hall⟩ := main_ok h
  cases hdirs.symm.trans hdirs'
  constructor
  · intro hserved d hd p hp
    by_contra hne
    obtain ⟨cf, hcf, hwild⟩ := exists_wildcard_iff.mpr ⟨d, hd, p, hp, hne⟩
    obtain ⟨info, hzip, hmem, hdesc⟩ := exists_info hall hcf
    obtain ⟨s', fs, hload, -⟩ := hserved.serves cf info hzip hwild [] o.execute.start Run.nil
    have hentry : info.assetDir ∈ o.execute.allDirs := by
      apply List.mem_map_of_mem
      exact List.mem_filter.mpr ⟨hmem, hdesc.isDirWild.trans hwild⟩
    have hfail := loadAssetDir_dirName (E := E) h hentry Run.nil
    have hsame : (loadAssetDir o.execute info.dir o.execute.start).2 = .error (.dirNotFound info.dir) :=
      congrArg Prod.snd hfail
    rw [hload] at hsame
    cases hsame
  · intro hflat
    have hnone : ∀ cf ∈ collect order m f.outputFileName (dir :: rest), cf.isDirWild ≠ true := by
      intro cf hcf hwild
      obtain ⟨d, hd, p, hp, hne⟩ := exists_wildcard_iff.mp ⟨cf, hcf, hwild⟩
      exact hne (hflat d hd p hp)
    constructor
    · intro cf info hzip hwild
      exact absurd hwild (hnone cf (List.of_mem_zip hzip).1)
    · intro cf info cf' info' hzip _ hwild
      exact absurd hwild (hnone cf (List.of_mem_zip hzip).1)

theorem dirsServed_iff_oneFile :
    DirsServed (fun _ _ => none) oneFile (collect asSet oneFile srvFlags.outputFileName [[srv]])
      (outcome oneFile srvFlags) := by
  have hdirs : srvFlags.dirs oneFile = .ok [[srv]] := Eq.refl _
  have hrun : main Unicode.ascii asSet oneFile srvFlags = .ok (outcome oneFile srvFlags) := Eq.refl _
  exact (dirsServed_iff hdirs hrun).mpr (by decide)

/-- `/srv/js/app.js`: the entry of `js` is not found under `js`. -/
theorem not_dirsServed :
    ¬∀ (U : Unicode) (order : MapOrder) (E : Embedded) (m : Machine) (f : Flags) (dirs : List AbsPath) (o : Output),
      f.dirs m = .ok dirs → main U order m f = .ok o → DirsServed E m (collect order m f.outputFileName dirs) o := by
  intro h
  have hserved := h Unicode.ascii asSet (fun _ _ => none) subdirectory srvFlags [[srv]] (outcome subdirectory srvFlags)
    (Eq.refl _) (Eq.refl _)
  obtain ⟨s', fs, hload, -⟩ := hserved.serves ⟨[js], [srv], true⟩ jsInfo (by decide) (by decide) [] _ Run.nil
  cases hload

end Templatefile
end ServiceKit
