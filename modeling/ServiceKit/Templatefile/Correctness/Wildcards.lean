import ServiceKit.Templatefile.Correctness.Entries

/-!
# `Templatefile.Correctness.Wildcards` — one wildcard entry for each directory

`dirsWithFiles` has one place for each relative directory, whatever the input directory: where two of these have kept
files in the same relative directory, the later takes the place of the earlier (`collected_iff`). What is in the map is
put in front of the files in sorted order, so the order of the map is not seen.
-/

namespace ServiceKit
namespace Templatefile

open Lib Lib.FilePath

variable {m : Machine} {outputFileName : Text} {dirs : List AbsPath}

/-! ## Trees -/

mutual

/-- No directory has two entries of one name. -/
def Node.Proper : Node → Prop
  | .file _ => True
  | .dir entries => (entries.map Prod.fst).Nodup ∧ ProperEntries entries

def ProperEntries : List (Name × Node) → Prop
  | [] => True
  | (_, t) :: es => t.Proper ∧ ProperEntries es

end

theorem head_of_mem_walkEntries {es : List (Name × Node)} {n : Name} {q : List Name} (h : n :: q ∈ walkEntries es) :
    n ∈ es.map Prod.fst := by
  induction es with
  | nil => simp [walkEntries] at h
  | cons e es ih =>
      rw [walkEntries, List.mem_append] at h
      rw [List.map_cons, List.mem_cons]
      rcases h with h | h
      · obtain ⟨q', -, heq⟩ := List.mem_map.mp h
        simp only [List.cons.injEq] at heq
        exact Or.inl heq.1.symm
      · exact Or.inr (ih h)

mutual

theorem Node.walk_nodup : ∀ {t : Node}, t.Proper → t.walk.Nodup
  | .file _, _ => by simp [Node.walk]
  | .dir entries, h => by
      rw [Node.walk]
      exact walkEntries_nodup h.1 h.2

theorem walkEntries_nodup : ∀ {es : List (Name × Node)}, (es.map Prod.fst).Nodup → ProperEntries es →
    (walkEntries es).Nodup
  | [], _, _ => by simp [walkEntries]
  | (n, t) :: es, hnames, hproper => by
      rw [walkEntries]
      rw [List.map_cons, List.nodup_cons] at hnames
      have ht : (t.walk.map (fun p => n :: p)).Nodup := by
        refine (Node.walk_nodup hproper.1).map ?_
        intro p q h
        simpa using h
      refine ht.append (walkEntries_nodup hnames.2 hproper.2) ?_
      -- the paths of the first entry begin with its name, and no other do
      intro p hp hp'
      obtain ⟨q, -, rfl⟩ := List.mem_map.mp hp
      exact hnames.1 (head_of_mem_walkEntries hp')

end

theorem ProperEntries.of_mem {es : List (Name × Node)} (h : ProperEntries es) {e : Name × Node} (he : e ∈ es) :
    e.2.Proper := by
  induction es with
  | nil => simp at he
  | cons e' es ih =>
      rcases List.mem_cons.mp he with rfl | he
      · exact h.1
      · exact ih h.2 he

theorem Node.Proper.stat {t t' : Node} {p : AbsPath} (h : t.Proper) (hstat : t.stat p = some t') : t'.Proper := by
  induction p generalizing t with
  | nil =>
      cases t <;> simp only [Node.stat, Option.some.injEq] at hstat <;> exact hstat ▸ h
  | cons n p ih =>
      obtain ⟨c, hc, hstat⟩ := Option.bind_eq_some_iff.mp hstat
      refine ih ?_ hstat
      cases t with
      | file data => simp [Node.child] at hc
      | dir entries =>
          obtain ⟨e, he, rfl⟩ := Option.map_eq_some_iff.mp hc
          exact h.2.of_mem (List.mem_of_find?_eq_some he)

theorem keptFiles_nodup (h : m.root.Proper) (d : AbsPath) : (keptFiles m outputFileName d).Nodup := by
  rw [keptFiles]
  cases hstat : m.root.stat d with
  | none => simp
  | some t => exact (Node.walk_nodup (h.stat hstat)).filter _

/-! ## The map of directories -/

theorem dirsWithFiles_set_nodup {dm : DirsWithFiles} (h : (dm.map Prod.fst).Nodup) (relDir : List Name) (d : AbsPath) :
    ((dm.set relDir d).map Prod.fst).Nodup := by
  rw [DirsWithFiles.set, List.map_append]
  refine ((h.sublist (List.filter_sublist.map Prod.fst))).append (List.nodup_singleton relDir) ?_
  intro k hk hk'
  obtain ⟨e, he, rfl⟩ := List.mem_map.mp hk
  have hne := (List.mem_filter.mp he).2
  simp only [List.map_cons, List.map_nil, List.mem_singleton] at hk'
  simp [hk'] at hne

/-- A relative directory has one place in the map. -/
theorem dirsWithFiles_nodup (vs : List (AbsPath × List Name)) {c : Collected}
    (h : (c.dirsWithFiles.map Prod.fst).Nodup) : ((vs.foldl record c).dirsWithFiles.map Prod.fst).Nodup := by
  induction vs generalizing c with
  | nil => exact h
  | cons v vs ih =>
      rw [List.foldl_cons]
      apply ih
      simp only [record]
      split
      · exact dirsWithFiles_set_nodup h _ _
      · exact h

theorem walkDirs_nodup : ((walkDirs m outputFileName dirs).dirsWithFiles.map Prod.fst).Nodup := by
  rw [walkDirs_eq]
  exact dirsWithFiles_nodup _ (by simp)

/-- The directory `relDir` of `d` directly contains a kept file. -/
def HasFiles (m : Machine) (outputFileName : Text) (d : AbsPath) (relDir : List Name) : Prop :=
  ∃ p ∈ keptFiles m outputFileName d, p.dropLast = relDir

/-- No relative directory below two input directories directly contains kept files in both. -/
def Apart (m : Machine) (outputFileName : Text) (dirs : List AbsPath) : Prop :=
  ∀ d ∈ dirs, ∀ d' ∈ dirs, ∀ relDir, relDir ≠ [] → HasFiles m outputFileName d relDir →
    HasFiles m outputFileName d' relDir → d = d'

theorem hasFiles_of_mem {relDir : List Name} {d : AbsPath}
    (h : (relDir, d) ∈ (walkDirs m outputFileName dirs).dirsWithFiles) :
    d ∈ dirs ∧ relDir ≠ [] ∧ HasFiles m outputFileName d relDir := by
  rw [walkDirs_eq] at h
  rcases of_mem_dirsWithFiles h with h | ⟨p, hp, hdir, hne⟩
  · simp at h
  · obtain ⟨hd, hkept⟩ := mem_visits.mp hp
    exact ⟨hd, hne, p, hkept, hdir⟩

theorem exists_mem_of_hasFiles {relDir : List Name} {d : AbsPath} (hd : d ∈ dirs) (hne : relDir ≠ [])
    (h : HasFiles m outputFileName d relDir) : ∃ d', (relDir, d') ∈ (walkDirs m outputFileName dirs).dirsWithFiles := by
  obtain ⟨p, hp, rfl⟩ := h
  rw [walkDirs_eq]
  exact dir_mem_foldl_record (v := (d, p)) (mem_visits.mpr ⟨hd, hp⟩) hne

/-! ## The order of the map -/

theorem sortStrings_perm (ds : List (List Name)) : (sortStrings ds).Perm ds := List.perm_insertionSort _ ds

/-- Sorted directories are known by their elements. -/
theorem sortStrings_eq_of_perm {ds es : List (List Name)} (h : ds.Perm es) : sortStrings ds = sortStrings es := by
  let before : List Name → List Name → Prop := fun d e => (RelPath.mk 0 d).text ≤ (RelPath.mk 0 e).text
  have htotal : Std.Total before := ⟨fun d e => le_total _ _⟩
  have htrans : IsTrans (List Name) before := ⟨fun d e f hde hef => le_trans hde hef⟩
  have hperm : (sortStrings ds).Perm (sortStrings es) := (sortStrings_perm ds).trans (h.trans (sortStrings_perm es).symm)
  refine hperm.eq_of_pairwise ?_ (List.pairwise_insertionSort before ds) (List.pairwise_insertionSort before es)
  intro d e _ _ hde hed
  exact RelPath.text_injective (le_antisymm hde hed)

/-- The entries of one input directory, whatever the order. -/
theorem dirsForSource_eq_of_perm {dm dm' : DirsWithFiles} (h : dm.Perm dm') (sourceDir : AbsPath) :
    dirsForSource dm sourceDir = dirsForSource dm' sourceDir :=
  sortStrings_eq_of_perm ((h.filter _).map Prod.fst)

theorem prependAll_order (order order' : MapOrder) (dm : DirsWithFiles) (i : Nat) (dirs : List AbsPath)
    (fs : List CollectedFile) : prependAll order dm i dirs fs = prependAll order' dm i dirs fs := by
  induction dirs generalizing i fs with
  | nil => simp [prependAll]
  | cons d dirs ih =>
      have hperm : (order.range i dm).Perm (order'.range i dm) := (order.perm i dm).trans (order'.perm i dm).symm
      rw [prependAll, prependAll, dirsForSource_eq_of_perm hperm, ih]

/-! ## Wildcards, then files -/

theorem prependWildcards_eq (sourceDir : AbsPath) (ds : List (List Name)) (fs : List CollectedFile) :
    prependWildcards sourceDir ds fs = (ds.map fun relDir => ⟨relDir, sourceDir, true⟩).reverse ++ fs := by
  induction ds generalizing fs with
  | nil => simp [prependWildcards]
  | cons d ds ih =>
      rw [prependWildcards, List.foldl_cons, ← prependWildcards, ih]
      simp

theorem prependAll_append (order : MapOrder) (dm : DirsWithFiles) (i : Nat) (dirs : List AbsPath)
    (fs fs' : List CollectedFile) :
    prependAll order dm i dirs (fs ++ fs') = prependAll order dm i dirs fs ++ fs' := by
  induction dirs generalizing i fs with
  | nil => simp [prependAll]
  | cons d dirs ih =>
      rw [prependAll, prependAll, ← ih]
      simp [prependWildcards_eq]

theorem prependWildcards_nodup {sourceDir : AbsPath} {ds : List (List Name)} {fs : List CollectedFile}
    (hds : ds.Nodup) (hfs : fs.Nodup) (hnew : ∀ cf ∈ fs, cf.sourceDir ≠ sourceDir) :
    (prependWildcards sourceDir ds fs).Nodup := by
  rw [prependWildcards_eq]
  have hwild : (ds.map fun relDir => (⟨relDir, sourceDir, true⟩ : CollectedFile)).Nodup := by
    refine hds.map ?_
    intro d e h
    simpa using h
  refine (List.nodup_reverse.mpr hwild).append hfs ?_
  intro cf hcf hcf'
  obtain ⟨relDir, -, rfl⟩ := List.mem_map.mp (List.mem_reverse.mp hcf)
  exact hnew _ hcf' (Eq.refl _)

theorem prependAll_nodup (order : MapOrder) {dm : DirsWithFiles} (hdm : (dm.map Prod.fst).Nodup) {i : Nat}
    {dirs : List AbsPath} {fs : List CollectedFile} (hdirs : dirs.Nodup) (hfs : fs.Nodup)
    (hnew : ∀ cf ∈ fs, cf.sourceDir ∉ dirs) : (prependAll order dm i dirs fs).Nodup := by
  induction dirs generalizing i fs with
  | nil => exact hfs
  | cons d dirs ih =>
      rw [List.nodup_cons] at hdirs
      have hds : (dirsForSource (order.range i dm) d).Nodup := by
        have hrange : ((order.range i dm).map Prod.fst).Nodup := ((order.perm i dm).map Prod.fst).nodup_iff.mpr hdm
        exact (sortStrings_perm _).nodup_iff.mpr (hrange.sublist (List.filter_sublist.map Prod.fst))
      rw [prependAll]
      apply ih hdirs.2
      · apply prependWildcards_nodup hds hfs
        intro cf hcf heq
        exact hnew cf hcf (heq ▸ List.mem_cons_self)
      · intro cf hcf hmem
        rcases mem_prependWildcards.mp hcf with ⟨-, rfl, -⟩ | hcf
        · exact hdirs.1 hmem
        · exact hnew cf hcf (List.mem_cons_of_mem d hmem)

/-- The wildcard entries that are collected. -/
def wildcards (order : MapOrder) (m : Machine) (outputFileName : Text) (dirs : List AbsPath) : List CollectedFile :=
  prependAll order (walkDirs m outputFileName dirs).dirsWithFiles 0 dirs []

/-- The files that are collected. -/
def files (m : Machine) (outputFileName : Text) (dirs : List AbsPath) : List CollectedFile :=
  (visits m outputFileName dirs).map fun v => ⟨v.2, v.1, false⟩

variable {order : MapOrder}

theorem collect_eq : collect order m outputFileName dirs =
    wildcards order m outputFileName dirs ++ files m outputFileName dirs := by
  have hfiles : (walkDirs m outputFileName dirs).allFiles = files m outputFileName dirs := by
    rw [walkDirs_eq, allFiles_foldl_record, List.nil_append, files]
  rw [collect, hfiles, wildcards, ← prependAll_append, List.nil_append]

theorem isDirWild_of_mem_wildcards {cf : CollectedFile} (h : cf ∈ wildcards order m outputFileName dirs) :
    cf.isDirWild = true := by
  rcases mem_prependAll.mp h with ⟨hwild, -, -⟩ | h
  · exact hwild
  · simp at h

theorem isDirWild_of_mem_files {cf : CollectedFile} (h : cf ∈ files m outputFileName dirs) : cf.isDirWild = false := by
  obtain ⟨v, -, rfl⟩ := List.mem_map.mp h
  simp

theorem visits_nodup (hdirs : dirs.Nodup) (hproper : m.root.Proper) : (visits m outputFileName dirs).Nodup := by
  rw [visits, List.nodup_flatMap]
  constructor
  · intro d _
    refine (keptFiles_nodup hproper d).map ?_
    intro p q h
    simpa using h
  · refine hdirs.imp ?_
    intro d d' hne v hv hv'
    obtain ⟨p, -, rfl⟩ := List.mem_map.mp hv
    obtain ⟨p', -, heq⟩ := List.mem_map.mp hv'
    simp only [Prod.mk.injEq] at heq
    exact hne heq.1.symm

theorem collect_nodup (hdirs : dirs.Nodup) (hproper : m.root.Proper) : (collect order m outputFileName dirs).Nodup := by
  rw [collect_eq]
  have hwild : (wildcards order m outputFileName dirs).Nodup :=
    prependAll_nodup order walkDirs_nodup hdirs (by simp) (by simp)
  have hfiles : (files m outputFileName dirs).Nodup := by
    refine (visits_nodup hdirs hproper).map ?_
    rintro ⟨d, p⟩ ⟨d', p'⟩ h
    simp only [CollectedFile.mk.injEq, and_true] at h
    rw [h.1, h.2]
  refine hwild.append hfiles ?_
  intro cf hcf hcf'
  have htrue := isDirWild_of_mem_wildcards hcf
  rw [isDirWild_of_mem_files hcf'] at htrue
  simp at htrue

/-! ## The list -/

/-- The collected list, for every order of the map. A wildcard entry stands for a directory below its input directory,
    which itself has none. -/
structure CollectedRight (m : Machine) (outputFileName : Text) (dirs : List AbsPath) : Prop where
  wildcard : ∀ order, ∀ d ∈ dirs, ∀ relDir, relDir ≠ [] → HasFiles m outputFileName d relDir →
    (collect order m outputFileName dirs).count ⟨relDir, d, true⟩ = 1
  noOther : ∀ order, ∀ cf ∈ collect order m outputFileName dirs, cf.isDirWild = true →
    cf.sourceDir ∈ dirs ∧ cf.relPath ≠ [] ∧ HasFiles m outputFileName cf.sourceDir cf.relPath
  file : ∀ order, ∀ d ∈ dirs, ∀ p ∈ keptFiles m outputFileName d,
    (collect order m outputFileName dirs).count ⟨p, d, false⟩ = 1
  noOtherFile : ∀ order, ∀ cf ∈ collect order m outputFileName dirs, cf.isDirWild = false →
    cf.sourceDir ∈ dirs ∧ cf.relPath ∈ keptFiles m outputFileName cf.sourceDir
  wildcardsFirst : ∀ order, ∃ ws fs, collect order m outputFileName dirs = ws ++ fs ∧
    (∀ cf ∈ ws, cf.isDirWild = true) ∧ ∀ cf ∈ fs, cf.isDirWild = false
  sameForAllOrders : ∀ order order', collect order m outputFileName dirs = collect order' m outputFileName dirs

/-- **The collected list is right** exactly when no two input directories directly contain kept files under one relative
    directory. -/
theorem collectedRight_iff (hdirs : dirs.Nodup) (hproper : m.root.Proper) :
    CollectedRight m outputFileName dirs ↔ Apart m outputFileName dirs := by
  constructor
  · intro h d hd d' hd' relDir hne hfiles hfiles'
    have hmem : ∀ d ∈ dirs, HasFiles m outputFileName d relDir →
        (relDir, d) ∈ (walkDirs m outputFileName dirs).dirsWithFiles := by
      intro d hd hfiles
      have hcount := h.wildcard asSet d hd relDir hne hfiles
      have hcf : (⟨relDir, d, true⟩ : CollectedFile) ∈ collect asSet m outputFileName dirs :=
        List.count_pos_iff.mp (by omega)
      rcases mem_collect.mp hcf with ⟨-, -, hmem⟩ | ⟨hfile, -⟩
      · exact hmem
      · simp at hfile
    -- the map has one place for the two
    have heq := List.inj_on_of_nodup_map walkDirs_nodup (hmem d hd hfiles) (hmem d' hd' hfiles') (Eq.refl _)
    simpa using heq
  · intro hapart
    constructor
    · intro order d hd relDir hne hfiles
      apply List.count_eq_one_of_mem (collect_nodup hdirs hproper)
      obtain ⟨d', hmem⟩ := exists_mem_of_hasFiles hd hne hfiles
      obtain ⟨hd', -, hfiles'⟩ := hasFiles_of_mem hmem
      have heq : d = d' := hapart d hd d' hd' relDir hne hfiles hfiles'
      exact mem_collect.mpr (Or.inl ⟨Eq.refl _, hd, heq ▸ hmem⟩)
    · intro order cf hcf hwild
      rcases mem_collect.mp hcf with ⟨-, -, hmem⟩ | ⟨hfile, -⟩
      · exact hasFiles_of_mem hmem
      · simp [hwild] at hfile
    · intro order d hd p hp
      apply List.count_eq_one_of_mem (collect_nodup hdirs hproper)
      exact mem_collect.mpr (Or.inr ⟨Eq.refl _, hd, hp⟩)
    · intro order cf hcf hfile
      rcases mem_collect.mp hcf with ⟨hwild, -⟩ | ⟨-, hd, hp⟩
      · simp [hfile] at hwild
      · exact ⟨hd, hp⟩
    · intro order
      exact ⟨_, _, collect_eq, fun cf => isDirWild_of_mem_wildcards, fun cf => isDirWild_of_mem_files⟩
    · intro order order'
      exact prependAll_order order order' _ 0 dirs _

/-! ## Two input directories -/

def web : Name := ⟨"web".toList, by decide, by decide, by decide, by decide⟩

def admin : Name := ⟨"admin".toList, by decide, by decide, by decide, by decide⟩

/-- `/web/js/app.js` and `/admin/js/app.js`. -/
def twoApps : Machine where
  cwd := []
  root := .dir [(web, .dir [(js, .dir [(appJs, .file ⟨[], 0⟩)])]), (admin, .dir [(js, .dir [(appJs, .file ⟨[], 0⟩)])])]

theorem twoApps_proper : twoApps.root.Proper := by
  simp [twoApps, Node.Proper, ProperEntries, web, admin]

def css : Name := ⟨"css".toList, by decide, by decide, by decide, by decide⟩

def appCss : Name := ⟨"app.css".toList, by decide, by decide, by decide, by decide⟩

/-- `/web/js/app.js` and `/admin/css/app.css`. -/
def scriptAndStyle : Machine where
  cwd := []
  root := .dir [(web, .dir [(js, .dir [(appJs, .file ⟨[], 0⟩)])]), (admin, .dir [(css, .dir [(appCss, .file ⟨[], 0⟩)])])]

theorem scriptAndStyle_proper : scriptAndStyle.root.Proper := by
  simp [scriptAndStyle, Node.Proper, ProperEntries, web, admin]

/-- Two input directories whose directories have different names. -/
theorem collectedRight_web : CollectedRight scriptAndStyle "assets.go".toList [[web], [admin]] := by
  refine (collectedRight_iff (by decide) scriptAndStyle_proper).mpr ?_
  have hweb : ∀ relDir, HasFiles scriptAndStyle "assets.go".toList [web] relDir → relDir = [js] := by
    rintro relDir ⟨p, hp, rfl⟩
    have hkept : keptFiles scriptAndStyle "assets.go".toList [web] = [[js, appJs]] := by decide
    rw [hkept] at hp
    rw [List.mem_singleton.mp hp]
    rfl
  have hadmin : ∀ relDir, HasFiles scriptAndStyle "assets.go".toList [admin] relDir → relDir = [css] := by
    rintro relDir ⟨p, hp, rfl⟩
    have hkept : keptFiles scriptAndStyle "assets.go".toList [admin] = [[css, appCss]] := by decide
    rw [hkept] at hp
    rw [List.mem_singleton.mp hp]
    rfl
  intro d hd d' hd' relDir _ hfiles hfiles'
  have hne : [js] ≠ [css] := by decide
  rcases List.mem_pair.mp hd with rfl | rfl
  · rcases List.mem_pair.mp hd' with rfl | rfl
    · rfl
    · exact absurd ((hweb _ hfiles).symm.trans (hadmin _ hfiles')) hne
  · rcases List.mem_pair.mp hd' with rfl | rfl
    · exact absurd ((hweb _ hfiles').symm.trans (hadmin _ hfiles)) hne
    · rfl

/-- **Both.** `/web/js` has no entry. -/
theorem not_collectedRight : ¬∀ (m : Machine) (outputFileName : Text) (dirs : List AbsPath), dirs.Nodup → m.root.Proper →
    CollectedRight m outputFileName dirs := by
  intro h
  have hfiles : HasFiles twoApps "assets.go".toList [web] [js] := ⟨[js, appJs], by decide, by decide⟩
  have hcount := (h twoApps "assets.go".toList [[web], [admin]] (by decide) twoApps_proper).wildcard asSet [web]
    (by decide) [js] (by decide) hfiles
  exact absurd hcount (by decide)

end Templatefile
end ServiceKit
