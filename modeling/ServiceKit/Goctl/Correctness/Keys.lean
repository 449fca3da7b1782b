import ServiceKit.Lib.Run
import ServiceKit.Goctl.TableDefinition

/-!
# `Keys` — the keys that `Parse` collects

`Parse` files the unique keys under names that are joined from the names of their columns, and finds the primary key
only in the constraints of the table. Of the keys with one joined name the last stays (`lastUnder`); once the primary
key is found, that is what `uniqueKeyMap` has (`mem_uniqueKeyMap`).
-/

namespace ServiceKit
namespace Goctl

open Lib Ddl Goctl.Parser

variable {C : Collation}

/-! ## Names of indexes -/

theorem indexNameGen_append {key : List Text} (hkey : key ≠ []) (suffix : Text) :
    indexNameGen (key ++ [suffix]) = indexNameGen key ++ '_' :: suffix := by
  induction key with
  | nil => exact absurd (Eq.refl _) hkey
  | cons n key ih =>
      cases key with
      | nil => simp [indexNameGen, List.intercalate]
      | cons m key =>
          have htail := ih (List.cons_ne_nil m key)
          simp only [indexNameGen, List.cons_append, List.intercalate_cons_cons] at htail ⊢
          rw [htail, List.append_assoc, List.append_assoc, List.append_assoc]

/-- The name that a unique key is filed under. -/
def uniqueName (key : List Text) : Text := indexNameGen (key ++ ["unique".toList])

theorem uniqueName_eq_iff {key other : List Text} (hkey : key ≠ []) (hother : other ≠ []) :
    uniqueName key = uniqueName other ↔ indexNameGen key = indexNameGen other := by
  rw [uniqueName, uniqueName, indexNameGen_append hkey, indexNameGen_append hother, List.append_left_inj]

theorem indexNameGen_singleton (n : Text) : indexNameGen [n] = n := by simp [indexNameGen, List.intercalate]

theorem uniqueName_ne_idx {key : List Text} (hkey : key ≠ []) (p : Text) :
    uniqueName key ≠ indexNameGen [p, "idx".toList] := by
  intro h
  have hp : indexNameGen [p, "idx".toList] = p ++ '_' :: "idx".toList := by
    have hsplit := indexNameGen_append (List.cons_ne_nil p []) "idx".toList
    rwa [indexNameGen_singleton] at hsplit
  rw [uniqueName, indexNameGen_append hkey, hp] at h
  have hlast := congrArg List.getLast? h
  have hleft : ('_' :: "unique".toList).getLast? = some 'e' := by decide
  have hright : ('_' :: "idx".toList).getLast? = some 'x' := by decide
  rw [List.getLast?_append, List.getLast?_append, hleft, hright] at hlast
  simp at hlast

/-! ## Collecting -/

/-- What a column adds to `uniqueKeyMap`. -/
def columnEntries (c : Ddl.Column) : List (Text × List Text) :=
  (if c.declares ColumnConstraint.unique then [(uniqueName [c.name], [c.name])] else []) ++
    if c.declares ColumnConstraint.key then [(indexNameGen [c.name, "idx".toList], [c.name])] else []

/-- What a constraint of the table adds. -/
def constraintEntries (e : TableConstraint) : List (Text × List Text) :=
  if e.columnUniqueKey ≠ [] then [(uniqueName e.columnUniqueKey, e.columnUniqueKey)] else []

theorem keysOfColumn_eq (s : Keys) (c : Ddl.Column) :
    (keysOfColumn s c).primaryColumn = s.primaryColumn ∧
      (keysOfColumn s c).uniqueKeyMap = putAll s.uniqueKeyMap (columnEntries c) := by
  cases hc : c.constraint with
  | none => simp [keysOfColumn, columnEntries, Ddl.Column.declares, hc, putAll]
  | some k =>
      cases hprimary : k.primary <;> cases hunique : k.unique <;> cases hkey : k.key <;>
        simp [keysOfColumn, columnEntries, Ddl.Column.declares, hc, hprimary, hunique, hkey, putAll, uniqueName]

theorem putAll_append (m : GoMap Text (List Text)) (es fs : List (Text × List Text)) :
    putAll m (es ++ fs) = putAll (putAll m es) fs := by simp [putAll]

theorem foldl_keysOfColumn (s : Keys) (columns : List Ddl.Column) :
    (columns.foldl keysOfColumn s).primaryColumn = s.primaryColumn ∧
      (columns.foldl keysOfColumn s).uniqueKeyMap = putAll s.uniqueKeyMap (columns.flatMap columnEntries) := by
  induction columns generalizing s with
  | nil => simp [putAll]
  | cons c columns ih =>
      obtain ⟨hprimary, hmap⟩ := keysOfColumn_eq s c
      obtain ⟨hprimaries, hmaps⟩ := ih (keysOfColumn s c)
      rw [List.foldl_cons, List.flatMap_cons, putAll_append, ← hmap, hprimaries, hmaps]
      exact ⟨hprimary, Eq.refl _⟩

theorem withPrimary_eq (s : Keys) {key : List Text} (h : ¬key.length > 1) :
    (withPrimary s key).primaryColumn = key.getLast?.getD s.primaryColumn ∧
      (withPrimary s key).uniqueKeyMap = s.uniqueKeyMap := by
  match key with
  | [] => simp [withPrimary]
  | [p] => simp [withPrimary]
  | p :: q :: rest => simp at h

theorem keysOfConstraint_ok {fileName : Text} {s s' : Keys} {e : TableConstraint}
    (h : keysOfConstraint fileName s e = .ok s') :
    s'.primaryColumn = e.columnPrimaryKey.getLast?.getD s.primaryColumn ∧
      s'.uniqueKeyMap = putAll s.uniqueKeyMap (constraintEntries e) := by
  unfold keysOfConstraint at h
  split at h
  · cases h
  · next hlen =>
      obtain ⟨hprimary, hmap⟩ := withPrimary_eq s hlen
      split at h
      · next hunique =>
          have hne : e.columnUniqueKey ≠ [] := List.ne_nil_of_length_pos hunique
          cases h
          rw [constraintEntries, if_pos hne]
          exact ⟨hprimary, congrArg (AList.insert _ _) hmap⟩
      · next hunique =>
          have hnil : e.columnUniqueKey = [] := List.length_eq_zero_iff.mp (Nat.eq_zero_of_not_pos hunique)
          cases h
          rw [constraintEntries, if_neg (by simp [hnil])]
          exact ⟨hprimary, hmap⟩

theorem foldlM_keysOfConstraint {fileName : Text} {s s' : Keys} {constraints : List TableConstraint}
    (h : constraints.foldlM (keysOfConstraint fileName) s = .ok s') :
    s'.primaryColumn = (constraints.flatMap TableConstraint.columnPrimaryKey).getLast?.getD s.primaryColumn ∧
      s'.uniqueKeyMap = putAll s.uniqueKeyMap (constraints.flatMap constraintEntries) := by
  induction constraints generalizing s with
  | nil =>
      cases h
      simp [putAll]
  | cons e constraints ih =>
      rw [List.foldlM_cons] at h
      cases hstep : keysOfConstraint fileName s e with
      | error failure =>
          rw [hstep] at h
          cases h
      | ok s₁ =>
          rw [hstep] at h
          obtain ⟨hprimary, hmap⟩ := keysOfConstraint_ok hstep
          obtain ⟨hprimaries, hmaps⟩ := ih h
          rw [List.flatMap_cons, List.flatMap_cons, putAll_append, ← hmap, List.getLast?_append, hprimaries, hmaps,
            hprimary]
          refine ⟨?_, Eq.refl _⟩
          cases (constraints.flatMap TableConstraint.columnPrimaryKey).getLast? <;> simp

/-- All that is put into `uniqueKeyMap`, in order. -/
def keyEntries (t : Ddl.Table) : List (Text × List Text) :=
  t.columns.flatMap columnEntries ++ t.constraints.flatMap constraintEntries

/-- What `collectKeys` gives for a table. -/
theorem collectKeys_ok {fileName : Text} {t : Ddl.Table} {keys : Keys} (h : collectKeys fileName t = .ok keys) :
    keys.primaryColumn = (t.constraints.flatMap TableConstraint.columnPrimaryKey).getLast?.getD [] ∧
      keys.uniqueKeyMap = ((putAll ∅ (keyEntries t)).erase (indexNameGen [keys.primaryColumn, "idx".toList])).erase
        (uniqueName [keys.primaryColumn]) := by
  obtain ⟨s, hstep, h⟩ := bind_ok_iff.mp h
  obtain ⟨hprimary, hmap⟩ := foldl_keysOfColumn ⟨[], ∅, ∅⟩ t.columns
  obtain ⟨hprimaries, hmaps⟩ := foldlM_keysOfConstraint hstep
  rw [hprimary] at hprimaries
  rw [hmap, ← putAll_append] at hmaps
  split at h
  · cases h
  · cases h
    refine ⟨hprimaries, ?_⟩
    rw [keyEntries, ← hmaps]
    exact Eq.refl _

/-! ## Tables that are refused -/

/-- The names that are counted: those of the columns that are written `PRIMARY KEY`, and those in the constraints. -/
def countedNames (t : Ddl.Table) : List Text :=
  (t.columns.filter fun c => c.declares ColumnConstraint.primary).map Ddl.Column.name ++
    t.constraints.flatMap TableConstraint.columnPrimaryKey

/-- No constraint has a primary key of several columns, and all that count have one name. -/
structure OneName (t : Ddl.Table) : Prop where
  single : ∀ e ∈ t.constraints, ¬e.columnPrimaryKey.length > 1
  same : ∀ m ∈ countedNames t, ∀ n ∈ countedNames t, m = n

theorem mem_keysOfColumn {s : Keys} {c : Ddl.Column} {n : Text} :
    n ∈ (keysOfColumn s c).primaryColumnSet ↔
      n ∈ s.primaryColumnSet ∨ c.declares ColumnConstraint.primary = true ∧ n = c.name := by
  cases hc : c.constraint with
  | none => simp [keysOfColumn, Ddl.Column.declares, hc]
  | some k =>
      cases hprimary : k.primary <;> cases hunique : k.unique <;> cases hkey : k.key <;>
        simp [keysOfColumn, Ddl.Column.declares, hc, hprimary, hunique, hkey, or_comm]

theorem mem_foldl_keysOfColumn {s : Keys} {columns : List Ddl.Column} {n : Text} :
    n ∈ (columns.foldl keysOfColumn s).primaryColumnSet ↔
      n ∈ s.primaryColumnSet ∨
        n ∈ (columns.filter fun c => c.declares ColumnConstraint.primary).map Ddl.Column.name := by
  induction columns generalizing s with
  | nil => simp
  | cons c columns ih =>
      rw [List.foldl_cons, ih, mem_keysOfColumn]
      cases hprimary : c.declares ColumnConstraint.primary with
      | false => simp [hprimary]
      | true => simp [hprimary, or_assoc]

theorem mem_withPrimary {s : Keys} {key : List Text} (h : ¬key.length > 1) {n : Text} :
    n ∈ (withPrimary s key).primaryColumnSet ↔ n ∈ s.primaryColumnSet ∨ n ∈ key := by
  match key with
  | [] => simp [withPrimary]
  | [p] => simp [withPrimary, or_comm]
  | p :: q :: rest => simp at h

/-- A constraint is refused for the number of its columns only. -/
theorem keysOfConstraint_iff {fileName : Text} {s : Keys} {e : TableConstraint} :
    (∃ s', keysOfConstraint fileName s e = .ok s') ↔ ¬e.columnPrimaryKey.length > 1 := by
  unfold keysOfConstraint
  split
  · next hlen => simp [hlen]
  · next hlen => split <;> simp [hlen]

theorem mem_keysOfConstraint {fileName : Text} {s s' : Keys} {e : TableConstraint}
    (h : keysOfConstraint fileName s e = .ok s') {n : Text} :
    n ∈ s'.primaryColumnSet ↔ n ∈ s.primaryColumnSet ∨ n ∈ e.columnPrimaryKey := by
  unfold keysOfConstraint at h
  split at h
  · cases h
  · next hlen =>
      rw [← mem_withPrimary hlen]
      split at h
      · cases h
        exact Iff.rfl
      · cases h
        exact Iff.rfl

theorem foldlM_keysOfConstraint_iff {fileName : Text} {s : Keys} {constraints : List TableConstraint} :
    (∃ s', constraints.foldlM (keysOfConstraint fileName) s = .ok s') ↔
      ∀ e ∈ constraints, ¬e.columnPrimaryKey.length > 1 := by
  induction constraints generalizing s with
  | nil => exact ⟨fun _ => List.forall_mem_nil _, fun _ => ⟨s, Eq.refl _⟩⟩
  | cons e constraints ih =>
      rw [List.foldlM_cons, List.forall_mem_cons]
      constructor
      · rintro ⟨s', h⟩
        obtain ⟨s₁, hstep, hrest⟩ := bind_ok_iff.mp h
        exact ⟨keysOfConstraint_iff.mp ⟨s₁, hstep⟩, ih.mp ⟨s', hrest⟩⟩
      · rintro ⟨hhead, htail⟩
        obtain ⟨s₁, hstep⟩ := keysOfConstraint_iff.mpr hhead
        obtain ⟨s', hrest⟩ := ih.mpr htail
        exact ⟨s', bind_ok_iff.mpr ⟨s₁, hstep, hrest⟩⟩

theorem mem_foldlM_keysOfConstraint {fileName : Text} {s s' : Keys} {constraints : List TableConstraint}
    (h : constraints.foldlM (keysOfConstraint fileName) s = .ok s') {n : Text} :
    n ∈ s'.primaryColumnSet ↔
      n ∈ s.primaryColumnSet ∨ n ∈ constraints.flatMap TableConstraint.columnPrimaryKey := by
  induction constraints generalizing s with
  | nil =>
      cases h
      simp
  | cons e constraints ih =>
      rw [List.foldlM_cons] at h
      obtain ⟨s₁, hstep, hrest⟩ := bind_ok_iff.mp h
      rw [ih hrest, mem_keysOfConstraint hstep, List.flatMap_cons, List.mem_append, or_assoc]

/-- The keys of a table are collected where one name counts. -/
theorem collectKeys_iff {fileName : Text} {t : Ddl.Table} :
    (∃ keys, collectKeys fileName t = .ok keys) ↔ OneName t := by
  have hcard : ∀ s, t.constraints.foldlM (keysOfConstraint fileName) (t.columns.foldl keysOfColumn ⟨[], ∅, ∅⟩) = .ok s →
      (¬s.primaryColumnSet.card > 1 ↔ ∀ m ∈ countedNames t, ∀ n ∈ countedNames t, m = n) := by
    intro s hs
    have hmem : ∀ n, n ∈ s.primaryColumnSet ↔ n ∈ countedNames t := by
      intro n
      rw [mem_foldlM_keysOfConstraint hs, mem_foldl_keysOfColumn, countedNames, List.mem_append]
      simp
    rw [not_lt, Finset.card_le_one]
    simp only [hmem]
  constructor
  · rintro ⟨keys, h⟩
    obtain ⟨s, hs, h⟩ := bind_ok_iff.mp h
    refine ⟨foldlM_keysOfConstraint_iff.mp ⟨s, hs⟩, (hcard s hs).mp ?_⟩
    intro hmany
    rw [if_pos hmany] at h
    cases h
  · rintro ⟨hsingle, hsame⟩
    obtain ⟨s, hs⟩ := foldlM_keysOfConstraint_iff.mpr hsingle
    refine ⟨_, bind_ok_iff.mpr ⟨s, hs, if_neg ((hcard s hs).mpr hsame)⟩⟩

/-! ## The primary key -/

theorem flatten_filter_ne_nil (keys : List (List Text)) : (keys.filter (· ≠ [])).flatten = keys.flatten := by
  induction keys with
  | nil => exact Eq.refl _
  | cons key keys ih =>
      cases key with
      | nil => simpa using ih
      | cons n key => simpa using ih

/-- The primary key is written on its column, or it is a constraint of the table. -/
theorem TableDefinition.primary_cases (d : TableDefinition C) :
    d.table.constraints.flatMap TableConstraint.columnPrimaryKey = [] ∨
      (∀ c ∈ d.table.columns, c.declares ColumnConstraint.key = false) ∧
        ∃ written, d.table.constraints.flatMap TableConstraint.columnPrimaryKey = [written] ∧
          resolve C d.table written = some d.primaryKey := by
  obtain ⟨written, hkeys, hresolve⟩ := d.primary
  have hflat : d.table.constraints.flatMap TableConstraint.columnPrimaryKey =
      ((d.table.constraints.map TableConstraint.columnPrimaryKey).filter (· ≠ [])).flatten := by
    rw [flatten_filter_ne_nil, List.flatMap_def]
  rw [Ddl.Table.primaryKeys, List.append_eq_singleton_iff] at hkeys
  rw [hflat]
  rcases hkeys with ⟨hcolumns, hconstraints⟩ | ⟨hcolumns, hconstraints⟩
  · refine Or.inr ⟨?_, written, by rw [hconstraints]; exact Eq.refl _, hresolve⟩
    intro c hc
    have hfilter := List.filter_eq_nil_iff.mp (List.map_eq_nil_iff.mp hcolumns) c hc
    simp only [Bool.or_eq_true, not_or, Bool.not_eq_true] at hfilter
    exact hfilter.2
  · exact Or.inl (by rw [hconstraints]; exact Eq.refl _)

/-- A column is found under its own name. -/
theorem TableDefinition.eq_of_same (d : TableDefinition C) {c e : Ddl.Column} (hc : c ∈ d.table.columns)
    (he : e ∈ d.table.columns) (h : C.same c.name e.name = true) : c = e := by
  by_contra hne
  have hsymm : Std.Symm fun c d : Ddl.Column => C.same c.name d.name = false :=
    ⟨fun c d hcd => (C.symm d.name c.name).trans hcd⟩
  have hdistinct := d.distinct.forall hc he hne
  rw [h] at hdistinct
  cases hdistinct

theorem TableDefinition.resolve_eq_some (d : TableDefinition C) {written name : Text} :
    resolve C d.table written = some name ↔ ∃ c ∈ d.table.columns, C.same c.name written = true ∧ c.name = name := by
  unfold resolve
  constructor
  · intro h
    obtain ⟨c, hfind, hname⟩ := Option.map_eq_some_iff.mp h
    exact ⟨c, List.mem_of_find?_eq_some hfind, by simpa using List.find?_some hfind, hname⟩
  · rintro ⟨c, hc, hsame, hname⟩
    cases hfind : d.table.columns.find? (fun c => C.same c.name written) with
    | none =>
        have hnone := List.find?_eq_none.mp hfind c hc
        exact absurd hsame hnone
    | some e =>
        have hfound : C.same e.name written = true := by simpa using List.find?_some hfind
        have hboth : C.same c.name e.name = true := by
          refine C.trans _ _ _ hsame ?_
          rw [C.symm]
          exact hfound
        have heq := d.eq_of_same hc (List.mem_of_find?_eq_some hfind) hboth
        rw [Option.map_some, ← heq, hname]

theorem TableDefinition.resolve_name (d : TableDefinition C) {c : Ddl.Column} (hc : c ∈ d.table.columns) :
    resolve C d.table c.name = some c.name := d.resolve_eq_some.mpr ⟨c, hc, C.refl c.name, Eq.refl _⟩

/-- Columns that the database tells apart have names of their own. -/
theorem Collation.nodup_names (C : Collation) {columns : List Ddl.Column}
    (h : columns.Pairwise fun c d => C.same c.name d.name = false) : (columns.map Ddl.Column.name).Nodup := by
  refine List.pairwise_map.mpr (h.imp ?_)
  intro c e hdistinct heq
  rw [heq, C.refl] at hdistinct
  cases hdistinct

theorem TableDefinition.nodup_names (d : TableDefinition C) : (d.table.columns.map Ddl.Column.name).Nodup :=
  C.nodup_names d.distinct

theorem TableDefinition.exists_primary (d : TableDefinition C) :
    ∃ c ∈ d.table.columns, c.name = d.primaryKey := by
  obtain ⟨written, -, hresolve⟩ := d.primary
  obtain ⟨c, hc, -, hname⟩ := d.resolve_eq_some.mp hresolve
  exact ⟨c, hc, hname⟩

/-! ## The unique keys -/

/-- The last unique key that is declared under the joined name of `key`. -/
def lastUnder (t : Ddl.Table) (key : List Text) : Option (List Text) :=
  (t.uniqueKeys.filter fun k => indexNameGen k = indexNameGen key).getLast?

theorem ne_nil_of_mem_uniqueKeys {t : Ddl.Table} {key : List Text} (h : key ∈ t.uniqueKeys) : key ≠ [] := by
  rcases List.mem_append.mp h with h | h
  · obtain ⟨c, -, rfl⟩ := List.mem_map.mp h
    exact List.cons_ne_nil c.name []
  · exact of_decide_eq_true (List.mem_filter.mp h).2

theorem mem_columnEntries {c : Ddl.Column} {e : Text × List Text} (h : e ∈ columnEntries c) :
    c.declares ColumnConstraint.unique = true ∧ e = (uniqueName [c.name], [c.name]) ∨
      c.declares ColumnConstraint.key = true ∧ e = (indexNameGen [c.name, "idx".toList], [c.name]) := by
  rcases List.mem_append.mp h with h | h
  · obtain ⟨hunique, rfl⟩ := List.mem_ite_nil_right.mp h |>.imp_right List.mem_singleton.mp
    exact Or.inl ⟨hunique, Eq.refl _⟩
  · obtain ⟨hkey, rfl⟩ := List.mem_ite_nil_right.mp h |>.imp_right List.mem_singleton.mp
    exact Or.inr ⟨hkey, Eq.refl _⟩

/-- What is put into `uniqueKeyMap` is a unique key, or a column that is written `KEY`. -/
theorem mem_keyEntries {t : Ddl.Table} {e : Text × List Text} (h : e ∈ keyEntries t) :
    (∃ key ∈ t.uniqueKeys, e = (uniqueName key, key)) ∨
      ∃ c ∈ t.columns, c.declares ColumnConstraint.key = true ∧ e = (indexNameGen [c.name, "idx".toList], [c.name]) := by
  rcases List.mem_append.mp h with h | h
  · obtain ⟨c, hc, he⟩ := List.mem_flatMap.mp h
    rcases mem_columnEntries he with ⟨hunique, rfl⟩ | ⟨hkey, rfl⟩
    · refine Or.inl ⟨[c.name], ?_, Eq.refl _⟩
      exact List.mem_append_left _ (List.mem_map.mpr ⟨c, List.mem_filter.mpr ⟨hc, hunique⟩, Eq.refl _⟩)
    · exact Or.inr ⟨c, hc, hkey, Eq.refl _⟩
  · obtain ⟨k, hk, he⟩ := List.mem_flatMap.mp h
    obtain ⟨hne, rfl⟩ := List.mem_ite_nil_right.mp he |>.imp_right List.mem_singleton.mp
    refine Or.inl ⟨k.columnUniqueKey, ?_, Eq.refl _⟩
    exact List.mem_append_right _ (List.mem_filter.mpr ⟨List.mem_map.mpr ⟨k, hk, Eq.refl _⟩, by simpa using hne⟩)

/-- Under the name of a unique key, there are unique keys only. -/
theorem filter_keyEntries {t : Ddl.Table} {keep : Text × List Text → Bool}
    (hidx : ∀ m key, keep (indexNameGen [m, "idx".toList], key) = false) :
    (keyEntries t).filter keep = (t.uniqueKeys.map fun key => (uniqueName key, key)).filter keep := by
  have hcolumn : ∀ c : Ddl.Column, (columnEntries c).filter keep =
      (if c.declares ColumnConstraint.unique then [(uniqueName [c.name], [c.name])] else []).filter keep := by
    intro c
    have hnone : (if c.declares ColumnConstraint.key then
        [(indexNameGen [c.name, "idx".toList], [c.name])] else []).filter keep = [] := by
      split
      · rw [List.filter_singleton, hidx, cond_false]
      · exact List.filter_nil
    rw [columnEntries, List.filter_append, hnone, List.append_nil]
  have hcolumns : (t.columns.flatMap columnEntries).filter keep =
      (((t.columns.filter fun c => c.declares ColumnConstraint.unique).map (fun c => [c.name])).map
        fun key => (uniqueName key, key)).filter keep := by
    rw [List.map_map]
    induction t.columns with
    | nil => exact Eq.refl _
    | cons c columns ih =>
        rw [List.flatMap_cons, List.filter_append, ih, hcolumn]
        cases hunique : c.declares ColumnConstraint.unique with
        | false => simp [hunique]
        | true =>
            have hhead : (c :: columns).filter (fun c => c.declares ColumnConstraint.unique) =
                c :: columns.filter fun c => c.declares ColumnConstraint.unique := List.filter_cons_of_pos hunique
            rw [if_pos (Eq.refl true), hhead, List.map_cons, ← List.filter_append]
            exact Eq.refl _
  have hconstraints : t.constraints.flatMap constraintEntries =
      ((t.constraints.map TableConstraint.columnUniqueKey).filter (· ≠ [])).map fun key => (uniqueName key, key) := by
    induction t.constraints with
    | nil => exact Eq.refl _
    | cons e constraints ih =>
        rw [List.flatMap_cons, ih, constraintEntries]
        by_cases hne : e.columnUniqueKey ≠ []
        · simp [hne]
        · simp [not_not.mp hne]
  rw [keyEntries, Ddl.Table.uniqueKeys, List.map_append, List.filter_append, List.filter_append, hcolumns, hconstraints]

/-- The last of the unique keys under one name. -/
theorem filter_uniqueName {t : Ddl.Table} {key : List Text} (hkey : key ≠ []) :
    ((keyEntries t).filter fun e => e.1 = uniqueName key).getLast?.map Prod.snd = lastUnder t key := by
  have hidx : ∀ (m : Text) (k : List Text),
      decide ((indexNameGen [m, "idx".toList], k).1 = uniqueName key) = false := fun m k =>
    decide_eq_false (uniqueName_ne_idx hkey m).symm
  rw [filter_keyEntries hidx, List.filter_map, List.getLast?_map, Option.map_map]
  have hfilter : t.uniqueKeys.filter
        ((fun e : Text × List Text => decide (e.1 = uniqueName key)) ∘ fun key => (uniqueName key, key)) =
      t.uniqueKeys.filter fun other => indexNameGen other = indexNameGen key := by
    refine List.filter_congr fun other hother => ?_
    exact decide_eq_decide.mpr (uniqueName_eq_iff (ne_nil_of_mem_uniqueKeys hother) hkey)
  rw [hfilter]
  show Option.map (fun k : List Text => k) _ = _
  rw [Option.map_id']
  exact Eq.refl _

section UniqueKeyMap

variable {fileName : Text} {t : Ddl.Table} {keys : Keys} (h : collectKeys fileName t = .ok keys)
include h

theorem mem_uniqueKeyMap_iff {n : Text} {key : List Text} :
    ⟨n, key⟩ ∈ keys.uniqueKeyMap.entries ↔
      n ≠ uniqueName [keys.primaryColumn] ∧ n ≠ indexNameGen [keys.primaryColumn, "idx".toList] ∧
        ((keyEntries t).filter fun e => e.1 = n).getLast?.map Prod.snd = some key := by
  obtain ⟨-, hmap⟩ := collectKeys_ok h
  rw [hmap, mem_entries_erase, mem_entries_erase, ← AList.mem_lookup_iff, lookup_putAll, AList.lookup_empty,
    Option.or_none, Option.mem_def]

theorem mem_uniqueKeyMap_unique {key : List Text} (hkey : key ∈ t.uniqueKeys) :
    ⟨uniqueName key, key⟩ ∈ keys.uniqueKeyMap.entries ↔
      lastUnder t key = some key ∧ indexNameGen key ≠ keys.primaryColumn := by
  have hne := ne_nil_of_mem_uniqueKeys hkey
  rw [mem_uniqueKeyMap_iff h, filter_uniqueName hne]
  have hname : uniqueName key ≠ uniqueName [keys.primaryColumn] ↔ indexNameGen key ≠ keys.primaryColumn := by
    rw [Ne, uniqueName_eq_iff hne (List.cons_ne_nil _ []), indexNameGen_singleton]
  rw [hname]
  exact ⟨fun hall => ⟨hall.2.2, hall.1⟩, fun hall => ⟨hall.2, uniqueName_ne_idx hne _, hall.1⟩⟩

/-- What `uniqueKeyMap` has: unique keys, and columns that are written `KEY`. -/
theorem uniqueKeyMap_cases {n : Text} {key : List Text} (he : ⟨n, key⟩ ∈ keys.uniqueKeyMap.entries) :
    key ∈ t.uniqueKeys ∧ n = uniqueName key ∨
      ∃ c ∈ t.columns, c.declares ColumnConstraint.key = true ∧ c.name ≠ keys.primaryColumn ∧ key = [c.name] := by
  obtain ⟨-, hidx, hlast⟩ := (mem_uniqueKeyMap_iff h).mp he
  obtain ⟨e, hfound, rfl⟩ := Option.map_eq_some_iff.mp hlast
  obtain ⟨hmem, hname⟩ := List.mem_filter.mp (List.mem_of_getLast? hfound)
  rcases mem_keyEntries hmem with ⟨key, hkey, rfl⟩ | ⟨c, hc, hdeclared, rfl⟩
  · exact Or.inl ⟨hkey, (of_decide_eq_true hname).symm⟩
  · refine Or.inr ⟨c, hc, hdeclared, ?_, Eq.refl _⟩
    intro heq
    have hn : indexNameGen [c.name, "idx".toList] = n := of_decide_eq_true hname
    rw [heq] at hn
    exact hidx hn.symm

/-- What `uniqueKeyMap` has, where the primary key is a constraint of the table. -/
theorem mem_uniqueKeyMap (hkeys : ∀ c ∈ t.columns, c.declares ColumnConstraint.key = false) {n : Text}
    {key : List Text} :
    ⟨n, key⟩ ∈ keys.uniqueKeyMap.entries ↔
      n = uniqueName key ∧ lastUnder t key = some key ∧ indexNameGen key ≠ keys.primaryColumn := by
  constructor
  · intro he
    rcases uniqueKeyMap_cases h he with ⟨hkey, rfl⟩ | ⟨c, hc, hdeclared, -⟩
    · exact ⟨Eq.refl _, (mem_uniqueKeyMap_unique h hkey).mp he⟩
    · rw [hkeys c hc] at hdeclared
      cases hdeclared
  · rintro ⟨rfl, hlast, hname⟩
    have hkey : key ∈ t.uniqueKeys := (List.mem_filter.mp (List.mem_of_getLast? hlast)).1
    exact (mem_uniqueKeyMap_unique h hkey).mpr ⟨hlast, hname⟩

end UniqueKeyMap

end Goctl
end ServiceKit
