import Mathlib.Logic.Function.Basic

/-!
# `Lib.Transactions` — a table and the transactions open on it

The committed rows by key, and for each open transaction the rows it has written. A transaction sees its own
rows over the committed ones, and nobody else sees them until it commits. What goes through the database
directly (`Conn.base`) is committed at once.
-/

namespace ServiceKit
namespace Lib

/-- Where a statement goes: to the database, or to a transaction on it. -/
inductive Conn (T : Type) where
  | base
  | tx (t : T)
  deriving DecidableEq

/-- The rows of a table, by key. -/
abbrev Rows (K X : Type) := K → Option X

/-- The rows that a transaction has written or, with `some none`, deleted. -/
abbrev Writes (K X : Type) := K → Option (Option X)

/-- The table as it is seen with the writes. -/
def Writes.over {K X : Type} (w : Writes K X) (rows : Rows K X) : Rows K X := fun k => (w k).getD (rows k)

structure Transactions (T K X : Type) where
  committed : Rows K X
  pending : T → Option (Writes K X)

namespace Transactions

variable {T K X : Type} [DecidableEq T] [DecidableEq K]

/-- What a statement sees; `none` for a transaction that is not open. -/
def read (s : Transactions T K X) : Conn T → Option (Rows K X)
  | .base => some s.committed
  | .tx t => (s.pending t).map (fun w => w.over s.committed)

/-- Write a row. -/
def write (s : Transactions T K X) (c : Conn T) (e : K × Option X) : Transactions T K X :=
  match c with
  | .base => { s with committed := Function.update s.committed e.1 e.2 }
  | .tx t =>
      { s with
        pending := Function.update s.pending t
          ((s.pending t).map (fun w => Function.update w e.1 (some e.2))) }

def writeAll (s : Transactions T K X) (c : Conn T) (es : List (K × Option X)) : Transactions T K X :=
  es.foldl (fun s e => s.write c e) s

def begin (s : Transactions T K X) (t : T) : Transactions T K X :=
  { s with pending := Function.update s.pending t (some fun _ => none) }

def commit (s : Transactions T K X) (t : T) : Transactions T K X :=
  match s.pending t with
  | none => s
  | some w => ⟨w.over s.committed, Function.update s.pending t none⟩

def rollback (s : Transactions T K X) (t : T) : Transactions T K X :=
  { s with pending := Function.update s.pending t none }

/-- The transaction has written rows. -/
def Dirty (s : Transactions T K X) (t : T) : Prop := ∃ w k, s.pending t = some w ∧ w k ≠ none

/-- It has written no row but the one with the key. -/
def WroteOnly (s : Transactions T K X) (t : T) (k : K) : Prop :=
  ∀ w k', s.pending t = some w → w k' ≠ none → k' = k

omit [DecidableEq T] [DecidableEq K] in
theorem Dirty.wroteOnly_eq {s : Transactions T K X} {t : T} (h : s.Dirty t) {k k' : K}
    (hk : s.WroteOnly t k) (hk' : s.WroteOnly t k') : k = k' := by
  obtain ⟨w, k₀, hw, hk₀⟩ := h
  exact (hk w k₀ hw hk₀).symm.trans (hk' w k₀ hw hk₀)

omit [DecidableEq T] [DecidableEq K] in
theorem wroteOnly_of_not_dirty {s : Transactions T K X} {t : T} (h : ¬ s.Dirty t) (k : K) : s.WroteOnly t k :=
  fun w k' hw hk' => absurd ⟨w, k', hw, hk'⟩ h

omit [DecidableEq T] [DecidableEq K] in
theorem clean_of_not_dirty {s : Transactions T K X} {t : T} (h : ¬ s.Dirty t) {w : Writes K X}
    (hw : s.pending t = some w) (k : K) : w k = none := by
  by_contra hk
  exact h ⟨w, k, hw, hk⟩

omit [DecidableEq T] [DecidableEq K] in
theorem WroteOnly.clean {s : Transactions T K X} {t : T} {k k' : K} {w : Writes K X} (h : s.WroteOnly t k)
    (hw : s.pending t = some w) (hne : k' ≠ k) : w k' = none := by
  by_contra hk'
  exact hne (h w k' hw hk')

/-! ## What a transaction leaves alone -/

/-- The two states differ in the transaction `t` at most. -/
structure SameBut (t : T) (s s' : Transactions T K X) : Prop where
  committed : s'.committed = s.committed
  pending : ∀ t', t' ≠ t → s'.pending t' = s.pending t'

omit [DecidableEq T] [DecidableEq K] in
theorem SameBut.refl (t : T) (s : Transactions T K X) : SameBut t s s := ⟨rfl, fun _ _ => rfl⟩

omit [DecidableEq T] [DecidableEq K] in
theorem SameBut.trans {t : T} {s s' s'' : Transactions T K X} (h : SameBut t s s')
    (h' : SameBut t s' s'') : SameBut t s s'' :=
  ⟨h'.committed.trans h.committed, fun t' hne => (h'.pending t' hne).trans (h.pending t' hne)⟩

theorem sameBut_write (s : Transactions T K X) (t : T) (e : K × Option X) :
    SameBut t s (s.write (.tx t) e) where
  committed := rfl
  pending t' hne := by simp [write, hne]

theorem sameBut_writeAll (s : Transactions T K X) (t : T) (es : List (K × Option X)) :
    SameBut t s (s.writeAll (.tx t) es) := by
  induction es generalizing s with
  | nil => exact .refl t s
  | cons e es ih => exact (sameBut_write s t e).trans (ih _)

omit [DecidableEq K] in
/-- **Rollback.** A transaction that ends so leaves the state in which it began. -/
theorem rollback_begin {s u : Transactions T K X} {t : T} (hfresh : s.pending t = none)
    (h : SameBut t (s.begin t) u) : u.rollback t = s := by
  have hpending : Function.update u.pending t none = s.pending := by
    funext t'
    by_cases ht : t' = t
    · subst ht
      rw [Function.update_self, hfresh]
    · rw [Function.update_of_ne ht, h.pending t' ht]
      simp [begin, ht]
  obtain ⟨committed, pending⟩ := s
  simp only [rollback, hpending, h.committed, begin]

/-! ## What a statement sees after another -/

theorem read_write_self {s : Transactions T K X} {c : Conn T} {rows : Rows K X} (h : s.read c = some rows)
    (e : K × Option X) : (s.write c e).read c = some (Function.update rows e.1 e.2) := by
  cases c with
  | base =>
      obtain rfl := Option.some.inj h
      rfl
  | tx t =>
      obtain ⟨w, hw, rfl⟩ := Option.map_eq_some_iff.mp h
      simp only [read, write, hw, Function.update_self, Option.map_some, Option.some.injEq]
      funext k
      by_cases hk : k = e.1
      · subst hk
        simp [Writes.over]
      · simp [Writes.over, hk]

omit [DecidableEq T] [DecidableEq K] in
/-- No other statement sees what a transaction writes. -/
theorem SameBut.read {t : T} {s s' : Transactions T K X} (h : SameBut t s s') {c : Conn T}
    (hne : c ≠ .tx t) : s'.read c = s.read c := by
  cases c with
  | base => exact congrArg some h.committed
  | tx t' =>
      have ht : t' ≠ t := fun ht => hne (congrArg Conn.tx ht)
      simp only [Transactions.read, h.pending t' ht, h.committed]

omit [DecidableEq T] [DecidableEq K] in
@[simp] theorem over_of_none {w : Writes K X} {k : K} (h : w k = none) (rows : Rows K X) :
    w.over rows k = rows k := by
  simp [Writes.over, h]

/-- A write changes one row, for whoever sees it. -/
theorem read_write_agree {s : Transactions T K X} {c c' : Conn T} {e : K × Option X} {rows' : Rows K X}
    (h : (s.write c e).read c' = some rows') :
    ∃ rows, s.read c' = some rows ∧ ∀ k, k ≠ e.1 → rows' k = rows k := by
  by_cases hc : c' = c
  · subst hc
    cases hrows : s.read c' with
    | none =>
        cases c' with
        | base => exact absurd hrows (by simp [read])
        | tx t =>
            have hclosed : s.pending t = none := by simpa [read] using hrows
            simp [write, read, hclosed] at h
    | some rows =>
        rw [read_write_self hrows] at h
        obtain rfl := Option.some.inj h
        exact ⟨rows, rfl, fun k hk => Function.update_of_ne hk ..⟩
  · cases c with
    | tx t =>
        rw [(sameBut_write s t e).read hc] at h
        exact ⟨rows', h, fun _ _ => rfl⟩
    | base =>
        cases c' with
        | base => exact absurd rfl hc
        | tx t =>
            obtain ⟨w, hw, rfl⟩ := Option.map_eq_some_iff.mp h
            have hw : s.pending t = some w := hw
            refine ⟨w.over s.committed, by simp [read, hw], ?_⟩
            intro k hk
            simp [write, Writes.over, hk]

theorem read_writeAll_agree {s : Transactions T K X} {c c' : Conn T} {es : List (K × Option X)}
    {rows' : Rows K X} (h : (s.writeAll c es).read c' = some rows') :
    ∃ rows, s.read c' = some rows ∧ ∀ k, (∀ e ∈ es, e.1 ≠ k) → rows' k = rows k := by
  induction es generalizing s with
  | nil => exact ⟨rows', h, fun _ _ => rfl⟩
  | cons e es ih =>
      obtain ⟨rows₁, hrows₁, hagree₁⟩ := ih h
      obtain ⟨rows, hrows, hagree⟩ := read_write_agree hrows₁
      refine ⟨rows, hrows, ?_⟩
      intro k hk
      have hrest : ∀ e' ∈ es, e'.1 ≠ k := fun e' hmem => hk e' (List.mem_cons_of_mem _ hmem)
      exact (hagree₁ k hrest).trans (hagree k (hk e List.mem_cons_self).symm)

/-- Writes of one row change it alone, for whoever reads the table. -/
theorem read_writeAll_key {s : Transactions T K X} {c c' : Conn T} {es : List (K × Option X)} {k : K}
    (hes : ∀ e ∈ es, e.1 = k) {rows' : Rows K X} (h : (s.writeAll c es).read c' = some rows') :
    ∃ rows, s.read c' = some rows ∧ ∀ k', k' ≠ k → rows' k' = rows k' := by
  obtain ⟨rows, hrows, hagree⟩ := read_writeAll_agree h
  refine ⟨rows, hrows, fun k' hne => hagree k' ?_⟩
  rintro e he rfl
  exact hne (hes e he)

/-! ## What a transaction has written after some writes -/

theorem pending_write (s : Transactions T K X) (c : Conn T) (e : K × Option X) (t : T) :
    (s.write c e).pending t =
      if c = .tx t then (s.pending t).map (fun w => Function.update w e.1 (some e.2)) else s.pending t := by
  cases c with
  | base => simp [write]
  | tx t' =>
      by_cases ht : t' = t
      · subst ht
        simp [write]
      · simp [write, ht, Ne.symm ht]

theorem Dirty.of_writeAll {s : Transactions T K X} {c : Conn T} {es : List (K × Option X)} {t : T}
    (h : (s.writeAll c es).Dirty t) (hc : c ≠ .tx t) : s.Dirty t := by
  induction es generalizing s with
  | nil => exact h
  | cons e es ih =>
      obtain ⟨w, k, hw, hk⟩ := ih h
      rw [pending_write, if_neg hc] at hw
      exact ⟨w, k, hw, hk⟩

theorem WroteOnly.writeAll {s : Transactions T K X} {c : Conn T} {es : List (K × Option X)} {t : T} {k : K}
    (h : s.WroteOnly t k) (hes : ∀ e ∈ es, e.1 = k) : (s.writeAll c es).WroteOnly t k := by
  induction es generalizing s with
  | nil => exact h
  | cons e es ih =>
      refine ih ?_ (fun e' he' => hes e' (List.mem_cons_of_mem _ he'))
      intro w' k' hw' hk'
      rw [pending_write] at hw'
      by_cases hc : c = .tx t
      · rw [if_pos hc] at hw'
        obtain ⟨w, hw, rfl⟩ := Option.map_eq_some_iff.mp hw'
        by_cases hke : k' = e.1
        · exact hke.trans (hes e List.mem_cons_self)
        · rw [Function.update_of_ne hke] at hk'
          exact h w k' hw hk'
      · rw [if_neg hc] at hw'
        exact h w' k' hw' hk'

/-- What a transaction has written stays written. -/
theorem WroteOnly.of_writeAll {s : Transactions T K X} {c : Conn T} {es : List (K × Option X)} {t : T} {k : K}
    (h : (s.writeAll c es).WroteOnly t k) : s.WroteOnly t k := by
  induction es generalizing s with
  | nil => exact h
  | cons e es ih =>
      have hone := ih h
      intro w k' hw hk'
      by_cases hc : c = .tx t
      · apply hone (Function.update w e.1 (some e.2)) k' (by simp [pending_write, hc, hw])
        by_cases hke : k' = e.1
        · simp [hke]
        · rwa [Function.update_of_ne hke]
      · exact hone w k' (by rw [pending_write, if_neg hc, hw]) hk'

/-! ## The end of a transaction -/

omit [DecidableEq K] in
theorem sameBut_rollback (s : Transactions T K X) (t : T) : SameBut t s (s.rollback t) where
  committed := rfl
  pending t' hne := by simp [rollback, hne]

omit [DecidableEq K] in
theorem read_rollback_self (s : Transactions T K X) (t : T) : (s.rollback t).read (.tx t) = none := by
  simp [rollback, read]

omit [DecidableEq K] in
theorem dirty_rollback {s : Transactions T K X} {t t' : T} : (s.rollback t).Dirty t' ↔ t' ≠ t ∧ s.Dirty t' := by
  by_cases ht : t' = t <;> simp [Dirty, rollback, ht]

omit [DecidableEq K] in
theorem wroteOnly_rollback {s : Transactions T K X} {t t' : T} {k : K} :
    (s.rollback t).WroteOnly t' k ↔ (t' ≠ t → s.WroteOnly t' k) := by
  by_cases ht : t' = t <;> simp [WroteOnly, rollback, ht]

omit [DecidableEq T] [DecidableEq K] in
/-- A transaction that has written nothing sees the committed rows. -/
theorem over_of_clean {w : Writes K X} (hclean : ∀ k, w k = none) (rows : Rows K X) : w.over rows = rows := by
  funext k
  simp [Writes.over, hclean k]

omit [DecidableEq K] in
/-- A transaction that has written nothing commits nothing. -/
theorem commit_of_clean {s : Transactions T K X} {t : T} {w : Writes K X} (hw : s.pending t = some w)
    (hclean : ∀ k, w k = none) : s.commit t = s.rollback t := by
  simp only [commit, hw, rollback, over_of_clean hclean]

omit [DecidableEq K] in
theorem commit_of_open {s : Transactions T K X} {t : T} {w : Writes K X} (hw : s.pending t = some w) :
    s.commit t = ⟨w.over s.committed, Function.update s.pending t none⟩ := by
  simp only [commit, hw]

omit [DecidableEq K] in
theorem pending_commit (s : Transactions T K X) (t : T) :
    (s.commit t).pending = Function.update s.pending t none := by
  cases hw : s.pending t with
  | some w => rw [commit_of_open hw]
  | none =>
      have hsame : s.commit t = s := by simp only [commit, hw]
      rw [hsame, ← hw, Function.update_eq_self]

omit [DecidableEq K] in
theorem dirty_commit {s : Transactions T K X} {t t' : T} : (s.commit t).Dirty t' ↔ t' ≠ t ∧ s.Dirty t' := by
  by_cases ht : t' = t <;> simp [Dirty, pending_commit, ht]

omit [DecidableEq K] in
theorem wroteOnly_commit {s : Transactions T K X} {t t' : T} {k : K} :
    (s.commit t).WroteOnly t' k ↔ (t' ≠ t → s.WroteOnly t' k) := by
  by_cases ht : t' = t <;> simp [WroteOnly, pending_commit, ht]

omit [DecidableEq K] in
/-- Another transaction sees the rows that were committed, under its own. -/
theorem read_commit_tx {s : Transactions T K X} {t t' : T} {w : Writes K X} (hw : s.pending t = some w)
    {rows' : Rows K X} (h : (s.commit t).read (.tx t') = some rows') :
    t' ≠ t ∧ ∃ w', s.pending t' = some w' ∧ rows' = w'.over (w.over s.committed) := by
  rw [commit_of_open hw] at h
  obtain ⟨w', hw', rfl⟩ := Option.map_eq_some_iff.mp h
  by_cases ht : t' = t
  · simp [ht] at hw'
  · simp only [Function.update_of_ne ht] at hw'
    exact ⟨ht, w', hw', rfl⟩

omit [DecidableEq K] in
/-- The commit of a transaction changes the rows that it has written, for whoever sees them. -/
theorem read_commit_agree {s : Transactions T K X} {t : T} {w : Writes K X} (hw : s.pending t = some w)
    {c : Conn T} {rows' : Rows K X} (h : (s.commit t).read c = some rows') :
    c ≠ .tx t ∧ ∃ rows, s.read c = some rows ∧ ∀ k, w k = none → rows' k = rows k := by
  cases c with
  | base =>
      rw [commit_of_open hw] at h
      obtain rfl := Option.some.inj h
      exact ⟨by simp, s.committed, rfl, fun k hk => over_of_none hk _⟩
  | tx t' =>
      obtain ⟨ht, w', hw', rfl⟩ := read_commit_tx hw h
      refine ⟨by simpa using ht, w'.over s.committed, by simp [read, hw'], ?_⟩
      intro k hk
      simp only [Writes.over, hk, Option.getD_none]

end Transactions

end Lib
end ServiceKit
