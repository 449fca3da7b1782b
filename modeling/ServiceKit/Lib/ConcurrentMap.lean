import Mathlib.Data.List.AList

/-!
# `Lib.ConcurrentMap` — a sharded map, seen as one map

The map that `cmap.New` builds: one entry per key, read by `get`, written by `set`, listed by `items`.
`items` is a snapshot in the order the entries are held; a Go `range` over it visits them in any order,
so what iterates over the items is stated for every permutation of them. Of the third-party map this relies on
what it documents: `Set` stores under the key alone, `Get` gives what was set last, each call is atomic, and
`Items` copies every entry. The zero value of a map has no
shards: a field that may hold it has type `Option (ConcurrentMap κ ν)`, with `none` for the zero value.
-/

namespace ServiceKit
namespace Lib

/-- A map whose shards exist. -/
structure ConcurrentMap (κ ν : Type) where
  entries : AList (fun _ : κ => ν)

namespace ConcurrentMap

variable {κ ν : Type} [DecidableEq κ]

/-- `cmap.New`. -/
def new : ConcurrentMap κ ν := ⟨∅⟩

def get (m : ConcurrentMap κ ν) (k : κ) : Option ν := m.entries.lookup k

def set (m : ConcurrentMap κ ν) (k : κ) (v : ν) : ConcurrentMap κ ν := ⟨m.entries.insert k v⟩

def items (m : ConcurrentMap κ ν) : List (κ × ν) := m.entries.entries.map (fun e => (e.1, e.2))

@[simp] theorem get_new (k : κ) : (new : ConcurrentMap κ ν).get k = none := AList.lookup_empty k

@[simp] theorem get_set_self (m : ConcurrentMap κ ν) (k : κ) (v : ν) : (m.set k v).get k = some v :=
  AList.lookup_insert _

theorem get_set_of_ne (m : ConcurrentMap κ ν) {k k' : κ} (v : ν) (h : k' ≠ k) :
    (m.set k v).get k' = m.get k' :=
  AList.lookup_insert_ne h

theorem mem_items {m : ConcurrentMap κ ν} {k : κ} {v : ν} : (k, v) ∈ m.items ↔ m.get k = some v := by
  unfold items get
  rw [List.mem_map, ← Option.mem_def, AList.mem_lookup_iff]
  constructor
  · rintro ⟨⟨k', v'⟩, he, heq⟩
    obtain ⟨rfl, rfl⟩ := Prod.mk.inj heq
    exact he
  · intro he; exact ⟨⟨k, v⟩, he, rfl⟩

omit [DecidableEq κ] in
/-- The items list every key once. -/
theorem items_nodup (m : ConcurrentMap κ ν) : (m.items.map Prod.fst).Nodup := by
  have h : m.items.map Prod.fst = m.entries.entries.keys := by
    simp [items, List.keys, Function.comp_def]
  rw [h]
  exact m.entries.nodupKeys

/-! ## Rewriting the entries of a snapshot -/

/-- Write back, entry by entry, what `f` makes of a snapshot; `none` leaves the entry alone. -/
def rewrite (f : κ → ν → Option ν) (m : ConcurrentMap κ ν) (snapshot : List (κ × ν)) :
    ConcurrentMap κ ν :=
  snapshot.foldl (fun m e => match f e.1 e.2 with
    | some v => m.set e.1 v
    | none => m) m

/-- The pass leaves alone every key that the snapshot does not list. -/
theorem get_rewrite_of_notMem (f : κ → ν → Option ν) (es : List (κ × ν)) (m : ConcurrentMap κ ν)
    {k : κ} (hk : k ∉ es.map Prod.fst) : (rewrite f m es).get k = m.get k := by
  induction es generalizing m with
  | nil => rfl
  | cons e es ih =>
      rw [List.map_cons, List.mem_cons, not_or] at hk
      show (rewrite f (match f e.1 e.2 with | some v => m.set e.1 v | none => m) es).get k = _
      rw [ih _ hk.2]
      cases f e.1 e.2 with
      | none => rfl
      | some v => exact get_set_of_ne m v hk.1

/-- A listed key ends with what `f` made of its entry, or as it was. -/
theorem get_rewrite_of_mem (f : κ → ν → Option ν) {es : List (κ × ν)}
    (hnd : (es.map Prod.fst).Nodup) (m : ConcurrentMap κ ν) {k : κ} {v : ν} (hk : (k, v) ∈ es)
    (hm : m.get k = some v) : (rewrite f m es).get k = some ((f k v).getD v) := by
  induction es generalizing m with
  | nil => exact absurd hk (by simp)
  | cons e es ih =>
      rw [List.map_cons, List.nodup_cons] at hnd
      show (rewrite f (match f e.1 e.2 with | some v => m.set e.1 v | none => m) es).get k = _
      rcases List.mem_cons.mp hk with rfl | hk'
      · -- its own entry; no later one has the key
        rw [get_rewrite_of_notMem f es _ hnd.1]
        show (match f k v with | some v => m.set k v | none => m).get k = _
        cases f k v with
        | none => exact hm
        | some v' => exact get_set_self m k v'
      · -- an entry of another key, which the write leaves alone
        have hne : k ≠ e.1 := by
          rintro rfl
          exact hnd.1 (List.mem_map.mpr ⟨(e.1, v), hk', rfl⟩)
        apply ih hnd.2 _ hk'
        cases f e.1 e.2 with
        | none => exact hm
        | some v' => rw [get_set_of_ne m v' hne]; exact hm

/-- **A pass over all the items, in any order,** applies `f` to every entry once. -/
theorem get_rewrite_items (f : κ → ν → Option ν) (m : ConcurrentMap κ ν) {es : List (κ × ν)}
    (hes : es.Perm m.items) (k : κ) :
    (rewrite f m es).get k = (m.get k).map (fun v => (f k v).getD v) := by
  have hnd : (es.map Prod.fst).Nodup := (hes.map Prod.fst).nodup_iff.mpr m.items_nodup
  cases hg : m.get k with
  | none =>
      rw [get_rewrite_of_notMem f es m, hg]
      · rfl
      · intro hk
        obtain ⟨⟨k', v⟩, he, rfl⟩ := List.mem_map.mp hk
        rw [mem_items.mp (hes.mem_iff.mp he)] at hg
        exact absurd hg nofun
  | some v =>
      rw [get_rewrite_of_mem f hnd m (hes.mem_iff.mpr (mem_items.mpr hg)) hg]
      rfl

end ConcurrentMap

end Lib
end ServiceKit
