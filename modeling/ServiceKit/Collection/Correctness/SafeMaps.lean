import ServiceKit.Collection.SafeMap

/-!
# `Collection.Correctness.SafeMaps` — a safe map is a map

No key is in both maps, so what a safe map holds is what a plain map holds after the same changes
(`safeMap_is_map`), whatever was poured where on the way.
-/

namespace ServiceKit
namespace Collection
namespace SafeMap

open Lib

variable {κ ν : Type} [DecidableEq κ] {order : RangeOrder κ} {m : SafeMap κ ν} {p : GoMap κ ν}

/-- The plain map after a change. -/
def plain (p : GoMap κ ν) : Op κ ν → GoMap κ ν
  | .set key value => p.insert key value
  | .del key => p.erase key

/-- The safe map holds what the plain map holds, each key in one of its maps. -/
structure Holds (m : SafeMap κ ν) (p : GoMap κ ν) : Prop where
  apart : ∀ k, k ∈ m.dirtyOld → k ∉ m.dirtyNew
  lookup : ∀ k, m.get k = p.lookup k

theorem get_eq (m : SafeMap κ ν) (k : κ) : m.get k = (m.dirtyOld.lookup k).or (m.dirtyNew.lookup k) := by
  unfold get
  cases m.dirtyOld.lookup k <;> rfl

/-- Pouring a map out leaves nothing behind. -/
theorem lookup_pour (dst src : GoMap κ ν) (k : κ) : (pour order dst src).lookup k = (src.lookup k).or (dst.lookup k) := by
  rw [pour, lookup_putAll_range]

theorem holds_new : Holds (new : SafeMap κ ν) ∅ where
  apart := fun k hk => absurd hk (AList.notMem_empty k)
  lookup := fun _ => rfl

/-- The key of a map, where it is not in the other. -/
theorem lookup_new_of_old (h : ∀ k, k ∈ m.dirtyOld → k ∉ m.dirtyNew) {k : κ} (hk : k ∈ m.dirtyOld) :
    m.dirtyNew.lookup k = none := AList.lookup_eq_none.mpr (h k hk)

/-- Set in the old map. -/
theorem holds_insert_old {new' : GoMap κ ν} {d d' : Nat} (h : Holds m p) (k : κ) (v : ν)
    (hnew : ∀ k', k' ≠ k → new'.lookup k' = m.dirtyNew.lookup k') (hk : k ∉ new') :
    Holds ⟨d, d', m.dirtyOld.insert k v, new'⟩ (p.insert k v) := by
  have hmem : ∀ k', k' ≠ k → (k' ∈ new' ↔ k' ∈ m.dirtyNew) := fun k' hne => by
    rw [← AList.lookup_isSome, ← AList.lookup_isSome, hnew k' hne]
  refine ⟨fun k' hk' => ?_, fun k' => ?_⟩
  · by_cases hne : k' = k
    · exact hne ▸ hk
    · rw [hmem k' hne]
      exact h.apart k' (((AList.mem_insert _).mp hk').resolve_left hne)
  · rw [get_eq]
    by_cases hne : k' = k
    · rw [hne, AList.lookup_insert, AList.lookup_insert, Option.some_or]
    · rw [AList.lookup_insert_ne hne, AList.lookup_insert_ne hne, hnew k' hne, ← get_eq, h.lookup]

/-- Set in the new map. -/
theorem holds_insert_new {old' : GoMap κ ν} {d d' : Nat} (h : Holds m p) (k : κ) (v : ν)
    (hold : ∀ k', k' ≠ k → old'.lookup k' = m.dirtyOld.lookup k') (hk : k ∉ old') :
    Holds ⟨d, d', old', m.dirtyNew.insert k v⟩ (p.insert k v) := by
  have hmem : ∀ k', k' ≠ k → (k' ∈ old' ↔ k' ∈ m.dirtyOld) := fun k' hne => by
    rw [← AList.lookup_isSome, ← AList.lookup_isSome, hold k' hne]
  refine ⟨fun k' hk' hnew => ?_, fun k' => ?_⟩
  · by_cases hne : k' = k
    · exact hk (hne ▸ hk')
    · exact h.apart k' ((hmem k' hne).mp hk') (((AList.mem_insert _).mp hnew).resolve_left hne)
  · rw [get_eq]
    by_cases hne : k' = k
    · rw [hne, AList.lookup_eq_none.mpr hk, AList.lookup_insert, AList.lookup_insert, Option.none_or]
    · rw [AList.lookup_insert_ne hne, AList.lookup_insert_ne hne, hold k' hne, ← get_eq, h.lookup]

theorem Holds.set (h : Holds m p) (k : κ) (v : ν) : Holds (m.set k v) (p.insert k v) := by
  unfold SafeMap.set
  by_cases hold : m.deletionOld ≤ maxDeletion
  · simp only [if_pos hold]
    by_cases hk : k ∈ m.dirtyNew
    · simp only [if_pos hk]
      exact holds_insert_old h k v (fun k' hne => AList.lookup_erase_ne hne) fun hmem => (AList.mem_erase.mp hmem).1 rfl
    · simp only [if_neg hk]
      exact holds_insert_old h k v (fun _ _ => rfl) hk
  · simp only [if_neg hold]
    by_cases hk : k ∈ m.dirtyOld
    · simp only [if_pos hk]
      exact holds_insert_new h k v (fun k' hne => AList.lookup_erase_ne hne) fun hmem => (AList.mem_erase.mp hmem).1 rfl
    · simp only [if_neg hk]
      exact holds_insert_new h k v (fun _ _ => rfl) hk

/-- The key leaves the map that it is in. -/
theorem holds_erase {old' new' : GoMap κ ν} {d d' : Nat} (h : Holds m p) (k : κ)
    (hold : ∀ k', old'.lookup k' = if k' = k then none else m.dirtyOld.lookup k')
    (hnew : ∀ k', new'.lookup k' = if k' = k then none else m.dirtyNew.lookup k') :
    Holds ⟨d, d', old', new'⟩ (p.erase k) := by
  refine ⟨fun k' ho hn => ?_, fun k' => ?_⟩
  · rw [← AList.lookup_isSome] at ho hn
    rw [hold k'] at ho
    rw [hnew k'] at hn
    by_cases hne : k' = k
    · rw [if_pos hne] at ho
      cases ho
    · rw [if_neg hne] at ho hn
      exact h.apart k' (AList.lookup_isSome.mp ho) (AList.lookup_isSome.mp hn)
  · rw [get_eq]
    show (old'.lookup k').or (new'.lookup k') = _
    rw [hold, hnew]
    by_cases hne : k' = k
    · rw [if_pos hne, if_pos hne, hne, AList.lookup_erase, Option.none_or]
    · rw [if_neg hne, if_neg hne, AList.lookup_erase_ne hne, ← get_eq, h.lookup]

theorem lookup_erase_ite (s : GoMap κ ν) (k k' : κ) :
    (s.erase k).lookup k' = if k' = k then none else s.lookup k' := by
  by_cases hne : k' = k
  · rw [if_pos hne, hne, AList.lookup_erase]
  · rw [if_neg hne, AList.lookup_erase_ne hne]

theorem lookup_ite_of_notMem {s : GoMap κ ν} {k : κ} (hk : k ∉ s) (k' : κ) :
    s.lookup k' = if k' = k then none else s.lookup k' := by
  by_cases hne : k' = k
  · rw [if_pos hne, hne, AList.lookup_eq_none.mpr hk]
  · rw [if_neg hne]

/-- The entries of the old map go to the new one, which takes its place. -/
theorem Holds.pour_old {d d' : Nat} (h : Holds m p) : Holds ⟨d, d', pour order m.dirtyNew m.dirtyOld, ∅⟩ p where
  apart := fun k _ => AList.notMem_empty k
  lookup := fun k => by
    rw [get_eq]
    show ((pour order m.dirtyNew m.dirtyOld).lookup k).or ((∅ : GoMap κ ν).lookup k) = _
    rw [lookup_pour, AList.lookup_empty, Option.or_none, ← get_eq, h.lookup]

/-- The entries of the new map go to the old one. -/
theorem Holds.pour_new {d d' : Nat} (h : Holds m p) : Holds ⟨d, d', pour order m.dirtyOld m.dirtyNew, ∅⟩ p where
  apart := fun k _ => AList.notMem_empty k
  lookup := fun k => by
    rw [get_eq]
    show ((pour order m.dirtyOld m.dirtyNew).lookup k).or ((∅ : GoMap κ ν).lookup k) = _
    rw [lookup_pour, AList.lookup_empty, Option.or_none, ← h.lookup, get_eq]
    -- no key has an entry in both
    cases hold : m.dirtyOld.lookup k with
    | none => rw [Option.none_or, Option.or_none]
    | some v =>
        have hk : k ∈ m.dirtyOld := AList.lookup_isSome.mp (by rw [hold]; rfl)
        rw [lookup_new_of_old h.apart hk, Option.none_or, Option.some_or]

theorem Holds.del (h : Holds m p) (k : κ) : Holds (m.del order k) (p.erase k) := by
  have hstart : Holds
      (if k ∈ m.dirtyOld then { m with dirtyOld := m.dirtyOld.erase k, deletionOld := m.deletionOld + 1 }
        else if k ∈ m.dirtyNew then { m with dirtyNew := m.dirtyNew.erase k, deletionNew := m.deletionNew + 1 }
        else m) (p.erase k) := by
    by_cases ho : k ∈ m.dirtyOld
    · rw [if_pos ho]
      exact holds_erase h k (lookup_erase_ite _ k) (lookup_ite_of_notMem (h.apart k ho))
    · rw [if_neg ho]
      by_cases hn : k ∈ m.dirtyNew
      · rw [if_pos hn]
        exact holds_erase h k (lookup_ite_of_notMem ho) (lookup_erase_ite _ k)
      · rw [if_neg hn]
        exact holds_erase h k (lookup_ite_of_notMem ho) (lookup_ite_of_notMem hn)
  unfold SafeMap.del
  generalize (if k ∈ m.dirtyOld then _ else _ : SafeMap κ ν) = m₁ at hstart ⊢
  have hold : Holds
      (if maxDeletion ≤ m₁.deletionOld ∧ m₁.dirtyOld.entries.length < copyThreshold then
        { deletionOld := m₁.deletionNew, deletionNew := 0, dirtyOld := pour order m₁.dirtyNew m₁.dirtyOld, dirtyNew := ∅ }
      else m₁) (p.erase k) := by
    split
    · exact hstart.pour_old
    · exact hstart
  simp only
  generalize (if maxDeletion ≤ m₁.deletionOld ∧ m₁.dirtyOld.entries.length < copyThreshold then _ else m₁) = m₂ at hold ⊢
  split
  · exact hold.pour_new
  · exact hold

theorem Holds.apply (h : Holds m p) (op : Op κ ν) : Holds (apply order m op) (plain p op) := by
  cases op with
  | set k v => exact h.set k v
  | del k => exact h.del k

theorem Holds.after (h : Holds m p) (ops : List (Op κ ν)) : Holds (m.after order ops) (ops.foldl plain p) := by
  induction ops generalizing m p with
  | nil => exact h
  | cons op ops ih => exact ih (h.apply op)

/-! ## Size and range -/

/-- The entries of both maps are those of the plain one. -/
theorem Holds.perm (h : Holds m p) : (m.dirtyOld.entries ++ m.dirtyNew.entries).Perm p.entries := by
  have hnodup : (m.dirtyOld.entries ++ m.dirtyNew.entries).Nodup := by
    refine List.nodup_append.mpr ⟨m.dirtyOld.nodupKeys.nodup, m.dirtyNew.nodupKeys.nodup, fun e ho e' hn heq => ?_⟩
    exact h.apart e.1 (List.mem_keys_of_mem ho) (heq ▸ List.mem_keys_of_mem hn)
  refine (List.perm_ext_iff_of_nodup hnodup p.nodupKeys.nodup).mpr fun e => ?_
  obtain ⟨k, v⟩ := e
  rw [List.mem_append, ← AList.mem_lookup_iff, ← AList.mem_lookup_iff, ← AList.mem_lookup_iff, ← h.lookup, get_eq]
  simp only [Option.mem_def]
  constructor
  · rintro (ho | hn)
    · rw [ho, Option.some_or]
    · have hk : m.dirtyOld.lookup k = none := AList.lookup_eq_none.mpr fun ho =>
        h.apart k ho (AList.lookup_isSome.mp (by rw [hn]; rfl))
      rw [hk, Option.none_or, hn]
  · intro hor
    exact Option.or_eq_some_iff.mp hor |>.imp id fun hn => hn.2

/-- What a loop sees that `f` can stop. -/
def upTo (f : κ → ν → Bool) : List (κ × ν) → List (κ × ν)
  | [] => []
  | e :: es => if f e.1 e.2 then e :: upTo f es else [e]

/-- An entry as a pair. -/
def entryPair (e : Entry κ ν) : κ × ν := (e.1, e.2)

omit [DecidableEq κ] in
theorem rangeOver_cons (f : κ → ν → Bool) (e : Entry κ ν) (es : List (Entry κ ν)) :
    rangeOver f (e :: es) =
      if f e.1 e.2 then (entryPair e :: (rangeOver f es).1, (rangeOver f es).2) else ([entryPair e], false) := rfl

omit [DecidableEq κ] in
theorem rangeOver_eq_upTo (f : κ → ν → Bool) (es : List (Entry κ ν)) :
    (rangeOver f es).1 = upTo f (es.map entryPair) := by
  induction es with
  | nil => rfl
  | cons e es ih =>
      rw [rangeOver_cons, List.map_cons, upTo, ← ih]
      show _ = if f e.1 e.2 then _ else _
      split <;> rfl

omit [DecidableEq κ] in
theorem range_eq_upTo (f : κ → ν → Bool) (es es' : List (Entry κ ν)) :
    (if (rangeOver f es).2 then (rangeOver f es).1 ++ (rangeOver f es').1 else (rangeOver f es).1) =
      upTo f ((es ++ es').map entryPair) := by
  induction es with
  | nil => exact rangeOver_eq_upTo f es'
  | cons e es ih =>
      rw [rangeOver_cons, List.cons_append, List.map_cons, upTo, ← ih]
      show _ = if f e.1 e.2 then _ else _
      by_cases hf : f e.1 e.2 = true
      · rw [if_pos hf, if_pos hf]
        show (if (rangeOver f es).2 then _ else _) = _
        split <;> rfl
      · rw [if_neg hf, if_neg hf]
        rfl

/-- **A safe map is a map.** After any changes it holds under each key what a plain map holds, has its size, and `Range`
    visits its entries, each once, in some order, until the function says to stop. -/
theorem safeMap_is_map (order : RangeOrder κ) (ops : List (Op κ ν)) (k : κ) (f : κ → ν → Bool) :
    ((new : SafeMap κ ν).after order ops).get k = (ops.foldl plain ∅).lookup k ∧
      ((new : SafeMap κ ν).after order ops).size = (ops.foldl plain (∅ : GoMap κ ν)).entries.length ∧
      ∃ es : List (Entry κ ν), es.Perm (ops.foldl plain (∅ : GoMap κ ν)).entries ∧
        ((new : SafeMap κ ν).after order ops).range order f = upTo f (es.map entryPair) := by
  have h : Holds ((new : SafeMap κ ν).after order ops) (ops.foldl plain ∅) := holds_new.after ops
  generalize (new : SafeMap κ ν).after order ops = m at h
  generalize ops.foldl plain (∅ : GoMap κ ν) = p at h
  refine ⟨h.lookup k, ?_, order.range m.dirtyOld ++ order.range m.dirtyNew, ?_, range_eq_upTo f _ _⟩
  · rw [← h.perm.length_eq, List.length_append, size]
  · exact ((order.perm _).append (order.perm _)).trans h.perm

end SafeMap
end Collection
end ServiceKit
