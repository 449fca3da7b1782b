import Mathlib.Data.List.AList
import Mathlib.Data.List.Sort
import Mathlib.Data.Finset.Card

/-!
# `Lib.Unordered` — maps, ranges and sorts whose order Go leaves open

A Go map is an `AList`. A `range` over it visits its entries in any order, `sort.Slice` leaves elements that it finds
equal in any order: both are parameters (`RangeOrder`, `SortSlice`), with the laws that hold of every run. Three loops
recur: filling a map, where the last value under a key stays (`lookup_putAll`), filing elements under a key
(`lookup_collect`), and keeping of the elements with one key the first that is met (`firstOfEach`).
-/

namespace ServiceKit
namespace Lib

/-- A Go `map[κ]β`. -/
abbrev GoMap (κ β : Type) := AList (fun _ : κ => β)

/-- An entry of a map. -/
abbrev Entry (κ β : Type) := Sigma (fun _ : κ => β)

variable {α β γ κ : Type}

/-! ## The order of a range -/

/-- The order of each `range` over a map. -/
structure RangeOrder (κ : Type) where
  range : {β : Type} → GoMap κ β → List (Entry κ β)
  perm : ∀ {β : Type} (m : GoMap κ β), (range m).Perm m.entries

/-- The entries as they are listed. -/
def RangeOrder.listed : RangeOrder κ := ⟨fun m => m.entries, fun m => List.Perm.refl m.entries⟩

/-- The entry of `k` before the others. -/
def RangeOrder.startingAt [DecidableEq κ] (k : κ) : RangeOrder κ where
  range m := m.entries.filter (fun e => e.1 = k) ++ m.entries.filter (fun e => ¬e.1 = k)
  perm m := by simpa using List.filter_append_perm (fun e : Entry κ _ => decide (e.1 = k)) m.entries

theorem RangeOrder.mem_range (order : RangeOrder κ) {m : GoMap κ β} {e : Entry κ β} :
    e ∈ order.range m ↔ e ∈ m.entries := (order.perm m).mem_iff

theorem RangeOrder.nodup_keys (order : RangeOrder κ) (m : GoMap κ β) : ((order.range m).map Sigma.fst).Nodup :=
  ((order.perm m).map Sigma.fst).nodup_iff.mpr m.keys_nodup

/-- The range of `startingAt k` does start there. -/
theorem RangeOrder.range_startingAt [DecidableEq κ] {m : GoMap κ β} {k : κ} {v : β} (h : ⟨k, v⟩ ∈ m.entries) :
    ∃ rest, (RangeOrder.startingAt k).range m = ⟨k, v⟩ :: rest := by
  have hmem : ⟨k, v⟩ ∈ m.entries.filter (fun e => e.1 = k) := List.mem_filter.mpr ⟨h, by simp⟩
  cases hfiltered : m.entries.filter (fun e => e.1 = k) with
  | nil => simp [hfiltered] at hmem
  | cons e es =>
      obtain ⟨he, hkey⟩ := List.mem_filter.mp (hfiltered ▸ List.mem_cons_self : e ∈ m.entries.filter _)
      have heq : e = ⟨k, v⟩ := m.nodupKeys.eq_of_fst_eq he h (of_decide_eq_true hkey)
      refine ⟨es ++ m.entries.filter (fun e => ¬e.1 = k), ?_⟩
      show m.entries.filter (fun e => e.1 = k) ++ _ = _
      rw [hfiltered, heq, List.cons_append]

/-! ## Filling a map -/

section Fill

variable [DecidableEq κ]

/-- The entries, put one after the other. -/
def putAll (m : GoMap κ β) (es : List (κ × β)) : GoMap κ β := es.foldl (fun m e => m.insert e.1 e.2) m

/-- The last value that was put under a key is the one that is found. -/
theorem lookup_putAll (es : List (κ × β)) (m : GoMap κ β) (k : κ) :
    (putAll m es).lookup k = ((es.filter (fun e => e.1 = k)).getLast?.map Prod.snd).or (m.lookup k) := by
  induction es generalizing m with
  | nil => simp [putAll]
  | cons e es ih =>
      show (putAll (m.insert e.1 e.2) es).lookup k = _
      rw [ih]
      by_cases hkey : e.1 = k
      · subst hkey
        rw [List.filter_cons_of_pos (by simp), AList.lookup_insert, List.getLast?_cons]
        cases (es.filter (fun f => f.1 = e.1)).getLast? <;> simp
      · rw [List.filter_cons_of_neg (by simpa using hkey), AList.lookup_insert_ne (Ne.symm hkey)]

theorem mem_putAll {m : GoMap κ β} {es : List (κ × β)} {k : κ} : k ∈ putAll m es ↔ k ∈ m ∨ k ∈ es.map Prod.fst := by
  induction es generalizing m with
  | nil => simp [putAll]
  | cons e es ih =>
      show k ∈ putAll (m.insert e.1 e.2) es ↔ _
      rw [ih, AList.mem_insert, List.map_cons, List.mem_cons, or_assoc, or_left_comm]

/-- One map put into another: its values come first. -/
theorem lookup_putAll_range (order : RangeOrder κ) (m src : GoMap κ β) (k : κ) :
    (putAll m ((order.range src).map fun e => (e.1, e.2))).lookup k = (src.lookup k).or (m.lookup k) := by
  rw [lookup_putAll]
  congr 1
  -- what the range meets with this key is the entry of the map
  have hmem : ∀ v, (k, v) ∈ (order.range src).map (fun e => (e.1, e.2)) ↔ src.lookup k = some v := by
    intro v
    rw [← Option.mem_def, AList.mem_lookup_iff, ← order.mem_range]
    constructor
    · intro h
      obtain ⟨⟨k', v'⟩, he, heq⟩ := List.mem_map.mp h
      obtain ⟨rfl, rfl⟩ := Prod.mk.inj heq
      exact he
    · exact fun h => List.mem_map.mpr ⟨⟨k, v⟩, h, rfl⟩
  cases hlast : (((order.range src).map fun e => (e.1, e.2)).filter fun e => e.1 = k).getLast? with
  | none =>
      cases hsrc : src.lookup k with
      | none => rfl
      | some v =>
          have hin := List.mem_filter (p := fun e : κ × β => decide (e.1 = k)).mpr ⟨(hmem v).mpr hsrc, decide_eq_true rfl⟩
          rw [List.getLast?_eq_none_iff.mp hlast] at hin
          cases hin
  | some e =>
      obtain ⟨hin, hkey⟩ := List.mem_filter.mp (List.mem_of_getLast? hlast)
      obtain ⟨k', v⟩ := e
      obtain rfl : k' = k := of_decide_eq_true hkey
      rw [(hmem v).mp hin, Option.map_some]

theorem mem_entries_erase {m : GoMap κ β} {k : κ} {e : Entry κ β} :
    e ∈ (m.erase k).entries ↔ e.1 ≠ k ∧ e ∈ m.entries := by
  obtain ⟨k', v⟩ := e
  rw [← AList.mem_lookup_iff, ← AList.mem_lookup_iff]
  by_cases hk : k' = k
  · subst hk
    simp
  · rw [AList.lookup_erase_ne hk]
    simp [hk]

theorem mem_entries_insert {m : GoMap κ β} {k : κ} {v : β} {e : Entry κ β} :
    e ∈ (m.insert k v).entries ↔ e = ⟨k, v⟩ ∨ e.1 ≠ k ∧ e ∈ m.entries := by
  rw [AList.entries_insert, List.mem_cons]
  exact or_congr_right mem_entries_erase

/-- `m[key] = append(m[key], x)` for each element with a key. -/
def collect (key : α → Option κ) (m : GoMap κ (List α)) : List α → GoMap κ (List α)
  | [] => m
  | x :: xs =>
      match key x with
      | some k => collect key (m.insert k ((m.lookup k).getD [] ++ [x])) xs
      | none => collect key m xs

/-- Under a key are its elements, in order. -/
theorem getD_collect (key : α → Option κ) (m : GoMap κ (List α)) (xs : List α) (k : κ) :
    ((collect key m xs).lookup k).getD [] = (m.lookup k).getD [] ++ xs.filter (fun x => key x = some k) := by
  induction xs generalizing m with
  | nil => simp [collect]
  | cons x xs ih =>
      cases hkey : key x with
      | none => simp [collect, hkey, ih]
      | some k' =>
          by_cases hk : k' = k
          · subst hk
            simp [collect, hkey, ih]
          · have hne : k ≠ k' := fun h => hk h.symm
            simp [collect, hkey, ih, hk, AList.lookup_insert_ne hne]

/-- No key is there without an element. -/
theorem collect_ne_nil (key : α → Option κ) {m : GoMap κ (List α)} {xs : List α}
    (hm : ∀ k v, m.lookup k = some v → v ≠ []) (k : κ) (v : List α)
    (h : (collect key m xs).lookup k = some v) : v ≠ [] := by
  induction xs generalizing m with
  | nil => exact hm k v h
  | cons x xs ih =>
      cases hkey : key x with
      | none => exact ih hm (by simpa [collect, hkey] using h)
      | some k' =>
          refine ih ?_ (by simpa [collect, hkey] using h)
          intro k₁ v₁ h₁
          by_cases hk : k₁ = k'
          · subst hk
            rw [AList.lookup_insert] at h₁
            rw [← Option.some.inj h₁]
            exact List.append_ne_nil_of_right_ne_nil _ (List.cons_ne_nil x [])
          · rw [AList.lookup_insert_ne hk] at h₁
            exact hm k₁ v₁ h₁

/-- What a key of `collect` holds: its elements, and there are some. -/
theorem lookup_collect (key : α → Option κ) {xs : List α} {k : κ} {v : List α} :
    (collect key ∅ xs).lookup k = some v ↔ v ≠ [] ∧ xs.filter (fun x => key x = some k) = v := by
  have hall := getD_collect key ∅ xs k
  rw [AList.lookup_empty, Option.getD_none, List.nil_append] at hall
  constructor
  · intro h
    refine ⟨collect_ne_nil key (fun k v h => ?_) k v h, ?_⟩
    · rw [AList.lookup_empty] at h
      cases h
    · rw [← hall, h, Option.getD_some]
  · rintro ⟨hne, hv⟩
    cases hlookup : (collect key ∅ xs).lookup k with
    | none =>
        rw [hlookup, Option.getD_none] at hall
        exact absurd (hv.symm.trans hall.symm) hne
    | some v' =>
        rw [hlookup, Option.getD_some] at hall
        rw [hall, hv]

end Fill

/-! ## The first of each key -/

section First

variable [DecidableEq κ] (key : α → κ)

/-- The elements whose key was not met before. -/
def firstOfEach : Finset κ → List α → List α
  | _, [] => []
  | seen, x :: xs => if key x ∈ seen then firstOfEach seen xs else x :: firstOfEach (insert (key x) seen) xs

theorem firstOfEach_sublist (seen : Finset κ) (xs : List α) : (firstOfEach key seen xs).Sublist xs := by
  induction xs generalizing seen with
  | nil => exact List.Sublist.refl []
  | cons x xs ih =>
      rw [firstOfEach]
      split
      · exact (ih seen).cons x
      · exact (ih (insert (key x) seen)).cons_cons x

theorem key_notMem_of_mem_firstOfEach {seen : Finset κ} {xs : List α} {x : α} (h : x ∈ firstOfEach key seen xs) :
    key x ∉ seen := by
  induction xs generalizing seen with
  | nil => cases h
  | cons y ys ih =>
      rw [firstOfEach] at h
      split at h
      · exact ih h
      · next hy =>
          rcases List.mem_cons.mp h with rfl | h
          · exact hy
          · exact fun hx => ih h (Finset.mem_insert_of_mem hx)

theorem exists_mem_firstOfEach {seen : Finset κ} {xs : List α} {x : α} (hx : x ∈ xs) (hseen : key x ∉ seen) :
    ∃ y ∈ firstOfEach key seen xs, key y = key x := by
  induction xs generalizing seen with
  | nil => cases hx
  | cons z zs ih =>
      rw [firstOfEach]
      rcases List.mem_cons.mp hx with rfl | hx
      · rw [if_neg hseen]
        exact ⟨x, List.mem_cons_self, rfl⟩
      · split
        · exact ih hx hseen
        · by_cases hz : key x = key z
          · exact ⟨z, List.mem_cons_self, hz.symm⟩
          · have hnot : key x ∉ insert (key z) seen := by simp [hz, hseen]
            obtain ⟨y, hy, hkey⟩ := ih hx hnot
            exact ⟨y, List.mem_cons_of_mem _ hy, hkey⟩

/-- Where the key tells the values apart, each value stays. -/
theorem exists_value_firstOfEach (val : α → γ) (xs : List α)
    (hinj : ∀ x ∈ xs, ∀ y ∈ xs, key x = key y → val x = val y) (v : γ) :
    (∃ x ∈ firstOfEach key ∅ xs, val x = v) ↔ ∃ x ∈ xs, val x = v := by
  constructor
  · rintro ⟨x, hx, hv⟩
    exact ⟨x, (firstOfEach_sublist key ∅ xs).subset hx, hv⟩
  · rintro ⟨x, hx, hv⟩
    obtain ⟨y, hy, hkey⟩ := exists_mem_firstOfEach key hx (Finset.notMem_empty (key x))
    have hval := hinj y ((firstOfEach_sublist key ∅ xs).subset hy) x hx hkey
    exact ⟨y, hy, hval.trans hv⟩

/-- What is met first stays, and nothing else with its key. -/
theorem eq_of_mem_firstOfEach_cons {x y : α} {xs : List α} (hy : y ∈ firstOfEach key ∅ (x :: xs))
    (hkey : key y = key x) : y = x := by
  rw [firstOfEach, if_neg (Finset.notMem_empty (key x))] at hy
  rcases List.mem_cons.mp hy with rfl | hy
  · rfl
  · have hnot := key_notMem_of_mem_firstOfEach key hy
    exact absurd (hkey ▸ Finset.mem_insert_self (key x) ∅) hnot

theorem mem_firstOfEach_cons (x : α) (xs : List α) : x ∈ firstOfEach key ∅ (x :: xs) := by
  rw [firstOfEach, if_neg (Finset.notMem_empty (key x))]
  exact List.mem_cons_self

end First

/-! ## One query for each row -/

/-- Asking for each name, once, gives what there is under these names. -/
theorem flatMap_filter_perm [DecidableEq κ] (name : γ → κ) (key : α → κ) {rows : List γ} {xs : List α}
    (hnodup : (rows.map name).Nodup) (hxs : ∀ x ∈ xs, key x ∈ rows.map name) :
    (rows.flatMap fun r => xs.filter fun x => key x = name r).Perm xs := by
  induction rows generalizing xs with
  | nil =>
      have hnil : xs = [] := List.eq_nil_iff_forall_not_mem.mpr fun x hx => List.not_mem_nil (hxs x hx)
      rw [hnil]
      exact List.Perm.refl []
  | cons r rows ih =>
      obtain ⟨hr, hrows⟩ := List.nodup_cons.mp hnodup
      have hrest : (rows.flatMap fun r => xs.filter fun x => key x = name r) =
          rows.flatMap fun r' => (xs.filter fun x => ¬key x = name r).filter fun x => key x = name r' := by
        refine List.flatMap_congr fun r' hr' => ?_
        rw [List.filter_filter]
        refine List.filter_congr fun x _ => ?_
        by_cases hx : key x = name r'
        · have hne : ¬name r' = name r := fun heq => hr (heq ▸ List.mem_map.mpr ⟨r', hr', Eq.refl _⟩)
          simp [hx, hne]
        · simp [hx]
      rw [List.flatMap_cons, hrest]
      refine ((ih hrows ?_).append_left _).trans (by simpa using List.filter_append_perm (fun x => key x = name r) xs)
      intro x hx
      obtain ⟨hmem, hne⟩ := List.mem_filter.mp hx
      rcases List.mem_cons.mp (hxs x hmem) with heq | h
      · simp [heq] at hne
      · exact h

/-! ## `sort.Slice` -/

/-- `sort.Slice`, which is not stable. -/
structure SortSlice where
  slice : {α : Type} → (α → α → Bool) → List α → List α
  perm : ∀ {α : Type} (less : α → α → Bool) (xs : List α), (slice less xs).Perm xs
  /-- The elements come out by rank, where `less` compares ranks. -/
  sorted : ∀ {α : Type} (less : α → α → Bool) (rank : α → Nat) (xs : List α),
    (∀ x ∈ xs, ∀ y ∈ xs, less x y = decide (rank x < rank y)) → (slice less xs).Pairwise (fun x y => rank x ≤ rank y)

theorem pairwise_orderedInsert {less : α → α → Bool} {rank : α → Nat} {x : α} {xs : List α}
    (hless : ∀ y ∈ xs, less y x = decide (rank y < rank x)) (h : xs.Pairwise (fun x y => rank x ≤ rank y)) :
    (xs.orderedInsert (fun a b => less b a = false) x).Pairwise (fun x y => rank x ≤ rank y) := by
  induction xs with
  | nil => simp
  | cons y ys ih =>
      obtain ⟨hy, hys⟩ := List.pairwise_cons.mp h
      have hhead := hless y List.mem_cons_self
      rw [List.orderedInsert_cons]
      split
      · next hle =>
          have hrank : rank x ≤ rank y := by
            rw [hhead] at hle
            simpa using hle
          refine List.pairwise_cons.mpr ⟨?_, h⟩
          intro z hz
          rcases List.mem_cons.mp hz with rfl | hz
          · exact hrank
          · exact hrank.trans (hy z hz)
      · next hgt =>
          have hrank : rank y < rank x := by
            rw [hhead] at hgt
            simpa using hgt
          refine List.pairwise_cons.mpr ⟨?_, ih (fun z hz => hless z (List.mem_cons_of_mem y hz)) hys⟩
          intro z hz
          rcases List.mem_cons.mp ((List.perm_orderedInsert _ x ys).mem_iff.mp hz) with rfl | hz
          · omega
          · exact hy z hz

/-- Sorting by insertion, which is stable. -/
def SortSlice.insertion : SortSlice where
  slice less xs := xs.insertionSort (fun a b => less b a = false)
  perm less xs := List.perm_insertionSort _ xs
  sorted less rank xs hless := by
    induction xs with
    | nil => exact List.Pairwise.nil
    | cons x xs ih =>
        refine pairwise_orderedInsert (fun y hy => ?_) (ih fun y hy z hz => ?_)
        · have hmem := (List.perm_insertionSort _ xs).mem_iff.mp hy
          exact hless y (List.mem_cons_of_mem x hmem) x List.mem_cons_self
        · exact hless y (List.mem_cons_of_mem x hy) z (List.mem_cons_of_mem x hz)

/-- A sorted list is known by its elements when no rank is there twice. -/
theorem SortSlice.map_slice_eq (sort : SortSlice) (less : α → α → Bool) (f : α → β) (rank : β → Nat) {xs : List α}
    {ys : List β} (hless : ∀ x ∈ xs, ∀ y ∈ xs, less x y = decide (rank (f x) < rank (f y)))
    (hperm : (xs.map f).Perm ys) (hys : ys.Pairwise (fun x y => rank x < rank y)) :
    (sort.slice less xs).map f = ys := by
  have hsorted : ((sort.slice less xs).map f).Pairwise (fun x y => rank x ≤ rank y) :=
    List.pairwise_map.mpr (sort.sorted less (fun x => rank (f x)) xs hless)
  have hall : ((sort.slice less xs).map f).Perm ys := ((sort.perm less xs).map f).trans hperm
  have hnodup : (ys.map rank).Nodup := List.pairwise_map.mpr (hys.imp fun h => Nat.ne_of_lt h)
  have hys : ys.Pairwise (fun x y => rank x ≤ rank y) := hys.imp fun h => Nat.le_of_lt h
  refine hall.eq_of_pairwise ?_ hsorted hys
  intro x y hx hy hxy hyx
  exact List.inj_on_of_nodup_map hnodup (hall.mem_iff.mp hx) hy (Nat.le_antisymm hxy hyx)

/-- Where no two elements compare equal, the order that a list came in is not seen. -/
theorem SortSlice.slice_eq_of_perm (sort : SortSlice) {less : α → α → Bool} (hirrefl : ∀ x, less x x = false)
    (htrans : ∀ x y z, less x y = true → less y z = true → less x z = true) {xs ys : List α}
    (htotal : ∀ x ∈ xs, ∀ y ∈ xs, less x y = false → less y x = false → x = y) (hperm : xs.Perm ys) :
    sort.slice less xs = sort.slice less ys := by
  classical
  -- an element's rank is how many are less
  let below (x : α) : Finset α := xs.toFinset.filter (fun z => less z x = true)
  let rank (x : α) : Nat := (below x).card
  have hlt : ∀ x ∈ xs, ∀ y ∈ xs, less x y = true → rank x < rank y := by
    intro x hx y hy hless
    apply Finset.card_lt_card
    refine Finset.ssubset_iff_subset_ne.mpr ⟨?_, ?_⟩
    · intro z hz
      obtain ⟨hz, hzx⟩ := Finset.mem_filter.mp hz
      exact Finset.mem_filter.mpr ⟨hz, htrans z x y hzx hless⟩
    · intro heq
      have hx' : x ∈ below y := Finset.mem_filter.mpr ⟨List.mem_toFinset.mpr hx, hless⟩
      rw [← heq] at hx'
      have hself := (Finset.mem_filter.mp hx').2
      simp [hirrefl] at hself
  have hless : ∀ x ∈ xs, ∀ y ∈ xs, less x y = decide (rank x < rank y) := by
    intro x hx y hy
    cases hxy : less x y with
    | true => simpa using hlt x hx y hy hxy
    | false =>
        have hle : rank y ≤ rank x := by
          cases hyx : less y x with
          | true => exact Nat.le_of_lt (hlt y hy x hx hyx)
          | false => rw [htotal x hx y hy hxy hyx]
        simpa using hle
  have hxs := sort.sorted less rank xs hless
  have hys := sort.sorted less rank ys fun x hx y hy => hless x (hperm.mem_iff.mpr hx) y (hperm.mem_iff.mpr hy)
  have hall := (sort.perm less xs).trans (hperm.trans (sort.perm less ys).symm)
  refine hall.eq_of_pairwise ?_ hxs hys
  intro x y hx hy hxy hyx
  have hx' : x ∈ xs := (sort.perm _ xs).mem_iff.mp hx
  have hy' : y ∈ xs := hperm.mem_iff.mpr ((sort.perm _ ys).mem_iff.mp hy)
  apply htotal x hx' y hy'
  · simpa [hless x hx' y hy'] using hyx
  · simpa [hless y hy' x hx'] using hxy

end Lib
end ServiceKit
