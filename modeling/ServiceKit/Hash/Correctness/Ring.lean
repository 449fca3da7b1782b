import ServiceKit.Hash.ConsistentHash
import Mathlib.Data.List.Perm.Basic
import Mathlib.Data.Multiset.UnionInter

/-!
# `Hash.Correctness.Ring` — what the ring holds

`Consistent h live` says that the keys and the ring of `h` are those of the nodes `live`, each with its replicas. Adding
keeps it. Removing takes out a key for every index that a node can have, not only for those it has, so it keeps it exactly
where no index beyond the node's own leads to a key of another node (`remove_consistent_iff`).
-/

namespace ServiceKit
namespace Hash
namespace ConsistentHash

open Lib

variable {α : Type} {sort : SortSlice} {hashing : Hashing α}

/-! ## Nodes and their points -/

/-- The points of a node with its number of replicas. -/
def points (hashing : Hashing α) (x : α × Nat) : List Nat := (List.range x.2).map (point hashing (hashing.repr x.1))

/-- The points of all nodes. -/
def allPoints (hashing : Hashing α) (live : List (α × Nat)) : List Nat := live.flatMap (points hashing)

/-- The nodes that have a point at `k`, as often as they have it. -/
def members (hashing : Hashing α) (live : List (α × Nat)) (k : Nat) : List α :=
  live.flatMap fun x => List.replicate ((points hashing x).count k) x.1

/-- The nodes but the one of this text. -/
def others (hashing : Hashing α) (live : List (α × Nat)) (nodeRepr : Text) : List (α × Nat) :=
  live.filter fun x => hashing.repr x.1 ≠ nodeRepr

/-- What a list under a key is in the map: the key of an empty list is not there. -/
def listed (xs : List α) : Option (List α) := if xs = [] then none else some xs

/-- The hash holds the points of the nodes `live`. -/
structure Consistent (hashing : Hashing α) (h : ConsistentHash α) (live : List (α × Nat)) : Prop where
  distinct : (live.map fun x => hashing.repr x.1).Nodup
  nodes : ∀ t, t ∈ h.nodes ↔ t ∈ live.map fun x => hashing.repr x.1
  bounded : ∀ x ∈ live, x.2 ≤ h.replicas
  sorted : h.keys.Pairwise (· ≤ ·)
  keys : h.keys.Perm (allPoints hashing live)
  ring : ∀ k, h.ring.lookup k = listed (members hashing live k)

theorem mem_members {live : List (α × Nat)} {k : Nat} {x : α} :
    x ∈ members hashing live k ↔ ∃ r, (x, r) ∈ live ∧ k ∈ points hashing (x, r) := by
  rw [members, List.mem_flatMap]
  constructor
  · rintro ⟨⟨y, r⟩, hy, hx⟩
    obtain ⟨hcount, rfl⟩ := List.mem_replicate.mp hx
    exact ⟨r, hy, List.count_pos_iff.mp (Nat.pos_of_ne_zero hcount)⟩
  · rintro ⟨r, hx, hk⟩
    exact ⟨(x, r), hx, List.mem_replicate.mpr ⟨Nat.pos_iff_ne_zero.mp (List.count_pos_iff.mpr hk), rfl⟩⟩

theorem mem_allPoints {live : List (α × Nat)} {k : Nat} : k ∈ allPoints hashing live ↔ ∃ x ∈ live, k ∈ points hashing x :=
  List.mem_flatMap

/-- A key has a member. -/
theorem members_ne_nil {live : List (α × Nat)} {k : Nat} :
    members hashing live k ≠ [] ↔ k ∈ allPoints hashing live := by
  rw [mem_allPoints]
  constructor
  · intro hne
    obtain ⟨x, hx⟩ := List.exists_mem_of_ne_nil _ hne
    obtain ⟨r, hr, hk⟩ := mem_members.mp hx
    exact ⟨(x, r), hr, hk⟩
  · rintro ⟨⟨x, r⟩, hx, hk⟩
    exact List.ne_nil_of_mem (mem_members.mpr ⟨r, hx, hk⟩)

/-! ## Taking out a key -/

theorem removeKey_eq_erase {keys : List Nat} (hsorted : keys.Pairwise (· ≤ ·)) (hash : Nat) :
    removeKey keys hash = keys.erase hash := by
  obtain ⟨hle, hbelow, habove⟩ := insertionPoint_spec hsorted hash
  rw [removeKey]
  generalize insertionPoint keys hash = index at hle hbelow habove
  have hsplit : keys.erase hash = keys.take index ++ (keys.drop index).erase hash := by
    conv_lhs => rw [← List.take_append_drop index keys]
    exact List.erase_append_right _ fun hmem => lt_irrefl _ (hbelow hash hmem)
  rw [hsplit]
  by_cases hfound : index < keys.length ∧ keys[index]? = some hash
  · rw [if_pos hfound, ← List.cons_getElem_drop_succ (h := hfound.1)]
    have hlt := hfound.1
    have heq : keys[index] = hash := Option.some.inj ((List.getElem?_eq_getElem hlt).symm.trans hfound.2)
    rw [heq, List.erase_cons_head]
  · -- the first key from the place on is greater
    rw [if_neg hfound]
    have hnot : hash ∉ keys.drop index := by
      intro hmem
      obtain ⟨j, hj, heq⟩ := List.mem_iff_getElem.mp hmem
      rw [List.length_drop] at hj
      have hlt : index < keys.length := by omega
      rw [List.getElem_drop] at heq
      have hge := habove (keys[index]) (List.mem_iff_getElem.mpr ⟨0, by rw [List.length_drop]; omega, by simp⟩)
      have hle' : keys[index] ≤ keys[index + j] := by
        rcases Nat.eq_zero_or_pos j with rfl | hpos
        · exact Nat.le_refl _
        · exact List.pairwise_iff_getElem.mp hsorted index (index + j) hlt (by omega) (by omega)
      refine hfound ⟨hlt, ?_⟩
      rw [List.getElem?_eq_getElem hlt]
      exact congrArg some (Nat.le_antisymm (heq ▸ hle') hge)
    rw [List.erase_of_not_mem hnot, List.take_append_drop]

theorem lookup_removeRingNode (ring : GoMap Nat (List α)) (hash : Nat) (nodeRepr : Text) (k : Nat) :
    (removeRingNode hashing ring hash nodeRepr).lookup k =
      if k = hash then listed (((ring.lookup k).getD []).filter fun x => hashing.repr x ≠ nodeRepr)
      else ring.lookup k := by
  rw [removeRingNode]
  cases hl : ring.lookup hash with
  | none =>
      by_cases hk : k = hash
      · rw [if_pos hk, hk, hl]
        rfl
      · rw [if_neg hk]
  | some nodes =>
      simp only
      by_cases hpos : 0 < (nodes.filter fun x => decide (hashing.repr x ≠ nodeRepr)).length
      · rw [if_pos hpos]
        by_cases hk : k = hash
        · rw [if_pos hk, hk, AList.lookup_insert, hl, Option.getD_some, listed, if_neg (List.length_pos_iff.mp hpos)]
        · rw [if_neg hk, AList.lookup_insert_ne hk]
      · rw [if_neg hpos]
        by_cases hk : k = hash
        · have hnil : nodes.filter (fun x => decide (hashing.repr x ≠ nodeRepr)) = [] :=
            List.length_eq_zero_iff.mp (Nat.eq_zero_of_not_pos hpos)
          rw [if_pos hk, hk, AList.lookup_erase, hl, Option.getD_some, hnil]
          rfl
        · rw [if_neg hk, AList.lookup_erase_ne hk]

/-! ## The loops -/

/-- A list under a key and what the map holds for it. -/
theorem getD_listed (xs : List α) : (listed xs).getD [] = xs := by
  rw [listed]
  split
  · next h => rw [h]; rfl
  · rfl

/-- The loop of `Remove`, over some indices. -/
theorem removeLoop_spec (hashing : Hashing α) (nodeRepr : Text) (is : List Nat) (h : ConsistentHash α) (hsorted : h.keys.Pairwise (· ≤ ·)) :
    (is.foldl (removeReplica hashing nodeRepr) h).keys = h.keys.diff (is.map (point hashing nodeRepr)) ∧
      (is.foldl (removeReplica hashing nodeRepr) h).keys.Pairwise (· ≤ ·) ∧
      (is.foldl (removeReplica hashing nodeRepr) h).replicas = h.replicas ∧
      (is.foldl (removeReplica hashing nodeRepr) h).nodes = h.nodes ∧
      ∀ k, (is.foldl (removeReplica hashing nodeRepr) h).ring.lookup k =
        if k ∈ is.map (point hashing nodeRepr) then
          listed (((h.ring.lookup k).getD []).filter fun x => hashing.repr x ≠ nodeRepr)
        else h.ring.lookup k := by
  induction is generalizing h with
  | nil => exact ⟨rfl, hsorted, rfl, rfl, fun k => rfl⟩
  | cons i is ih =>
      have hkeys : (removeReplica hashing nodeRepr h i).keys = h.keys.erase (point hashing nodeRepr i) :=
        removeKey_eq_erase hsorted _
      have hsorted' : (removeReplica hashing nodeRepr h i).keys.Pairwise (· ≤ ·) := by
        rw [hkeys]
        exact hsorted.sublist List.erase_sublist
      obtain ⟨hk, hs, hr, hn, hring⟩ := ih _ hsorted'
      rw [List.foldl_cons, List.map_cons, List.diff_cons, ← hkeys]
      refine ⟨hk, hs, hr, hn, fun k => ?_⟩
      have hone : (removeReplica hashing nodeRepr h i).ring.lookup k = _ :=
        lookup_removeRingNode h.ring (point hashing nodeRepr i) nodeRepr k
      rw [hring, hone]
      by_cases hhead : k = point hashing nodeRepr i
      · rw [if_pos hhead, if_pos (List.mem_cons.mpr (.inl hhead)), getD_listed]
        -- a second filter takes out nothing more
        rw [List.filter_filter]
        simp only [Bool.and_self, ite_self]
      · rw [if_neg hhead]
        by_cases hmem : k ∈ is.map (point hashing nodeRepr)
        · rw [if_pos hmem, if_pos (List.mem_cons_of_mem _ hmem)]
        · rw [if_neg hmem, if_neg fun hc => (List.mem_cons.mp hc).elim hhead hmem]

/-- The loop of `AddWithReplicas`, up to some index. -/
theorem addLoop_spec (hashing : Hashing α) (node : α) (n : Nat) (h : ConsistentHash α) :
    ((List.range n).foldl (addReplica hashing (hashing.repr node) node) h).keys =
        h.keys ++ points hashing (node, n) ∧
      ((List.range n).foldl (addReplica hashing (hashing.repr node) node) h).replicas = h.replicas ∧
      ((List.range n).foldl (addReplica hashing (hashing.repr node) node) h).nodes = h.nodes ∧
      ∀ k, (((List.range n).foldl (addReplica hashing (hashing.repr node) node) h).ring.lookup k).getD [] =
          (h.ring.lookup k).getD [] ++ List.replicate ((points hashing (node, n)).count k) node ∧
        (h.ring.lookup k ≠ some [] →
          ((List.range n).foldl (addReplica hashing (hashing.repr node) node) h).ring.lookup k ≠ some []) := by
  induction n with
  | zero =>
      have hnil : points hashing (node, 0) = [] := rfl
      simp [hnil]
  | succ n ih =>
      obtain ⟨hk, hr, hn, hring⟩ := ih
      have hpoints : points hashing (node, n + 1) = points hashing (node, n) ++ [point hashing (hashing.repr node) n] := by
        simp [points, List.range_succ]
      rw [List.range_succ, List.foldl_append, List.foldl_cons, List.foldl_nil, hpoints]
      generalize (List.range n).foldl (addReplica hashing (hashing.repr node) node) h = h' at hk hr hn hring
      refine ⟨by rw [addReplica, hk, List.append_assoc], hr, hn, fun k => ?_⟩
      rw [addReplica, List.count_append, ← List.replicate_append_replicate, ← List.append_assoc, ← (hring k).1]
      by_cases heq : k = point hashing (hashing.repr node) n
      · rw [← heq, AList.lookup_insert]
        simp
      · rw [AList.lookup_insert_ne heq, List.count_singleton, if_neg (by simpa using Ne.symm heq)]
        exact ⟨(List.append_nil _).symm, (hring k).2⟩

/-! ## Removing a node -/

theorem members_cons (x : α × Nat) (live : List (α × Nat)) (k : Nat) :
    members hashing (x :: live) k = List.replicate ((points hashing x).count k) x.1 ++ members hashing live k :=
  List.flatMap_cons

theorem members_others (live : List (α × Nat)) (t : Text) (k : Nat) :
    members hashing (others hashing live t) k = (members hashing live k).filter fun x => hashing.repr x ≠ t := by
  induction live with
  | nil => rfl
  | cons x live ih =>
      rw [members_cons, List.filter_append, ← ih]
      by_cases hx : hashing.repr x.1 = t
      · have hnone : (List.replicate ((points hashing x).count k) x.1).filter
            (fun y => decide (hashing.repr y ≠ t)) = [] := by
          refine List.filter_eq_nil_iff.mpr fun y hy => ?_
          rw [(List.mem_replicate.mp hy).2]
          simpa using hx
        rw [others, List.filter_cons_of_neg (by simpa using hx), hnone, List.nil_append, others]
      · have hall : (List.replicate ((points hashing x).count k) x.1).filter (fun y => decide (hashing.repr y ≠ t)) =
            List.replicate ((points hashing x).count k) x.1 := by
          refine List.filter_eq_self.mpr fun y hy => ?_
          rw [(List.mem_replicate.mp hy).2]
          simpa using hx
        rw [others, List.filter_cons_of_pos (by simpa using hx), hall, members_cons, others]

/-- The node of a text, and the others. -/
theorem perm_cons_others {live : List (α × Nat)} (hdistinct : (live.map fun x => hashing.repr x.1).Nodup) {x : α × Nat}
    (hx : x ∈ live) : live.Perm (x :: others hashing live (hashing.repr x.1)) := by
  induction live with
  | nil => cases hx
  | cons y live ih =>
      obtain ⟨hy, hlive⟩ := List.nodup_cons.mp (List.map_cons ▸ hdistinct)
      rcases List.mem_cons.mp hx with rfl | hx
      · have hsame : others hashing live (hashing.repr x.1) = live := by
          refine List.filter_eq_self.mpr fun z hz => ?_
          have hne : hashing.repr z.1 ≠ hashing.repr x.1 := fun heq => hy (List.mem_map.mpr ⟨z, hz, heq⟩)
          simpa using hne
        rw [others, List.filter_cons_of_neg (by simp), ← others, hsame]
      · have hne : hashing.repr y.1 ≠ hashing.repr x.1 := fun heq => hy (List.mem_map.mpr ⟨x, hx, heq.symm⟩)
        rw [others, List.filter_cons_of_pos (by simpa using hne), ← others]
        exact ((ih hlive hx).cons y).trans (List.Perm.swap x y _)

/-- The indices that `Remove` goes through beyond those of the node. -/
def leftover (hashing : Hashing α) (replicas : Nat) (x : α × Nat) : List Nat :=
  ((List.range (replicas - x.2)).map (x.2 + ·)).map (point hashing (hashing.repr x.1))

theorem points_append_leftover {replicas : Nat} {x : α × Nat} (hx : x.2 ≤ replicas) :
    (List.range replicas).map (point hashing (hashing.repr x.1)) = points hashing x ++ leftover hashing replicas x := by
  rw [points, leftover, ← List.map_append, ← List.range_add, Nat.add_sub_cancel' hx]

/-- What the loop leaves of the keys: those of the others, but for the leftover indices. -/
theorem remove_keys {h : ConsistentHash α} {live : List (α × Nat)} (hc : Consistent hashing h live) {x : α × Nat}
    (hx : x ∈ live) {node : α} (hnode : hashing.repr node = hashing.repr x.1) :
    (remove hashing h node).keys.Perm
      ((allPoints hashing (others hashing live (hashing.repr x.1))).diff (leftover hashing h.replicas x)) := by
  have hmem : hashing.repr node ∈ h.nodes := (hc.nodes _).mpr (List.mem_map.mpr ⟨x, hx, hnode.symm⟩)
  obtain ⟨hkeys, -⟩ := removeLoop_spec hashing (hashing.repr node) (List.range h.replicas) h hc.sorted
  have hsplit : h.keys.Perm (points hashing x ++ allPoints hashing (others hashing live (hashing.repr x.1))) :=
    hc.keys.trans ((perm_cons_others hc.distinct hx).flatMap_right _)
  rw [remove, if_pos hmem]
  show ((List.range h.replicas).foldl (removeReplica hashing (hashing.repr node)) h).keys.Perm _
  rw [hkeys, hnode, points_append_leftover (hc.bounded x hx), List.diff_append]
  refine List.Perm.diff_right _ ((hsplit.diff_right _).trans ?_)
  rw [← Multiset.coe_eq_coe, ← Multiset.coe_sub, ← Multiset.coe_add, Multiset.add_comm,
    Multiset.add_sub_cancel_right]

theorem remove_ring {h : ConsistentHash α} {live : List (α × Nat)} (hc : Consistent hashing h live) (node : α) (k : Nat) :
    (remove hashing h node).ring.lookup k = listed (members hashing (others hashing live (hashing.repr node)) k) := by
  rw [members_others]
  by_cases hmem : hashing.repr node ∈ h.nodes
  · obtain ⟨-, -, -, -, hring⟩ := removeLoop_spec hashing (hashing.repr node) (List.range h.replicas) h hc.sorted
    rw [remove, if_pos hmem]
    show ((List.range h.replicas).foldl (removeReplica hashing (hashing.repr node)) h).ring.lookup k = _
    rw [hring, hc.ring, getD_listed]
    split
    · rfl
    · next hk =>
        -- no point of the node is here
        rw [List.filter_eq_self.mpr fun y hy => ?_]
        obtain ⟨r, hr, hky⟩ := mem_members.mp hy
        have hne : hashing.repr y ≠ hashing.repr node := fun heq => hk (by
          rw [points, List.mem_map] at hky
          obtain ⟨i, hi, rfl⟩ := hky
          refine List.mem_map.mpr ⟨i, List.mem_range.mpr ?_, by rw [heq]⟩
          exact Nat.lt_of_lt_of_le (List.mem_range.mp hi) (hc.bounded _ hr))
        simpa using hne
  · rw [remove, if_neg hmem, hc.ring, List.filter_eq_self.mpr fun y hy => ?_]
    obtain ⟨r, hr, -⟩ := mem_members.mp hy
    have hne : hashing.repr y ≠ hashing.repr node := fun heq =>
      hmem ((hc.nodes _).mpr (List.mem_map.mpr ⟨(y, r), hr, heq⟩))
    simpa using hne

theorem remove_frame {h : ConsistentHash α} {live : List (α × Nat)} (hc : Consistent hashing h live) (node : α) :
    (remove hashing h node).replicas = h.replicas ∧ (remove hashing h node).keys.Pairwise (· ≤ ·) ∧
      ∀ t, t ∈ (remove hashing h node).nodes ↔
        t ∈ (others hashing live (hashing.repr node)).map fun x => hashing.repr x.1 := by
  have hothers : ∀ t, (t ∈ (others hashing live (hashing.repr node)).map fun x => hashing.repr x.1) ↔
      t ≠ hashing.repr node ∧ t ∈ live.map fun x => hashing.repr x.1 := by
    intro t
    simp only [others, List.mem_map, List.mem_filter, decide_eq_true_eq]
    constructor
    · rintro ⟨x, ⟨hx, hne⟩, rfl⟩
      exact ⟨hne, x, hx, rfl⟩
    · rintro ⟨hne, x, hx, rfl⟩
      exact ⟨x, ⟨hx, hne⟩, rfl⟩
  rw [remove]
  by_cases hmem : hashing.repr node ∈ h.nodes
  · obtain ⟨-, hsorted, hreplicas, hnodes, -⟩ :=
      removeLoop_spec hashing (hashing.repr node) (List.range h.replicas) h hc.sorted
    rw [if_pos hmem]
    refine ⟨hreplicas, hsorted, fun t => ?_⟩
    rw [hothers, ← hc.nodes]
    show t ∈ Finset.erase _ _ ↔ _
    rw [hnodes, Finset.mem_erase]
  · rw [if_neg hmem]
    refine ⟨rfl, hc.sorted, fun t => ?_⟩
    rw [hothers, ← hc.nodes]
    exact ⟨fun ht => ⟨fun heq => hmem (heq ▸ ht), ht⟩, fun ht => ht.2⟩

/-- Two lists of keys, of which the first is to take nothing out of the second. -/
theorem diff_perm_iff {keys gone : List Nat} : (keys.diff gone).Perm keys ↔ ∀ k ∈ gone, k ∉ keys := by
  rw [List.perm_iff_count]
  constructor
  · intro h k hk hkeys
    have hcount := h k
    have hpos := List.count_pos_iff.mpr hk
    have hpos' := List.count_pos_iff.mpr hkeys
    rw [List.count_diff] at hcount
    omega
  · intro h k
    rw [List.count_diff]
    by_cases hk : k ∈ gone
    · rw [List.count_eq_zero.mpr (h k hk), Nat.zero_sub]
    · rw [List.count_eq_zero.mpr hk, Nat.sub_zero]

theorem others_distinct {live : List (α × Nat)} (hdistinct : (live.map fun x => hashing.repr x.1).Nodup) (t : Text) :
    ((others hashing live t).map fun x => hashing.repr x.1).Nodup :=
  hdistinct.sublist (List.filter_sublist.map _)

/-- **When a removal is clean**: the hash holds exactly the points of the other nodes, if and only if none of them is at
    an index of the removed node beyond its replicas. -/
theorem remove_consistent_iff {h : ConsistentHash α} {live : List (α × Nat)} (hc : Consistent hashing h live)
    {x : α × Nat} (hx : x ∈ live) {node : α} (hnode : hashing.repr node = hashing.repr x.1) :
    Consistent hashing (remove hashing h node) (others hashing live (hashing.repr node)) ↔
      ∀ k ∈ leftover hashing h.replicas x, k ∉ allPoints hashing (others hashing live (hashing.repr node)) := by
  have hkeys := remove_keys hc hx hnode
  rw [← hnode] at hkeys
  rw [← diff_perm_iff]
  obtain ⟨hreplicas, hsorted, hnodes⟩ := remove_frame hc node
  constructor
  · exact fun hc' => hkeys.symm.trans hc'.keys
  · intro hperm
    exact
      { distinct := others_distinct hc.distinct _
        nodes := hnodes
        bounded := fun y hy => hreplicas.symm ▸ hc.bounded y (List.mem_of_mem_filter hy)
        sorted := hsorted
        keys := hkeys.trans hperm
        ring := remove_ring hc node }

/-- A node that is not there. -/
theorem remove_absent {h : ConsistentHash α} {live : List (α × Nat)} (hc : Consistent hashing h live) {node : α}
    (hnode : ∀ x ∈ live, hashing.repr x.1 ≠ hashing.repr node) :
    remove hashing h node = h ∧ others hashing live (hashing.repr node) = live := by
  refine ⟨?_, List.filter_eq_self.mpr fun x hx => by simpa using hnode x hx⟩
  have hmem : hashing.repr node ∉ h.nodes := fun hmem => by
    obtain ⟨x, hx, heq⟩ := List.mem_map.mp ((hc.nodes _).mp hmem)
    exact hnode x hx heq
  rw [remove, if_neg hmem]

end ConsistentHash
end Hash
end ServiceKit
