import ServiceKit.Hash.Correctness.Ring

/-!
# `Hash.Correctness.Dispatch` — which node a key goes to

Over any sequence of additions and removals: where all nodes come by `Add`, the ring is sound for every hash function,
collisions included (`uniform_dispatch`). With weights it is in the runs of `CleanRun`, and in no others
(`cleanRun_iff`). There a node that comes, goes or changes its weight moves no key between two other nodes that share no
point (`moves_only_through_node`).
-/

namespace ServiceKit
namespace Hash
namespace ConsistentHash

open Lib

variable {α : Type} {sort : SortSlice} {hashing : Hashing α} {h : ConsistentHash α} {live : List (α × Nat)}

/-! ## Adding a node -/

/-- The replicas that a node gets. -/
def granted (max : Nat) (replicas : Int) : Nat := (if replicas > (max : Int) then (max : Int) else replicas).toNat

theorem granted_le (max : Nat) (replicas : Int) : granted max replicas ≤ max := by
  rw [granted]
  split <;> omega

/-- The nodes after a node was added. -/
def added (hashing : Hashing α) (max : Nat) (live : List (α × Nat)) (node : α) (replicas : Int) : List (α × Nat) :=
  others hashing live (hashing.repr node) ++ [(node, granted max replicas)]

theorem add_consistent (sort : SortSlice) {node : α} (replicas : Int)
    (hc : Consistent hashing (remove hashing h node) (others hashing live (hashing.repr node))) :
    Consistent hashing (addWithReplicas sort hashing h node replicas)
      (added hashing (remove hashing h node).replicas live node replicas) := by
  rw [addWithReplicas]
  generalize hg : remove hashing h node = g at hc
  obtain ⟨hkeys, hreplicas, hnodes, hring⟩ := addLoop_spec hashing node (granted g.replicas replicas)
    { g with nodes := insert (hashing.repr node) g.nodes }
  have hnew : hashing.repr node ∉ (others hashing live (hashing.repr node)).map fun x => hashing.repr x.1 := by
    intro hmem
    obtain ⟨x, hx, heq⟩ := List.mem_map.mp hmem
    exact of_decide_eq_true (List.mem_filter.mp hx).2 heq
  refine ⟨?_, fun t => ?_, fun x hx => ?_, ?_, ?_, fun k => ?_⟩
  · rw [added, List.map_append]
    refine List.nodup_append.mpr ⟨hc.distinct, List.nodup_singleton _, fun a ha b hb heq => hnew ?_⟩
    rw [heq, List.mem_singleton.mp hb] at ha
    exact ha
  · show t ∈ ((List.range (granted g.replicas replicas)).foldl (addReplica hashing (hashing.repr node) node) _).nodes ↔ _
    rw [hnodes, Finset.mem_insert, hc.nodes, added, List.map_append, List.mem_append, or_comm]
    exact or_congr_right List.mem_singleton.symm
  · show x.2 ≤ ((List.range (granted g.replicas replicas)).foldl (addReplica hashing (hashing.repr node) node) _).replicas
    rw [hreplicas]
    rcases List.mem_append.mp hx with hx | hx
    · exact hc.bounded x hx
    · rw [List.mem_singleton.mp hx]
      exact granted_le _ _
  · exact sort.sorted _ id _ fun x _ y _ => rfl
  · refine (sort.perm _ _).trans ?_
    show ((List.range (granted g.replicas replicas)).foldl (addReplica hashing (hashing.repr node) node) _).keys.Perm _
    rw [hkeys, allPoints, added, List.flatMap_append, List.flatMap_singleton]
    exact hc.keys.append_right _
  · show ((List.range (granted g.replicas replicas)).foldl (addReplica hashing (hashing.repr node) node) _).ring.lookup k = _
    obtain ⟨hget, hne⟩ := hring k
    have hmembers : members hashing (added hashing g.replicas live node replicas) k =
        members hashing (others hashing live (hashing.repr node)) k ++
          List.replicate ((points hashing (node, granted g.replicas replicas)).count k) node := by
      rw [members, added, List.flatMap_append, List.flatMap_singleton]
      rfl
    have hold : g.ring.lookup k = listed (members hashing (others hashing live (hashing.repr node)) k) := hc.ring k
    rw [hold, getD_listed, ← hmembers] at hget
    have hne' := hne (by
      rw [hold, listed]
      split
      · exact fun heq => by cases heq
      · next hnil => exact fun heq => hnil (Option.some.inj heq))
    cases hlook : ((List.range (granted g.replicas replicas)).foldl (addReplica hashing (hashing.repr node) node)
        { g with nodes := insert (hashing.repr node) g.nodes }).ring.lookup k with
    | none =>
        rw [hlook, Option.getD_none] at hget
        rw [listed, if_pos hget.symm]
    | some xs =>
        rw [hlook, Option.getD_some] at hget
        rw [hlook] at hne'
        rw [← hget, listed, if_neg fun hnil => hne' (congrArg some hnil)]

/-! ## Looking a key up -/

/-- The points of the nodes on the circle. -/
def circle (hashing : Hashing α) (live : List (α × Nat)) : Set Nat := {k | k ∈ allPoints hashing live}

theorem ring_empty_iff (hc : Consistent hashing h live) : h.ring.entries.length = 0 ↔ allPoints hashing live = [] := by
  have hkey : ∀ k, h.ring.lookup k = none ↔ k ∉ allPoints hashing live := by
    intro k
    rw [hc.ring, ← not_iff_not, not_not, ← members_ne_nil, listed]
    split
    · next hnil => simp [hnil]
    · next hne => simp [hne]
  constructor
  · intro hlen
    refine List.eq_nil_iff_forall_not_mem.mpr fun k => (hkey k).mp (AList.lookup_eq_none.mpr fun hmem => ?_)
    have hnil : h.ring.entries = [] := List.length_eq_zero_iff.mp hlen
    rw [AList.mem_keys, AList.keys, hnil] at hmem
    cases hmem
  · intro hnil
    rw [List.length_eq_zero_iff, List.eq_nil_iff_forall_not_mem]
    intro e he
    have hnone := (hkey e.1).mpr (by rw [hnil]; exact List.not_mem_nil)
    exact AList.lookup_eq_none.mp hnone (List.mem_keys_of_mem he)

/-- The key that `Get` comes to is the first on the circle, going up. -/
theorem owns_insertionPoint {keys : List Nat} (hsorted : keys.Pairwise (· ≤ ·)) (hne : 0 < keys.length) (hash : Nat) :
    Owns {k | k ∈ keys} hash (keys.getD (insertionPoint keys hash % keys.length) 0) := by
  obtain ⟨hle, hbelow, habove⟩ := insertionPoint_spec hsorted hash
  have hleast : ∀ i (hi : i < keys.length), ∀ j (hj : j < keys.length), i ≤ j → keys[i] ≤ keys[j] := by
    intro i hi j hj hij
    rcases Nat.lt_or_eq_of_le hij with hlt | rfl
    · exact List.pairwise_iff_getElem.mp hsorted i j hi hj hlt
    · exact Nat.le_refl _
  rcases Nat.lt_or_eq_of_le hle with hlt | heq
  · rw [Nat.mod_eq_of_lt hlt, List.getD_eq_getElem _ _ hlt]
    refine .inl ⟨⟨List.getElem_mem hlt, habove _ ?_⟩, fun q hq => ?_⟩
    · exact List.mem_iff_getElem.mpr ⟨0, by rw [List.length_drop]; omega, by simp⟩
    · obtain ⟨j, hj, rfl⟩ := List.mem_iff_getElem.mp hq.1
      refine hleast _ hlt j hj (Nat.not_lt.mp fun hjlt => ?_)
      have hmem : keys[j] ∈ keys.take (insertionPoint keys hash) :=
        List.mem_iff_getElem.mpr ⟨j, by rw [List.length_take]; omega, by simp⟩
      exact absurd hq.2 (Nat.not_le.mpr (hbelow _ hmem))
  · -- all points are below: the first one is next
    rw [heq, Nat.mod_self, List.getD_eq_getElem _ _ hne]
    refine .inr ⟨fun q hq => hbelow q ?_, List.getElem_mem hne, fun q hq => ?_⟩
    · rw [heq, List.take_length]
      exact hq
    · obtain ⟨j, hj, rfl⟩ := List.mem_iff_getElem.mp hq
      exact hleast 0 hne j hj (Nat.zero_le j)

/-- `Get`, when the hash is consistent. -/
theorem get_spec (hc : Consistent hashing h live) (v : α) :
    (allPoints hashing live = [] ∧ get hashing h v = .none) ∨
      ∃ k x, Owns (circle hashing live) (hashing.hashFunc (hashing.repr v)) k ∧ x ∈ members hashing live k ∧
        get hashing h v = .node x := by
  rw [get]
  by_cases hlen : h.ring.entries.length = 0
  · rw [if_pos hlen]
    exact .inl ⟨(ring_empty_iff hc).mp hlen, rfl⟩
  · rw [if_neg hlen]
    have hne : allPoints hashing live ≠ [] := fun hnil => hlen ((ring_empty_iff hc).mpr hnil)
    have hkeys : 0 < h.keys.length := by
      rw [hc.keys.length_eq]
      exact List.length_pos_iff.mpr hne
    have howns := owns_insertionPoint hc.sorted hkeys (hashing.hashFunc (hashing.repr v))
    have hset : {k | k ∈ h.keys} = circle hashing live := Set.ext fun k => hc.keys.mem_iff
    rw [hset] at howns
    simp only [if_neg (Nat.pos_iff_ne_zero.mp hkeys)]
    generalize h.keys.getD (insertionPoint h.keys (hashing.hashFunc (hashing.repr v)) % h.keys.length) 0 = k at howns
    have hmembers : members hashing live k ≠ [] := members_ne_nil.mpr howns.mem
    rw [hc.ring, getD_listed]
    refine .inr ⟨k, ?_⟩
    cases hm : members hashing live k with
    | nil => exact absurd hm hmembers
    | cons x xs =>
        cases xs with
        | nil => exact ⟨x, howns, List.mem_cons_self, rfl⟩
        | cons y ys =>
            -- several nodes have this point: a second hash chooses
            have hlt := Nat.mod_lt (hashing.hashFunc (innerRepr hashing v)) (Nat.succ_pos (y :: ys).length)
            have hget := List.getElem?_eq_getElem (l := x :: y :: ys) hlt
            refine ⟨_, howns, List.getElem_mem hlt, ?_⟩
            simp only
            rw [show (x :: y :: ys).length = (y :: ys).length.succ from rfl] at *
            rw [hget]

/-! ## Runs -/

/-- A call that changes the nodes. -/
inductive Op (α : Type) where
  | add (node : α) (replicas : Int)
  | remove (node : α)

/-- The node of a call. -/
def Op.node : Op α → α
  | .add node _ => node
  | .remove node => node

def applyOp (sort : SortSlice) (hashing : Hashing α) (h : ConsistentHash α) : Op α → ConsistentHash α
  | .add node replicas => addWithReplicas sort hashing h node replicas
  | .remove node => remove hashing h node

/-- The hash after some calls. -/
def after (sort : SortSlice) (hashing : Hashing α) (replicas : Nat) (ops : List (Op α)) : ConsistentHash α :=
  ops.foldl (applyOp sort hashing) (newCustom replicas)

/-- The bound on replicas that `NewCustomConsistentHash` sets. -/
def limit (replicas : Nat) : Nat := if replicas < minReplicas then minReplicas else replicas

def liveStep (hashing : Hashing α) (max : Nat) (live : List (α × Nat)) : Op α → List (α × Nat)
  | .add node replicas => added hashing max live node replicas
  | .remove node => others hashing live (hashing.repr node)

/-- The nodes after some calls, each with its replicas. -/
def liveAfter (hashing : Hashing α) (max : Nat) (ops : List (Op α)) : List (α × Nat) :=
  ops.foldl (liveStep hashing max) []

/-- The call takes no key from another node: at no index beyond the replicas of its node. -/
def CleanStep (hashing : Hashing α) (max : Nat) (live : List (α × Nat)) (op : Op α) : Prop :=
  ∀ x ∈ live, hashing.repr x.1 = hashing.repr op.node →
    ∀ k ∈ leftover hashing max x, k ∉ allPoints hashing (others hashing live (hashing.repr op.node))

/-- Every call is clean for the nodes that it finds. -/
def CleanRun (hashing : Hashing α) (max : Nat) (ops : List (Op α)) : Prop :=
  ∀ pre op post, ops = pre ++ op :: post → CleanStep hashing max (liveAfter hashing max pre) op

/-- The part of a call that takes the node out. -/
theorem remove_clean_iff (hc : Consistent hashing h live) (op : Op α) :
    Consistent hashing (remove hashing h op.node) (others hashing live (hashing.repr op.node)) ↔
      CleanStep hashing h.replicas live op := by
  by_cases hmem : ∃ x ∈ live, hashing.repr x.1 = hashing.repr op.node
  · obtain ⟨x, hx, heq⟩ := hmem
    rw [remove_consistent_iff hc hx heq.symm]
    constructor
    · intro hclean y hy hynode
      obtain rfl := List.inj_on_of_nodup_map hc.distinct hy hx (hynode.trans heq.symm)
      exact hclean
    · exact fun hclean => hclean x hx heq
  · have habsent : ∀ x ∈ live, hashing.repr x.1 ≠ hashing.repr op.node := fun x hx heq => hmem ⟨x, hx, heq⟩
    obtain ⟨hsame, hothers⟩ := remove_absent hc habsent
    rw [hsame, hothers]
    exact ⟨fun _ x hx heq => absurd heq (habsent x hx), fun _ => hc⟩

theorem remove_replicas (h : ConsistentHash α) (node : α) : (remove hashing h node).replicas = h.replicas := by
  have hloop : ∀ (is : List Nat) (g : ConsistentHash α),
      (is.foldl (removeReplica hashing (hashing.repr node)) g).replicas = g.replicas := by
    intro is
    induction is with
    | nil => exact fun g => rfl
    | cons i is ih => exact fun g => ih _
  rw [remove]
  split
  · exact hloop _ h
  · rfl

/-- **One call.** -/
theorem step_consistent_iff (sort : SortSlice) (hc : Consistent hashing h live) (op : Op α) :
    Consistent hashing (applyOp sort hashing h op) (liveStep hashing h.replicas live op) ↔
      CleanStep hashing h.replicas live op := by
  rw [← remove_clean_iff hc op]
  cases op with
  | remove node => exact Iff.rfl
  | add node replicas =>
      constructor
      · intro hc'
        -- what the loop adds is the same on both sides
        obtain ⟨hkeys, -⟩ := addLoop_spec hashing node (granted (remove hashing h node).replicas replicas)
          { remove hashing h node with nodes := insert (hashing.repr node) (remove hashing h node).nodes }
        have hperm := (sort.perm (fun x y => decide (x < y)) _).symm.trans hc'.keys
        rw [liveStep, added, allPoints, List.flatMap_append, List.flatMap_singleton, ← remove_replicas h node] at hperm
        have hold : (remove hashing h node).keys.Perm (allPoints hashing (others hashing live (hashing.repr node))) :=
          (List.perm_append_right_iff _).mp (hkeys ▸ hperm)
        obtain ⟨hreplicas, hsorted, hnodes⟩ := remove_frame hc node
        exact
          { distinct := others_distinct hc.distinct _
            nodes := hnodes
            bounded := fun y hy => hreplicas.symm ▸ hc.bounded y (List.mem_of_mem_filter hy)
            sorted := hsorted
            keys := hold
            ring := remove_ring hc node }
      · intro hc'
        have hadd := add_consistent sort replicas hc'
        rw [remove_replicas] at hadd
        exact hadd

section Runs

variable {replicas : Nat} {ops : List (Op α)}

theorem after_replicas (sort : SortSlice) (hashing : Hashing α) (replicas : Nat) (ops : List (Op α)) :
    (after sort hashing replicas ops).replicas = limit replicas := by
  induction ops using List.reverseRec with
  | nil => rfl
  | append_singleton ops op ih =>
      rw [after, List.foldl_append, List.foldl_cons, List.foldl_nil, ← after, ← ih]
      cases op with
      | remove node => exact remove_replicas _ node
      | add node r =>
          obtain ⟨-, hloop, -⟩ := addLoop_spec hashing node
            (granted (remove hashing (after sort hashing replicas ops) node).replicas r)
            { remove hashing (after sort hashing replicas ops) node with
              nodes := insert (hashing.repr node) (remove hashing (after sort hashing replicas ops) node).nodes }
          exact hloop.trans (remove_replicas _ node)

theorem consistent_new (hashing : Hashing α) (replicas : Nat) : Consistent hashing (newCustom replicas) [] :=
  { distinct := List.nodup_nil
    nodes := fun t => ⟨fun ht => absurd ht (Finset.notMem_empty t), fun ht => absurd ht List.not_mem_nil⟩
    bounded := fun _ hx => absurd hx List.not_mem_nil
    sorted := List.Pairwise.nil
    keys := List.Perm.refl _
    ring := fun k => AList.lookup_empty k }

/-- The clean calls are those that keep the hash consistent. -/
theorem after_snoc_iff (sort : SortSlice) (op : Op α)
    (hc : Consistent hashing (after sort hashing replicas ops) (liveAfter hashing (limit replicas) ops)) :
    Consistent hashing (after sort hashing replicas (ops ++ [op])) (liveAfter hashing (limit replicas) (ops ++ [op])) ↔
      CleanStep hashing (limit replicas) (liveAfter hashing (limit replicas) ops) op := by
  have hstep := step_consistent_iff sort hc op
  rw [after_replicas] at hstep
  rw [after, liveAfter, List.foldl_append, List.foldl_append, ← after, ← liveAfter]
  exact hstep

theorem CleanRun.init {op : Op α} (hclean : CleanRun hashing (limit replicas) (ops ++ [op])) :
    CleanRun hashing (limit replicas) ops := fun pre op' post hops =>
  hclean pre op' (post ++ [op]) (by rw [hops, List.append_assoc, List.cons_append])

theorem CleanRun.last {op : Op α} (hclean : CleanRun hashing (limit replicas) (ops ++ [op])) :
    CleanStep hashing (limit replicas) (liveAfter hashing (limit replicas) ops) op := hclean ops op [] rfl

theorem CleanRun.snoc {op : Op α} (hclean : CleanRun hashing (limit replicas) ops)
    (hop : CleanStep hashing (limit replicas) (liveAfter hashing (limit replicas) ops) op) :
    CleanRun hashing (limit replicas) (ops ++ [op]) := by
  intro pre op' post hops
  rcases List.eq_nil_or_concat post with rfl | ⟨post', last, rfl⟩
  · obtain ⟨rfl, heq⟩ := List.append_inj' hops rfl
    obtain rfl := List.head_eq_of_cons_eq heq
    exact hop
  · rw [List.concat_eq_append, ← List.cons_append, ← List.append_assoc] at hops
    exact hclean pre op' post' (List.append_inj' hops rfl).1

theorem after_consistent (sort : SortSlice) (hclean : CleanRun hashing (limit replicas) ops) :
    Consistent hashing (after sort hashing replicas ops) (liveAfter hashing (limit replicas) ops) := by
  induction ops using List.reverseRec with
  | nil => exact consistent_new hashing replicas
  | append_singleton ops op ih => exact (after_snoc_iff sort op (ih hclean.init)).mpr hclean.last

/-- **Exactly the clean runs are sound**: in every state of a run the keys and the ring are those of the nodes that were
    added and not removed, each with its replicas, if and only if no call meets a key of another node at an index beyond
    the replicas of its own. -/
theorem cleanRun_iff (sort : SortSlice) (hashing : Hashing α) (replicas : Nat) (ops : List (Op α)) :
    (∀ pre post, ops = pre ++ post →
      Consistent hashing (after sort hashing replicas pre) (liveAfter hashing (limit replicas) pre)) ↔
      CleanRun hashing (limit replicas) ops := by
  constructor
  · intro hall pre op post hops
    refine (after_snoc_iff sort op (hall pre (op :: post) hops)).mp (hall (pre ++ [op]) post ?_)
    rw [hops, List.append_assoc, List.singleton_append]
  · intro hclean pre post hops
    refine after_consistent sort fun pre' op post' hpre => hclean pre' op (post' ++ post) ?_
    rw [hops, hpre, List.append_assoc, List.cons_append]

/-! ### Nodes without weights -/

/-- All nodes come by `Add`, or with more replicas than the hash grants. -/
def Uniform (max : Nat) (ops : List (Op α)) : Prop := ∀ node r, Op.add node r ∈ ops → (max : Int) ≤ r

theorem uniform_replicas {max : Nat} (huniform : Uniform max ops) : ∀ x ∈ liveAfter hashing max ops, x.2 = max := by
  induction ops using List.reverseRec with
  | nil => exact fun x hx => absurd hx List.not_mem_nil
  | append_singleton ops op ih =>
      have hold := ih fun node r hmem => huniform node r (List.mem_append_left _ hmem)
      rw [liveAfter, List.foldl_append, List.foldl_cons, List.foldl_nil, ← liveAfter]
      cases op with
      | remove node => exact fun x hx => hold x (List.mem_of_mem_filter hx)
      | add node r =>
          intro x hx
          rcases List.mem_append.mp hx with hx | hx
          · exact hold x (List.mem_of_mem_filter hx)
          · have hr := huniform node r (List.mem_append_right _ (List.mem_singleton_self _))
            rw [List.mem_singleton.mp hx]
            show granted max r = max
            rw [granted]
            split <;> omega

theorem uniform_clean {max : Nat} (huniform : Uniform max ops) : CleanRun hashing max ops := by
  intro pre op post hops x hx _ k hk
  have hpre : Uniform max pre := fun node r hmem => huniform node r (hops ▸ List.mem_append_left _ hmem)
  -- there is no index beyond its own
  rw [leftover, uniform_replicas hpre x hx, Nat.sub_self] at hk
  exact absurd hk List.not_mem_nil

theorem limit_pos (replicas : Nat) : 0 < limit replicas := by
  rw [limit, minReplicas]
  split <;> omega

/-- **The ring without weights**: after any calls of `Add` and `Remove`, for every hash function, `Get` finds no node if
    and only if none is there, and else one of those that are there, which has the first point on the circle from the
    hash of the key on. It never panics. -/
theorem uniform_dispatch (sort : SortSlice) (hashing : Hashing α) (huniform : Uniform (limit replicas) ops) (v : α) :
    (liveAfter hashing (limit replicas) ops = [] ∧ get hashing (after sort hashing replicas ops) v = .none) ∨
      ∃ k x, Owns (circle hashing (liveAfter hashing (limit replicas) ops)) (hashing.hashFunc (hashing.repr v)) k ∧
        x ∈ members hashing (liveAfter hashing (limit replicas) ops) k ∧
        get hashing (after sort hashing replicas ops) v = .node x := by
  rcases get_spec (after_consistent sort (uniform_clean huniform)) v with ⟨hnil, hget⟩ | hfound
  · refine .inl ⟨List.eq_nil_iff_forall_not_mem.mpr fun x hx => ?_, hget⟩
    -- a node has a point
    have hpoint : point hashing (hashing.repr x.1) 0 ∈ points hashing x :=
      List.mem_map.mpr ⟨0, List.mem_range.mpr (uniform_replicas huniform x hx ▸ limit_pos replicas), rfl⟩
    exact List.eq_nil_iff_forall_not_mem.mp hnil _ (mem_allPoints.mpr ⟨x, hx, hpoint⟩)
  · exact .inr hfound

/-- Bytes that are added up. -/
def summing : Hashing Text := ⟨fun t => t.foldl (fun n c => n + c.toNat) 0, id, id⟩

/-- The node `b` is removed and added again. -/
def readded : List (Op Text) := [.add ['a'] 100, .add ['b'] 100, .remove ['b'], .add ['b'] 200]

theorem uniform_dispatch_readded :
    Uniform (limit 5) readded ∧
      ((liveAfter summing (limit 5) readded = [] ∧
          get summing (after .insertion summing 5 readded) ['k'] = .none) ∨
        ∃ k x, Owns (circle summing (liveAfter summing (limit 5) readded)) 107 k ∧
          x ∈ members summing (liveAfter summing (limit 5) readded) k ∧
          get summing (after .insertion summing 5 readded) ['k'] = .node x) := by
  have huniform : Uniform (limit 5) readded := by
    intro node r hmem
    have hr : r = 100 ∨ r = 200 := by
      simp [readded] at hmem
      tauto
    show (100 : Int) ≤ r
    omega
  exact ⟨huniform, uniform_dispatch .insertion summing huniform ['k']⟩

/-! ### What a change of the nodes moves -/

/-- No two of the nodes share a point. -/
def Apart (hashing : Hashing α) (live : List (α × Nat)) : Prop :=
  ∀ x ∈ live, ∀ y ∈ live, ∀ k, k ∈ points hashing x → k ∈ points hashing y → x = y

/-- What `Get` finds, when it is not the node of the call, is found among the others alone. -/
theorem owns_among_others (hc : Consistent hashing h live) {v x : α} {t : Text} (hget : get hashing h v = .node x)
    (hne : hashing.repr x ≠ t) :
    ∃ k r, Owns (circle hashing (others hashing live t)) (hashing.hashFunc (hashing.repr v)) k ∧
      (x, r) ∈ others hashing live t ∧ k ∈ points hashing (x, r) := by
  rcases get_spec hc v with ⟨-, hnone⟩ | ⟨k, y, howns, hy, hnode⟩
  · rw [hnone] at hget
    cases hget
  · rw [hnode] at hget
    obtain rfl := Found.node.inj hget
    obtain ⟨r, hr, hk⟩ := mem_members.mp hy
    have hmem : (y, r) ∈ others hashing live t := List.mem_filter.mpr ⟨hr, by simpa using hne⟩
    have hsub : circle hashing (others hashing live t) ⊆ circle hashing live := by
      intro q hq
      obtain ⟨z, hz, hqz⟩ := mem_allPoints.mp hq
      exact mem_allPoints.mpr ⟨z, List.mem_of_mem_filter hz, hqz⟩
    exact ⟨k, r, howns.of_subset hsub (mem_allPoints.mpr ⟨_, hmem, hk⟩), hmem, hk⟩

theorem others_liveStep (max : Nat) (op : Op α) :
    others hashing (liveStep hashing max live op) (hashing.repr op.node) =
      others hashing live (hashing.repr op.node) := by
  have hidem : others hashing (others hashing live (hashing.repr op.node)) (hashing.repr op.node) =
      others hashing live (hashing.repr op.node) :=
    List.filter_eq_self.mpr fun x hx => (List.mem_filter.mp hx).2
  cases op with
  | remove node => exact hidem
  | add node r =>
      rw [liveStep, added, others, List.filter_append, ← others]
      show others hashing (others hashing live (hashing.repr node)) (hashing.repr node) ++ _ = _
      rw [show others hashing (others hashing live (hashing.repr node)) (hashing.repr node) = _ from hidem]
      simp [Op.node]

/-- **A change moves only what it must**: in a clean run, when a node comes, goes or changes its replicas, every key that
    was not its and is not its afterwards stays with its node, if the other nodes share no point. -/
theorem moves_only_through_node (sort : SortSlice) {op : Op α} {v x y : α}
    (hclean : CleanRun hashing (limit replicas) (ops ++ [op]))
    (hapart : Apart hashing (others hashing (liveAfter hashing (limit replicas) ops) (hashing.repr op.node)))
    (hx : get hashing (after sort hashing replicas ops) v = .node x) (hxne : hashing.repr x ≠ hashing.repr op.node)
    (hy : get hashing (after sort hashing replicas (ops ++ [op])) v = .node y)
    (hyne : hashing.repr y ≠ hashing.repr op.node) : x = y := by
  obtain ⟨k, r, howns, hxmem, hk⟩ := owns_among_others (after_consistent sort hclean.init) hx hxne
  obtain ⟨k', r', howns', hymem, hk'⟩ := owns_among_others (after_consistent sort hclean) hy hyne
  rw [liveAfter, List.foldl_append, List.foldl_cons, List.foldl_nil, ← liveAfter, others_liveStep] at howns' hymem
  obtain rfl := howns.unique howns'
  exact congrArg Prod.fst (hapart _ hxmem _ hymem k hk hk')

/-- Two light nodes, to which a third comes. -/
theorem moves_only_through_node_third :
    get summing (after .insertion summing 5 [.add ['a'] 1, .add ['z'] 1]) ['k'] = .node ['a'] ∧
      get summing (after .insertion summing 5 ([.add ['a'] 1, .add ['z'] 1] ++ [.add ['c'] 1])) ['k'] = .node ['a'] ∧
      ['a'] = ['a'] := by
  have hfirst : CleanRun summing (limit 5) ([] ++ [Op.add ['a'] 1]) :=
    CleanRun.snoc (fun pre op post hops => by simp at hops) (by unfold CleanStep; decide)
  have hsecond : CleanRun summing (limit 5) ([Op.add ['a'] 1] ++ [Op.add ['z'] 1]) :=
    hfirst.snoc (by unfold CleanStep; decide)
  have hclean : CleanRun summing (limit 5) ([Op.add ['a'] 1, .add ['z'] 1] ++ [Op.add ['c'] 1]) :=
    hsecond.snoc (by unfold CleanStep; decide)
  have hapart : Apart summing (others summing (liveAfter summing (limit 5) [.add ['a'] 1, .add ['z'] 1]) ['c']) := by
    unfold Apart
    decide
  have hx : get summing (after .insertion summing 5 [.add ['a'] 1, .add ['z'] 1]) ['k'] = .node ['a'] := by decide
  have hy : get summing (after .insertion summing 5 ([.add ['a'] 1, .add ['z'] 1] ++ [.add ['c'] 1])) ['k'] =
      .node ['a'] := by decide
  exact ⟨hx, hy, moves_only_through_node .insertion hclean hapart hx (by decide) hy (by decide)⟩

end Runs

end ConsistentHash
end Hash
end ServiceKit
