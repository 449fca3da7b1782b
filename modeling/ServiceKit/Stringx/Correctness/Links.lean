import ServiceKit.Stringx.Trie
import ServiceKit.Lib.Suffixes

/-!
# `Stringx.Correctness.Links` — the tree of the words and its failure links

`add` makes the nodes of all prefixes of the words (`shaped_ofWords`). `build` links every node to the longest proper
suffix of its word that is a node too (`build_linked`): the queue comes to the nodes by their depth, so that the nodes on
the way up from a node are linked before its children are.
-/

namespace ServiceKit
namespace Stringx

open Lib

variable {K : List Addr} {E : Text → Prop} {h h' : Nodes} {a b nd : Addr} {c : Char}

/-! ## The tree -/

/-- The nodes are those at the addresses `K`, and the words `E` end at theirs. -/
structure Shaped (K : List Addr) (E : Text → Prop) (h : Nodes) : Prop where
  mem : ∀ a, a ∈ h ↔ a ∈ K
  root : [] ∈ K
  closed : ∀ a c, a ++ [c] ∈ K → a ∈ K
  ends : ∀ a, E a → a ∈ K
  depth : ∀ a ∈ K, (h.node a).depth = a.length
  child : ∀ a ∈ K, ∀ c, h.child a c = if a ++ [c] ∈ K then some (a ++ [c]) else none
  isEnd : ∀ a ∈ K, ((h.node a).isEnd = true ↔ E a)

@[simp] theorem node_insert_self (h : Nodes) (a : Addr) (n : Node) : Nodes.node (h.insert a n) a = n := by
  rw [Nodes.node, AList.lookup_insert, Option.getD_some]

theorem node_insert_ne (h : Nodes) (n : Node) (hne : b ≠ a) : Nodes.node (h.insert a n) b = h.node b := by
  rw [Nodes.node, AList.lookup_insert_ne hne, Nodes.node]

theorem child_insert_self (h : Nodes) (a : Addr) (n : Node) (c : Char) :
    Nodes.child (h.insert a n) a c = n.children.lookup c := by
  rw [Nodes.child, node_insert_self]

theorem child_insert_ne (h : Nodes) (n : Node) (hne : b ≠ a) (c : Char) :
    Nodes.child (h.insert a n) b c = h.child b c := by
  rw [Nodes.child, node_insert_ne h n hne, Nodes.child]

theorem concat_ne (a : Addr) (c : Char) : a ++ [c] ≠ a := fun heq => by
  have hlength := congrArg List.length heq
  rw [List.length_append, List.length_singleton] at hlength
  omega

/-- A word ends here. -/
theorem Shaped.finish (hs : Shaped K E h) (ha : a ∈ K) :
    Shaped K (fun b => E b ∨ b = a) (h.insert a { h.node a with isEnd := true }) where
  mem b := by
    rw [AList.mem_insert, hs.mem]
    exact ⟨fun hb => hb.elim (fun heq => heq ▸ ha) id, .inr⟩
  root := hs.root
  closed := hs.closed
  ends := by
    rintro b (hb | rfl)
    · exact hs.ends b hb
    · exact ha
  depth b hb := by
    by_cases heq : b = a
    · rw [heq, node_insert_self]
      exact hs.depth a ha
    · rw [node_insert_ne h _ heq, hs.depth b hb]
  child b hb c := by
    by_cases heq : b = a
    · rw [heq, child_insert_self]
      exact hs.child a ha c
    · rw [child_insert_ne h _ heq, hs.child b hb]
  isEnd b hb := by
    by_cases heq : b = a
    · rw [heq, node_insert_self]
      exact ⟨fun _ => .inr rfl, fun _ => rfl⟩
    · rw [node_insert_ne h _ heq, hs.isEnd b hb]
      exact (or_iff_left heq).symm

/-- A new child. -/
theorem Shaped.grow (hs : Shaped K E h) (ha : a ∈ K) (hc : a ++ [c] ∉ K) :
    Shaped ((a ++ [c]) :: K) E
      ((h.insert a { h.node a with children := (h.node a).children.insert c (a ++ [c]) }).insert (a ++ [c])
        (newNode (a.length + 1))) where
  mem b := by
    rw [AList.mem_insert, AList.mem_insert, hs.mem, List.mem_cons]
    exact or_congr_right ⟨fun hb => hb.elim (fun heq => heq ▸ ha) id, .inr⟩
  root := List.mem_cons_of_mem _ hs.root
  closed b d hb := by
    rcases List.mem_cons.mp hb with heq | hb
    · rw [(List.append_inj' heq rfl).1]
      exact List.mem_cons_of_mem _ ha
    · exact List.mem_cons_of_mem _ (hs.closed b d hb)
  ends b hb := List.mem_cons_of_mem _ (hs.ends b hb)
  depth b hb := by
    by_cases hnew : b = a ++ [c]
    · rw [hnew, node_insert_self, List.length_append]
      rfl
    · have hbK : b ∈ K := (List.mem_cons.mp hb).resolve_left hnew
      rw [node_insert_ne _ _ hnew]
      by_cases heq : b = a
      · rw [heq, node_insert_self]
        exact hs.depth a ha
      · rw [node_insert_ne h _ heq, hs.depth b hbK]
  child b hb d := by
    by_cases hnew : b = a ++ [c]
    · -- the new node has no children, and there are none below it
      rw [hnew, child_insert_self, if_neg]
      · rfl
      · intro hmem
        rcases List.mem_cons.mp hmem with heq | hmem
        · exact concat_ne _ d heq
        · exact hc (hs.closed _ d hmem)
    · have hbK : b ∈ K := (List.mem_cons.mp hb).resolve_left hnew
      rw [child_insert_ne _ _ hnew]
      by_cases heq : b = a
      · rw [heq, child_insert_self]
        by_cases hd : d = c
        · rw [hd, if_pos List.mem_cons_self]
          exact AList.lookup_insert _
        · have hold : a ++ [d] ∈ (a ++ [c]) :: K ↔ a ++ [d] ∈ K := by
            rw [List.mem_cons]
            exact or_iff_right fun heq' => hd (List.head_eq_of_cons_eq (List.append_cancel_left heq'))
          show ((h.node a).children.insert c (a ++ [c])).lookup d = _
          rw [AList.lookup_insert_ne hd]
          simp only [hold]
          exact hs.child a ha d
      · have hold : b ++ [d] ∈ (a ++ [c]) :: K ↔ b ++ [d] ∈ K := by
          rw [List.mem_cons]
          exact or_iff_right fun heq' => heq (List.append_inj' heq' rfl).1
        rw [child_insert_ne h _ heq, hs.child b hbK]
        simp only [hold]
  isEnd b hb := by
    by_cases hnew : b = a ++ [c]
    · rw [hnew, node_insert_self]
      exact ⟨fun hfalse => absurd hfalse Bool.false_ne_true, fun he => absurd (hs.ends _ he) hc⟩
    · have hbK : b ∈ K := (List.mem_cons.mp hb).resolve_left hnew
      rw [node_insert_ne _ _ hnew]
      by_cases heq : b = a
      · rw [heq, node_insert_self]
        exact hs.isEnd a ha
      · rw [node_insert_ne h _ heq, hs.isEnd b hbK]

theorem Shaped.congr {E' : Text → Prop} (hs : Shaped K E h) (hE : ∀ a, E a ↔ E' a) : Shaped K E' h := by
  have heq : E = E' := funext fun a => propext (hE a)
  rw [← heq]
  exact hs

/-- No node is linked. -/
def Unlinked (h : Nodes) : Prop := ∀ a, (h.node a).fail = none

theorem Unlinked.insert {n : Node} (hu : Unlinked h) (hn : n.fail = none) : Unlinked (h.insert a n) := by
  intro b
  by_cases heq : b = a
  · rw [heq, node_insert_self, hn]
  · rw [node_insert_ne h n heq]
    exact hu b

theorem addFrom_shaped (chars : Text) (hs : Shaped K E h) (hu : Unlinked h) (ha : a ∈ K) :
    (∃ K', Shaped K' (fun b => E b ∨ b = a ++ chars) (h.addFrom a a.length chars)) ∧
      Unlinked (h.addFrom a a.length chars) := by
  induction chars generalizing K h a with
  | nil =>
      rw [Nodes.addFrom, List.append_nil]
      exact ⟨⟨K, hs.finish ha⟩, hu.insert (hu a)⟩
  | cons c chars ih =>
      have hlength : a.length + 1 = (a ++ [c]).length := by rw [List.length_append]; rfl
      have happend : a ++ c :: chars = (a ++ [c]) ++ chars := by rw [List.append_assoc]; rfl
      rw [Nodes.addFrom, hs.child a ha, happend]
      by_cases hmem : a ++ [c] ∈ K
      · rw [if_pos hmem]
        simp only
        rw [hlength]
        exact ih hs hu hmem
      · rw [if_neg hmem]
        simp only
        have hnew := hs.grow ha hmem
        rw [hlength] at hnew ⊢
        exact ih hnew (Unlinked.insert (Unlinked.insert hu (by exact hu a)) rfl) List.mem_cons_self

/-- **The nodes of the words.** -/
theorem shaped_ofWords (words : List Text) :
    (∃ K, Shaped K (fun a => a ≠ [] ∧ a ∈ words) (Nodes.ofWords words)) ∧ Unlinked (Nodes.ofWords words) := by
  induction words using List.reverseRecOn with
  | nil =>
      have hnode : ∀ a, Nodes.node (AList.singleton [] (newNode 0)) a = newNode 0 := by
        intro a
        by_cases heq : a = []
        · rw [heq]
          rfl
        · rw [Nodes.node, AList.lookup_eq_none.mpr (by simpa [AList.mem_keys] using heq), Option.getD_none]
      refine ⟨⟨[[]], ?_⟩, fun a => ?_⟩
      · exact
          { mem := fun a => Iff.rfl
            root := List.mem_singleton_self _
            closed := fun a c hmem => absurd (List.mem_singleton.mp hmem) (by simp)
            ends := fun a ha => absurd ha.2 List.not_mem_nil
            depth := fun a ha => by
              rw [List.mem_singleton.mp ha]
              rfl
            child := fun a ha c => by
              rw [if_neg (by simp), Nodes.child, Nodes.ofWords, List.foldl_nil, hnode]
              rfl
            isEnd := fun a ha => by
              rw [Nodes.ofWords, List.foldl_nil, hnode]
              exact ⟨fun hf => absurd hf Bool.false_ne_true, fun he => absurd he.2 List.not_mem_nil⟩ }
      · rw [Nodes.ofWords, List.foldl_nil, hnode]
        rfl
  | append_singleton words word ih =>
      obtain ⟨⟨K, hs⟩, hu⟩ := ih
      rw [Nodes.ofWords, List.foldl_append, List.foldl_cons, List.foldl_nil, ← Nodes.ofWords, Nodes.add]
      by_cases hempty : word.length = 0
      · rw [if_pos hempty]
        have hword := List.length_eq_zero_iff.mp hempty
        refine ⟨⟨K, hs.congr fun a => ?_⟩, hu⟩
        rw [List.mem_append, List.mem_singleton, hword]
        exact and_congr_right fun hne => (or_iff_left hne).symm
      · rw [if_neg hempty]
        obtain ⟨⟨K', hs'⟩, hu'⟩ := addFrom_shaped word hs hu hs.root
        refine ⟨⟨K', hs'.congr fun a => ?_⟩, hu'⟩
        rw [List.nil_append, List.mem_append, List.mem_singleton, and_or_left]
        refine or_congr_right ⟨fun heq => ⟨fun hnil => hempty ?_, heq⟩, fun ha => ha.2⟩
        rw [← heq, hnil]
        rfl

/-! ## The links -/

scoped instance decidableListed (w : Text) (K : List Text) : Decidable (w ∈ K) :=
  decidable_of_iff (K.contains w = true) List.contains_iff_mem

/-- Where the search goes on when it fails at `a`. -/
def target (K : List Addr) (a : Addr) : Addr := longestSuffix (fun w => w ∈ K) a.tail

theorem target_mem (hs : Shaped K E h) (a : Addr) : target K a ∈ K := longestSuffix_mem hs.root a.tail

theorem length_target_lt (ha : a ≠ []) : (target K a).length < a.length := by
  have hle := (longestSuffix_suffix (P := fun w => w ∈ K) a.tail).length_le
  have hpos := List.length_pos_iff.mpr ha
  rw [List.length_tail] at hle
  rw [target]
  omega

/-- The links of the nodes down to a depth are right. -/
structure LinkedTo (K : List Addr) (d : Nat) (h : Nodes) : Prop where
  root : (h.node []).fail = none
  link : ∀ a ∈ K, a ≠ [] → a.length ≤ d → (h.node a).fail = some (target K a)

/-- What the loop of `build` finds for a child of `cur`, or of a node whose search goes on at `cur`. -/
theorem failFrom_eq (hs : Shaped K E h) {d : Nat} (hl : LinkedTo K d h) (key : Char) (fuel : Nat) {cur : Addr}
    (hcur : cur ∈ K) (hd : cur.length ≤ d) (hfuel : cur.length < fuel) :
    h.failFrom key fuel cur =
      some (if cur = [] then [] else longestSuffix (fun w => w ∈ K) (cur.tail ++ [key])) := by
  induction fuel generalizing cur with
  | zero => exact absurd hfuel (Nat.not_lt_zero _)
  | succ fuel ih =>
      rw [Nodes.failFrom]
      by_cases hroot : cur = []
      · rw [hroot, hl.root, if_pos rfl]
      · rw [hl.link cur hcur hroot hd, if_neg hroot]
        have hlt := length_target_lt (K := K) hroot
        simp only
        rw [hs.child _ (target_mem hs cur)]
        have hconcat : longestSuffix (fun w => w ∈ K) (cur.tail ++ [key]) =
            longestSuffix (fun w => w ∈ K) (target K cur ++ [key]) := longestSuffix_concat hs.closed _ _
        rw [hconcat]
        by_cases hmem : target K cur ++ [key] ∈ K
        · rw [if_pos hmem, longestSuffix_of_mem hmem]
        · rw [if_neg hmem]
          simp only
          rw [ih (target_mem hs cur) (by omega) (by omega)]
          by_cases hnil : target K cur = []
          · rw [hnil] at hmem
            rw [if_pos hnil, hnil, List.nil_append, longestSuffix_cons_of_not hmem, longestSuffix_nil]
          · rw [if_neg hnil]
            obtain ⟨x, xs, heq⟩ := List.exists_cons_of_ne_nil hnil
            rw [heq] at hmem ⊢
            exact congrArg some (longestSuffix_cons_of_not hmem).symm

/-- Only the links of the nodes `L` have changed, and these are right now. -/
structure Relinked (K : List Addr) (L : List Addr) (h h' : Nodes) : Prop where
  mem : ∀ a, a ∈ h' ↔ a ∈ h
  same : ∀ a, (h'.node a).children = (h.node a).children ∧ (h'.node a).depth = (h.node a).depth ∧
    (h'.node a).isEnd = (h.node a).isEnd
  others : ∀ a, a ∉ L → (h'.node a).fail = (h.node a).fail
  link : ∀ a ∈ L, (h'.node a).fail = some (target K a)

theorem Relinked.refl (K : List Addr) (h : Nodes) : Relinked K [] h h :=
  ⟨fun _ => Iff.rfl, fun _ => ⟨rfl, rfl, rfl⟩, fun _ _ => rfl, fun _ ha => absurd ha List.not_mem_nil⟩

theorem Relinked.snoc {L : List Addr} (hr : Relinked K L h h') (ha : a ∈ h) :
    Relinked K (L ++ [a]) h (h'.setFail a (target K a)) where
  mem b := by
    rw [Nodes.setFail, AList.mem_insert, hr.mem]
    exact ⟨fun hb => hb.elim (fun heq => heq ▸ ha) id, .inr⟩
  same b := by
    rw [Nodes.setFail]
    by_cases heq : b = a
    · rw [heq, node_insert_self]
      exact hr.same a
    · rw [node_insert_ne _ _ heq]
      exact hr.same b
  others b hb := by
    rw [List.mem_append, List.mem_singleton, not_or] at hb
    rw [Nodes.setFail, node_insert_ne _ _ hb.2]
    exact hr.others b hb.1
  link b hb := by
    rw [Nodes.setFail]
    by_cases heq : b = a
    · rw [heq, node_insert_self]
    · rw [node_insert_ne _ _ heq]
      exact hr.link b ((List.mem_append.mp hb).resolve_right fun hb' => heq (List.mem_singleton.mp hb'))

theorem Relinked.shaped {L : List Addr} (hr : Relinked K L h h') (hs : Shaped K E h) : Shaped K E h' where
  mem a := (hr.mem a).trans (hs.mem a)
  root := hs.root
  closed := hs.closed
  ends := hs.ends
  depth a ha := (hr.same a).2.1.trans (hs.depth a ha)
  child a ha c := by
    rw [Nodes.child, (hr.same a).1]
    exact hs.child a ha c
  isEnd a ha := by
    rw [(hr.same a).2.2]
    exact hs.isEnd a ha

theorem Relinked.linkedTo {L : List Addr} {d : Nat} (hr : Relinked K L h h') (hl : LinkedTo K d h)
    (hL : ∀ a ∈ L, d < a.length) : LinkedTo K d h' where
  root := by
    rw [hr.others [] fun hmem => absurd (hL [] hmem) (Nat.not_lt_zero _)]
    exact hl.root
  link a ha hne hd := by
    rw [hr.others a fun hmem => absurd (hL a hmem) (Nat.not_lt.mpr hd)]
    exact hl.link a ha hne hd

/-- The loop over the children of a node. -/
theorem linkChildren_eq (hs : Shaped K E h) (hl : LinkedTo K nd.length h) (hnd : nd ∈ K) (hne : nd ≠ [])
    (es : List (Entry Char Addr)) (hes : ∀ e ∈ es, e.2 = nd ++ [e.1] ∧ e.2 ∈ K) (queue L : List Addr)
    (hL : ∀ a ∈ L, nd.length < a.length) (hr : Relinked K L h h') :
    ∃ h'', Nodes.linkChildren nd es (queue, h') = some (queue ++ es.map (fun e => e.2), h'') ∧
      Relinked K (L ++ es.map fun e => e.2) h h'' := by
  induction es generalizing queue L h' with
  | nil => exact ⟨h', by rw [List.map_nil, List.append_nil]; rfl, by rw [List.map_nil, List.append_nil]; exact hr⟩
  | cons e es ih =>
      obtain ⟨hchild, hmem⟩ := hes e List.mem_cons_self
      have htarget : target K e.2 = longestSuffix (fun w => w ∈ K) (nd.tail ++ [e.1]) := by
        rw [target, hchild, List.tail_append_of_ne_nil hne]
      have hfail := failFrom_eq (hr.shaped hs) (hr.linkedTo hl hL) e.1 (nd.length + 1) hnd (Nat.le_refl _)
        (Nat.lt_succ_self _)
      rw [if_neg hne, ← htarget] at hfail
      have hL' : ∀ a ∈ L ++ [e.2], nd.length < a.length := by
        intro a ha
        rcases List.mem_append.mp ha with ha | ha
        · exact hL a ha
        · rw [List.mem_singleton.mp ha, hchild, List.length_append, List.length_singleton]
          exact Nat.lt_succ_self _
      obtain ⟨h'', heq, hr''⟩ := ih (fun e' he' => hes e' (List.mem_cons_of_mem _ he')) (queue ++ [e.2]) (L ++ [e.2])
        hL' (hr.snoc ((hs.mem _).mpr hmem))
      refine ⟨h'', ?_, ?_⟩
      · rw [Nodes.linkChildren, hfail, Option.bind_some, heq, List.map_cons, List.append_assoc, List.singleton_append]
      · rw [List.map_cons, ← List.singleton_append, ← List.append_assoc]
        exact hr''

/-! ## The queue -/

theorem Shaped.prefix_mem (hs : Shaped K E h) (hab : a <+: b) (hb : b ∈ K) : a ∈ K := by
  obtain ⟨rest, rfl⟩ := hab
  induction rest using List.reverseRecOn with
  | nil => rwa [List.append_nil] at hb
  | append_singleton rest c ih => exact ih (hs.closed _ c (by rwa [List.append_assoc]))

/-- The children that a range visits. -/
theorem mem_range_children (hs : Shaped K E h) (order : RangeOrder Char) (hnd : nd ∈ K) {e : Entry Char Addr} :
    e ∈ order.range (h.node nd).children ↔ e.2 = nd ++ [e.1] ∧ e.2 ∈ K := by
  obtain ⟨c, b⟩ := e
  rw [order.mem_range, ← AList.mem_lookup_iff]
  have hchild : (h.node nd).children.lookup c = if nd ++ [c] ∈ K then some (nd ++ [c]) else none := hs.child nd hnd c
  rw [hchild, Option.mem_def]
  by_cases hmem : nd ++ [c] ∈ K
  · rw [if_pos hmem, Option.some.injEq]
    exact ⟨fun heq => ⟨heq.symm, heq ▸ hmem⟩, fun hb => hb.1.symm⟩
  · rw [if_neg hmem]
    exact ⟨fun heq => (by cases heq), fun hb => absurd (hb.1 ▸ hb.2) hmem⟩

/-- The addresses of the children, in the order of a range. -/
def childrenOf (order : RangeOrder Char) (h : Nodes) (nd : Addr) : List Addr :=
  (order.range (h.node nd).children).map fun e => e.2

theorem mem_childrenOf (hs : Shaped K E h) (order : RangeOrder Char) (hnd : nd ∈ K) :
    a ∈ childrenOf order h nd ↔ ∃ c, a = nd ++ [c] ∧ a ∈ K := by
  rw [childrenOf, List.mem_map]
  constructor
  · rintro ⟨e, he, rfl⟩
    obtain ⟨heq, hmem⟩ := (mem_range_children hs order hnd).mp he
    exact ⟨e.1, heq, hmem⟩
  · rintro ⟨c, heq, hmem⟩
    exact ⟨⟨c, a⟩, (mem_range_children hs order hnd).mpr ⟨heq, hmem⟩, rfl⟩

theorem nodup_childrenOf (hs : Shaped K E h) (order : RangeOrder Char) (hnd : nd ∈ K) :
    (childrenOf order h nd).Nodup := by
  have hkeys := List.pairwise_map.mp (order.nodup_keys (h.node nd).children)
  refine List.pairwise_map.mpr (hkeys.imp_of_mem fun he he' hne heq => hne ?_)
  rw [((mem_range_children hs order hnd).mp he).1, ((mem_range_children hs order hnd).mp he').1] at heq
  exact List.head_eq_of_cons_eq (List.append_cancel_left heq)

/-- Between two turns of the loop of `build`: the nodes that it is done with and those in the queue are linked, and below
    these are all others. The queue goes by depth. -/
structure Queued (K : List Addr) (E : Text → Prop) (done queue : List Addr) (h : Nodes) : Prop where
  shaped : Shaped K E h
  root : (h.node []).fail = none
  linked : ∀ a ∈ done ++ queue, a ≠ [] ∧ a ∈ K ∧ (h.node a).fail = some (target K a)
  nodup : (done ++ queue).Nodup
  parents : ∀ a c, a ++ [c] ∈ done ++ queue → a = [] ∨ a ∈ done
  covered : ∀ a ∈ K, a ≠ [] → a ∈ done ∨ ∃ q ∈ queue, q <+: a
  sorted : queue.Pairwise fun a b => a.length ≤ b.length
  near : ∀ a ∈ queue, ∀ b ∈ queue, b.length ≤ a.length + 1

/-- What is not deeper than the next node is linked. -/
theorem Queued.linkedTo {done nodes : List Addr} (hq : Queued K E done (nd :: nodes) h) : LinkedTo K nd.length h where
  root := hq.root
  link a ha hne hd := by
    rcases hq.covered a ha hne with hdone | ⟨q, hmem, hprefix⟩
    · exact (hq.linked a (List.mem_append_left _ hdone)).2.2
    · have hle : nd.length ≤ q.length := by
        rcases List.mem_cons.mp hmem with rfl | hmem
        · exact Nat.le_refl _
        · exact List.rel_of_pairwise_cons hq.sorted hmem
      obtain rfl := hprefix.eq_of_length_le (Nat.le_trans hd hle)
      exact (hq.linked q (List.mem_append_right _ hmem)).2.2

/-- **One turn of the loop.** -/
theorem Queued.turn {done nodes : List Addr} (hq : Queued K E done (nd :: nodes) h) (order : RangeOrder Char) :
    ∃ h', Nodes.linkChildren nd (order.range (h.node nd).children) (nodes, h) =
        some (nodes ++ childrenOf order h nd, h') ∧
      Queued K E (done ++ [nd]) (nodes ++ childrenOf order h nd) h' := by
  obtain ⟨hne, hnd, hfail⟩ := hq.linked nd (List.mem_append_right _ List.mem_cons_self)
  have hs := hq.shaped
  have hmem := fun a => mem_childrenOf (a := a) hs order hnd
  have hlength : ∀ a ∈ childrenOf order h nd, a.length = nd.length + 1 := by
    intro a ha
    obtain ⟨c, rfl, -⟩ := (hmem a).mp ha
    exact List.length_append
  obtain ⟨h', heq, hr⟩ := linkChildren_eq hs hq.linkedTo hnd hne (order.range (h.node nd).children)
    (fun e he => (mem_range_children hs order hnd).mp he) nodes [] (fun a ha => absurd ha List.not_mem_nil) (.refl K h)
  rw [List.nil_append] at hr
  have hnotdone : nd ∉ done := fun hmem => by
    have hdisjoint := List.disjoint_of_nodup_append hq.nodup
    exact hdisjoint hmem List.mem_cons_self
  have hnew : ∀ a ∈ childrenOf order h nd, a ∉ done ++ nd :: nodes := by
    intro a ha hold
    obtain ⟨c, rfl, -⟩ := (hmem a).mp ha
    exact (hq.parents nd c hold).elim hne hnotdone
  -- the nodes before this turn, then the children
  have hsplit : done ++ [nd] ++ (nodes ++ childrenOf order h nd) = done ++ nd :: nodes ++ childrenOf order h nd := by
    simp
  refine ⟨h', heq, ?_⟩
  exact
    { shaped := hr.shaped hs
      root := by
        rw [hr.others [] fun hc => absurd (hlength [] hc) (by simp)]
        exact hq.root
      linked := by
        intro a ha
        rw [hsplit, List.mem_append] at ha
        rcases ha with ha | ha
        · obtain ⟨hane, hK, hlink⟩ := hq.linked a ha
          exact ⟨hane, hK, (hr.others a fun hc => hnew a hc ha).trans hlink⟩
        · obtain ⟨c, rfl, hK⟩ := (hmem a).mp ha
          exact ⟨by simp, hK, hr.link _ ha⟩
      nodup := by
        rw [hsplit]
        exact List.nodup_append.mpr ⟨hq.nodup, nodup_childrenOf hs order hnd, fun a ha b hb heq => hnew b hb (heq ▸ ha)⟩
      parents := by
        intro a c ha
        rw [hsplit, List.mem_append] at ha
        rcases ha with ha | ha
        · exact (hq.parents a c ha).imp_right fun hd => List.mem_append_left _ hd
        · obtain ⟨c', heq', -⟩ := (hmem _).mp ha
          rw [(List.append_inj' heq' rfl).1]
          exact .inr (List.mem_append_right _ (List.mem_singleton_self nd))
      covered := by
        intro a ha hane
        rcases hq.covered a ha hane with hd | ⟨q, hqmem, hprefix⟩
        · exact .inl (List.mem_append_left _ hd)
        · rcases List.mem_cons.mp hqmem with rfl | hqmem
          · obtain ⟨rest, rfl⟩ := hprefix
            cases rest with
            | nil => exact .inl (List.mem_append_right _ (by rw [List.append_nil]; exact List.mem_singleton_self q))
            | cons c rest =>
                -- below this node: its child on the way down is in the queue now
                have hstep : q ++ [c] <+: q ++ c :: rest := ⟨rest, by simp⟩
                have hchild : q ++ [c] ∈ childrenOf order h q := (hmem _).mpr ⟨c, rfl, hs.prefix_mem hstep ha⟩
                exact .inr ⟨q ++ [c], List.mem_append_right _ hchild, hstep⟩
          · exact .inr ⟨q, List.mem_append_left _ hqmem, hprefix⟩
      sorted := by
        refine List.pairwise_append.mpr ⟨(List.pairwise_cons.mp hq.sorted).2, ?_, fun a ha b hb => ?_⟩
        · refine List.pairwise_of_forall_mem_list fun a ha b hb => ?_
          rw [hlength a ha, hlength b hb]
        · rw [hlength b hb]
          exact hq.near nd List.mem_cons_self a (List.mem_cons_of_mem _ ha)
      near := by
        intro a ha b hb
        rcases List.mem_append.mp ha with ha | ha <;> rcases List.mem_append.mp hb with hb | hb
        · exact hq.near a (List.mem_cons_of_mem _ ha) b (List.mem_cons_of_mem _ hb)
        · rw [hlength b hb]
          exact Nat.succ_le_succ (List.rel_of_pairwise_cons hq.sorted ha)
        · rw [hlength a ha]
          exact Nat.le_succ_of_le (hq.near nd List.mem_cons_self b (List.mem_cons_of_mem _ hb))
        · rw [hlength a ha, hlength b hb]
          exact Nat.le_succ _ }

/-- The tree of the words `E`, linked. -/
structure Linked (K : List Addr) (E : Text → Prop) (h : Nodes) : Prop where
  shaped : Shaped K E h
  root : (h.node []).fail = none
  link : ∀ a ∈ K, a ≠ [] → (h.node a).fail = some (target K a)

/-- The loop of `build` comes to its end with all nodes linked. -/
theorem buildFrom_linked (order : RangeOrder Char) (fuel : Nat) {done queue : List Addr} (hq : Queued K E done queue h)
    (hfuel : K.length ≤ done.length + fuel) : ∃ h', Nodes.buildFrom order fuel queue h = some h' ∧ Linked K E h' := by
  induction fuel generalizing done queue h with
  | zero =>
      cases queue with
      | nil =>
          refine ⟨h, rfl, hq.shaped, hq.root, fun a ha hne => ?_⟩
          have hdone := (hq.covered a ha hne).resolve_right fun ⟨q, hmem, _⟩ => absurd hmem List.not_mem_nil
          exact (hq.linked a (List.mem_append_left _ hdone)).2.2
      | cons nd nodes =>
          -- more nodes than there are
          have hle := (List.subperm_of_subset hq.nodup fun a ha => (hq.linked a ha).2.1).length_le
          rw [List.length_append, List.length_cons] at hle
          omega
  | succ fuel ih =>
      cases queue with
      | nil =>
          refine ⟨h, rfl, hq.shaped, hq.root, fun a ha hne => ?_⟩
          have hdone := (hq.covered a ha hne).resolve_right fun ⟨q, hmem, _⟩ => absurd hmem List.not_mem_nil
          exact (hq.linked a (List.mem_append_left _ hdone)).2.2
      | cons nd nodes =>
          obtain ⟨h', heq, hq'⟩ := hq.turn order
          rw [Nodes.buildFrom, heq, Option.bind_some]
          refine ih hq' ?_
          rw [List.length_append, List.length_singleton]
          omega

/-- The first loop of `build`. -/
theorem relinked_first (hs : Shaped K E h) {L : List Addr} (hL : ∀ a ∈ L, ∃ c, a = [c] ∧ a ∈ K) :
    Relinked K L h (L.foldl (fun h child => h.setFail child []) h) := by
  induction L using List.reverseRecOn with
  | nil => exact .refl K h
  | append_singleton L a ih =>
      obtain ⟨c, rfl, hmem⟩ := hL a (List.mem_append_right _ (List.mem_singleton_self a))
      rw [List.foldl_append]
      exact (ih fun b hb => hL b (List.mem_append_left _ hb)).snoc ((hs.mem _).mpr hmem)

/-- **Every failure link leads to the longest proper suffix that is a node.** -/
theorem build_linked (order : RangeOrder Char) (words : List Text) :
    ∃ K h, (Nodes.ofWords words).build order = some h ∧ Linked K (fun a => a ≠ [] ∧ a ∈ words) h := by
  obtain ⟨⟨K, hs⟩, hu⟩ := shaped_ofWords words
  -- the same addresses, once each
  have hs' : Shaped (Nodes.ofWords words).keys (fun a => a ≠ [] ∧ a ∈ words) (Nodes.ofWords words) := by
    have hkeys : ∀ a, a ∈ (Nodes.ofWords words).keys ↔ a ∈ K := fun a => hs.mem a
    exact
      { mem := fun a => Iff.rfl
        root := (hkeys _).mpr hs.root
        closed := fun a c hmem => (hkeys a).mpr (hs.closed a c ((hkeys _).mp hmem))
        ends := fun a ha => (hkeys a).mpr (hs.ends a ha)
        depth := fun a ha => hs.depth a ((hkeys a).mp ha)
        child := fun a ha c => by simp only [hkeys]; exact hs.child a ((hkeys a).mp ha) c
        isEnd := fun a ha => hs.isEnd a ((hkeys a).mp ha) }
  generalize Nodes.ofWords words = h at hs' hu
  have hmem := fun a => mem_childrenOf (a := a) hs' order hs'.root
  have hr : Relinked h.keys (childrenOf order h []) h _ := relinked_first hs' fun a ha => (hmem a).mp ha
  have hlength : ∀ a ∈ childrenOf order h [], a.length = 1 := by
    intro a ha
    obtain ⟨c, rfl, -⟩ := (hmem a).mp ha
    rfl
  have hq : Queued h.keys (fun a => a ≠ [] ∧ a ∈ words) [] (childrenOf order h [])
      ((childrenOf order h []).foldl (fun h child => h.setFail child []) h) :=
    { shaped := hr.shaped hs'
      root := by
        rw [hr.others [] fun hc => absurd (hlength [] hc) (by simp)]
        exact hu []
      linked := by
        intro a ha
        obtain ⟨c, rfl, hK⟩ := (hmem a).mp ha
        exact ⟨by simp, hK, hr.link _ ha⟩
      nodup := nodup_childrenOf hs' order hs'.root
      parents := by
        intro a c ha
        obtain ⟨c', heq, -⟩ := (hmem _).mp ha
        exact .inl (List.append_inj' heq rfl).1
      covered := by
        intro a ha hne
        obtain ⟨c, rest, rfl⟩ := List.exists_cons_of_ne_nil hne
        have hstep : [c] <+: c :: rest := ⟨rest, rfl⟩
        exact .inr ⟨[c], (hmem _).mpr ⟨c, rfl, hs'.prefix_mem hstep ha⟩, hstep⟩
      sorted := List.pairwise_of_forall_mem_list fun a ha b hb => by rw [hlength a ha, hlength b hb]
      near := fun a ha b hb => by rw [hlength a ha, hlength b hb]; omega }
  obtain ⟨h', heq, hlinked⟩ := buildFrom_linked order h.entries.length hq (by
    rw [List.length_nil, Nat.zero_add, AList.keys, List.keys, List.length_map])
  exact ⟨h.keys, h', heq, hlinked⟩

end Stringx
end ServiceKit
