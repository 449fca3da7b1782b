import Mathlib.Data.Multiset.Filter
import Mathlib.Data.Multiset.Count
import Mathlib.Data.Set.Insert
import ServiceKit.Lib.Run

/-!
# `Lib.TopicBus` — what a topic bus is for

Subscribers hold subscriptions to topics, with multiplicity; a publication on a topic is sent once for
each subscription that is live at that moment; closing a subscriber drops all its subscriptions for
good. Nothing here says how a bus keeps its subscriptions. Three facts hold of every run:

* **counting** (`count_subs`): the live subscriptions of an open subscriber to a topic are exactly the
  subscriptions it made, and a closed subscriber has none;
* **isolation** (`subscribed_of_sent`): what a subscriber is sent was published on a topic it
  subscribed to;
* **order** (`sent_sorted`, `sent_gap_free`): every subscriber is sent publications in the order of the
  bus, and one that subscribed to a topic once and stays open is sent every later publication on it.
-/

namespace ServiceKit
namespace Lib

/-- A publication as a subscriber sees it: its number in the order of the bus, topic and message. -/
@[ext] structure Delivery (K M : Type*) where
  seq : ℕ
  topic : K
  msg : M

/-- Number a list of publications in their order. -/
def numbered {K M : Type*} (published : List (K × M)) : List (Delivery K M) :=
  published.mapIdx (fun i p => ⟨i, p.1, p.2⟩)

section Numbered

variable {K M : Type*}

theorem numbered_concat (ps : List (K × M)) (p : K × M) :
    numbered (ps ++ [p]) = numbered ps ++ [⟨ps.length, p.1, p.2⟩] := by
  simp [numbered, List.mapIdx_concat]

theorem seq_lt_of_mem_numbered {ps : List (K × M)} {d : Delivery K M} (hd : d ∈ numbered ps) :
    d.seq < ps.length := by
  obtain ⟨i, hi, rfl⟩ := List.mem_mapIdx.mp hd
  exact hi

end Numbered

structure Bus (K S M : Type*) where
  subs : K → Multiset S
  closed : Set S
  published : List (K × M)
  sent : S → List (Delivery K M)

namespace Bus

variable {K S M : Type*} [DecidableEq K] [DecidableEq S]

def empty : Bus K S M := ⟨fun _ => 0, ∅, [], fun _ => []⟩

inductive Label (K S M : Type*) where
  | subscribe (s : S) (k : K)
  | close (s : S)
  | publish (k : K) (m : M)

def addSub (b : Bus K S M) (s : S) (k : K) : Bus K S M :=
  { b with subs := Function.update b.subs k (s ::ₘ b.subs k) }

def drop (b : Bus K S M) (s : S) : Bus K S M :=
  { b with subs := fun k => (b.subs k).filter (· ≠ s), closed := insert s b.closed }

def send (b : Bus K S M) (k : K) (m : M) : Bus K S M :=
  { b with
    published := b.published ++ [(k, m)]
    sent := fun s => b.sent s ++ List.replicate ((b.subs k).count s) ⟨b.published.length, k, m⟩ }

/-- Only an open subscriber subscribes. -/
inductive Step : Bus K S M → Label K S M → Bus K S M → Prop where
  | subscribe {b s k} (hopen : s ∉ b.closed) : Step b (.subscribe s k) (b.addSub s k)
  | close {b s} : Step b (.close s) (b.drop s)
  | publish {b k m} : Step b (.publish k m) (b.send k m)

/-- How often `s` subscribed to `k` in a run. -/
def subscriptions (s : S) (k : K) (ls : List (Label K S M)) : ℕ :=
  ls.countP (fun l => match l with
    | .subscribe s' k' => decide (s' = s ∧ k' = k)
    | _ => false)

section Subscriptions

variable (s : S) (k : K)

@[simp] theorem subscriptions_nil : subscriptions (M := M) s k [] = 0 := rfl

theorem subscriptions_append (ls ls' : List (Label K S M)) :
    subscriptions s k (ls ++ ls') = subscriptions s k ls + subscriptions s k ls' :=
  List.countP_append

@[simp] theorem subscriptions_subscribe (s' : S) (k' : K) :
    subscriptions (M := M) s k [.subscribe s' k'] = if s' = s ∧ k' = k then 1 else 0 := by
  by_cases h : s' = s ∧ k' = k <;> simp [subscriptions, h]

@[simp] theorem subscriptions_close (s' : S) :
    subscriptions (M := M) s k [.close s'] = 0 := rfl

@[simp] theorem subscriptions_publish (k' : K) (m : M) :
    subscriptions s k [.publish k' m] = 0 := rfl

end Subscriptions

/-! ## Counting -/

theorem count_addSub (b : Bus K S M) (s s' : S) (k k' : K) :
    ((b.addSub s' k').subs k).count s
      = (b.subs k).count s + if s' = s ∧ k' = k then 1 else 0 := by
  by_cases hk : k' = k
  · subst hk
    by_cases hs : s' = s
    · subst hs; simp [addSub]
    · simp [addSub, hs, Multiset.count_cons_of_ne (Ne.symm hs)]
  · simp [addSub, hk, Function.update_of_ne (Ne.symm hk)]

omit [DecidableEq K] in
theorem count_drop_self (b : Bus K S M) (s : S) (k : K) : ((b.drop s).subs k).count s = 0 := by
  simp [drop]

omit [DecidableEq K] in
theorem count_drop_of_ne (b : Bus K S M) {s s' : S} (h : s ≠ s') (k : K) :
    ((b.drop s').subs k).count s = (b.subs k).count s :=
  Multiset.count_filter_of_pos h

/-- **Counting.** An open subscriber is subscribed to `k` as often as it asked to be; a closed one has
    no subscription left. -/
theorem count_subs {ls : List (Label K S M)} {b : Bus K S M} (h : Run Step empty ls b) (s : S) (k : K) :
    (s ∉ b.closed → (b.subs k).count s = subscriptions s k ls) ∧
    (s ∈ b.closed → (b.subs k).count s = 0) := by
  revert s k
  refine Run.invariant
    (fun ls b => ∀ s k, (s ∉ b.closed → (b.subs k).count s = subscriptions s k ls) ∧
      (s ∈ b.closed → (b.subs k).count s = 0)) ?_ ?_ h
  · intro s k; simp [empty]
  · intro ls b l b' _ ih hs s k
    rw [subscriptions_append]
    obtain ⟨hopen, hclosed⟩ := ih s k
    cases hs with
    | @subscribe s' k' hs' =>
        rw [count_addSub, subscriptions_subscribe]
        constructor
        · intro hc; rw [hopen hc]
        · intro hc
          have hne : ¬(s' = s ∧ k' = k) := fun he => hs' (he.1 ▸ hc)
          rw [hclosed hc, if_neg hne]
    | @close s' =>
        rw [subscriptions_close]
        by_cases he : s = s'
        · subst he
          exact ⟨fun hc => absurd (Set.mem_insert _ _) hc, fun _ => count_drop_self b s k⟩
        · rw [count_drop_of_ne b he]
          exact ⟨fun hc => hopen (fun hcl => hc (Set.mem_insert_of_mem _ hcl)),
            fun hc => hclosed (Set.mem_of_mem_insert_of_ne hc he)⟩
    | publish => exact ⟨hopen, hclosed⟩

/-! ## Isolation -/

/-- **Isolation.** A subscriber is only sent publications on topics it subscribed to. -/
theorem subscribed_of_sent {ls : List (Label K S M)} {b : Bus K S M} (h : Run Step empty ls b) {s : S}
    {d : Delivery K M} (hd : d ∈ b.sent s) : 0 < subscriptions s d.topic ls := by
  revert s d
  refine Run.invariant (fun ls b => ∀ {s d}, d ∈ b.sent s → 0 < subscriptions s d.topic ls) ?_ ?_ h
  · intro s d hd; simp [empty] at hd
  · intro ls b l b' hrun ih hs s d hd
    rw [subscriptions_append]
    cases hs with
    | subscribe _ => exact Nat.add_pos_left (ih hd) _
    | close => exact Nat.add_pos_left (ih hd) _
    | @publish k m =>
        rcases List.mem_append.mp hd with hd | hd
        · exact Nat.add_pos_left (ih hd) _
        · -- sent once per live subscription, of which there is one
          obtain ⟨hpos, rfl⟩ := List.mem_replicate.mp hd
          by_cases hc : s ∈ b.closed
          · exact absurd ((count_subs hrun s k).2 hc) hpos
          · rw [(count_subs hrun s k).1 hc] at hpos
            exact Nat.add_pos_left (Nat.pos_of_ne_zero hpos) _

/-! ## Order -/

/-- What is sent is a publication of the bus, under its own number. -/
theorem sent_mem_numbered {ls : List (Label K S M)} {b : Bus K S M} (h : Run Step empty ls b) {s : S}
    {d : Delivery K M} (hd : d ∈ b.sent s) : d ∈ numbered b.published := by
  revert s d
  refine Run.preserves (P := fun b => ∀ {s d}, d ∈ b.sent s → d ∈ numbered b.published) ?_ ?_ h
  · intro s d hd; simp [empty] at hd
  · intro b l b' ih hs s d hd
    cases hs with
    | subscribe _ => exact ih hd
    | close => exact ih hd
    | publish =>
        show d ∈ numbered (b.published ++ [_])
        rw [numbered_concat]
        rcases List.mem_append.mp hd with hd | hd
        · exact List.mem_append_left _ (ih hd)
        · exact List.mem_append_right _ (List.mem_singleton.mpr (List.eq_of_mem_replicate hd))

/-- **Order.** A subscriber is sent publications in the order of the bus. -/
theorem sent_sorted {ls : List (Label K S M)} {b : Bus K S M} (h : Run Step empty ls b) (s : S) :
    (b.sent s).Pairwise (fun d e => d.seq ≤ e.seq) := by
  revert s
  refine Run.invariant (fun _ b => ∀ s, (b.sent s).Pairwise (fun d e => d.seq ≤ e.seq)) ?_ ?_ h
  · intro s; exact List.Pairwise.nil
  · intro ls b l b' hrun ih hs s
    cases hs with
    | subscribe _ => exact ih s
    | close => exact ih s
    | publish =>
        refine List.pairwise_append.mpr ⟨ih s, List.pairwise_replicate.mpr (Or.inr le_rfl), ?_⟩
        intro d hd e he
        rw [List.eq_of_mem_replicate he]
        exact (seq_lt_of_mem_numbered (sent_mem_numbered hrun hd)).le

/-- What `s` is sent on one topic. -/
def sentOn (b : Bus K S M) (s : S) (k : K) : List (Delivery K M) :=
  (b.sent s).filter (fun d => d.topic = k)

/-- The publications on `k` from number `n` on. -/
def publishedFrom (b : Bus K S M) (k : K) (n : ℕ) : List (Delivery K M) :=
  (numbered b.published).filter (fun d => d.topic = k ∧ n ≤ d.seq)

omit [DecidableEq S] in
theorem publishedFrom_length (b : Bus K S M) (k : K) : b.publishedFrom k b.published.length = [] := by
  apply List.filter_eq_nil_iff.mpr
  intro d hd
  have := seq_lt_of_mem_numbered hd
  simp; omega

theorem sentOn_eq_nil {ls : List (Label K S M)} {b : Bus K S M} (h : Run Step empty ls b) {s : S} {k : K}
    (hnone : subscriptions s k ls = 0) : b.sentOn s k = [] := by
  apply List.filter_eq_nil_iff.mpr
  intro d hd
  simp only [decide_eq_true_eq]
  rintro rfl
  exact absurd hnone (subscribed_of_sent h hd).ne'

theorem published_length_mono {b b' : Bus K S M} {ls : List (Label K S M)} (h : Run Step b ls b') :
    b.published.length ≤ b'.published.length := by
  refine Run.preserves (P := fun c => b.published.length ≤ c.published.length) le_rfl ?_ h
  intro c l c' hc hs
  cases hs with
  | subscribe _ => exact hc
  | close => exact hc
  | publish => show _ ≤ (c.published ++ [_]).length; rw [List.length_append]; omega

/-- One publication, seen by a subscriber holding exactly one subscription to `k`. -/
theorem sentOn_send {b : Bus K S M} {s : S} {k : K} (hone : (b.subs k).count s = 1) (k' : K) (m : M) :
    (b.send k' m).sentOn s k
      = b.sentOn s k ++ if k' = k then [⟨b.published.length, k, m⟩] else [] := by
  show List.filter _ (b.sent s ++ List.replicate _ _) = _
  rw [List.filter_append]
  by_cases hk : k' = k
  · subst hk; rw [hone]; simp [sentOn]
  · simp [sentOn, hk]

theorem publishedFrom_send (b : Bus K S M) (k k' : K) (m : M) {n : ℕ} (hn : n ≤ b.published.length) :
    (b.send k' m).publishedFrom k n
      = b.publishedFrom k n ++ if k' = k then [⟨b.published.length, k, m⟩] else [] := by
  show List.filter _ (numbered (b.published ++ [(k', m)])) = _
  rw [numbered_concat, List.filter_append]
  by_cases hk : k' = k
  · subst hk; simp [publishedFrom, hn]
  · simp [publishedFrom, hk]

/-- **Gap-freedom.** A subscriber that subscribed to `k` once and is still open has been sent, on `k`,
    exactly the publications on `k` since its subscription, in their order. -/
theorem sent_gap_free {pre post : List (Label K S M)} {b b' : Bus K S M} {s : S} {k : K}
    (hpre : Run Step empty pre b) (hpost : Run Step b (.subscribe s k :: post) b')
    (hnone : subscriptions s k pre = 0) (honce : subscriptions s k post = 0) (hopen : s ∉ b'.closed) :
    b'.sentOn s k = b'.publishedFrom k b.published.length := by
  obtain ⟨b₁, hsub, hrest⟩ := hpost.head
  have hrun₁ : Run Step empty (pre ++ [.subscribe s k]) b₁ := hpre.snoc hsub
  -- by induction on the run after the subscription; before it, `s` was sent nothing on `k`
  have hkey : ∀ {ls c}, Run Step b₁ ls c → subscriptions s k ls = 0 → s ∉ c.closed →
      c.sentOn s k = c.publishedFrom k b.published.length := by
    intro ls c hc
    induction hc with
    | nil =>
        intro _ _
        cases hsub with
        | subscribe _ =>
            rw [show (b.addSub s k).sentOn s k = b.sentOn s k from rfl, sentOn_eq_nil hpre hnone]
            exact (publishedFrom_length b k).symm
    | @snoc ls c l c' hrun hs ih =>
        intro hls hc'
        rw [subscriptions_append] at hls
        cases hs with
        | subscribe _ => exact ih (by omega) hc'
        | close => exact ih (by omega) (fun hcl => hc' (Set.mem_insert_of_mem _ hcl))
        | @publish k' m =>
            -- the single subscription is live here, so the publication is sent once
            have hone : (c.subs k).count s = 1 := by
              rw [(count_subs (hrun₁.append hrun) s k).1 hc', subscriptions_append,
                subscriptions_append, hnone, subscriptions_subscribe]
              simp; omega
            have hlen : b.published.length ≤ c.published.length := by
              have h₁ := published_length_mono hrun
              have h₀ := published_length_mono (Run.single hsub)
              omega
            rw [sentOn_send hone, publishedFrom_send c k k' m hlen, ih (by omega) hc']
  exact hkey hrest honce hopen

end Bus

/-! ## Reading an order off what two subscribers received -/

/-- In a sorted list the earlier of two numbers is the smaller one. -/
theorem pair_sublist_iff_lt {l : List ℕ} (hl : l.Pairwise (· ≤ ·)) {i j : ℕ} (hi : i ∈ l) (hj : j ∈ l)
    (hne : i ≠ j) : [i, j].Sublist l ↔ i < j := by
  constructor
  · intro hsub
    have hle : i ≤ j := by simpa using hl.sublist hsub
    omega
  · intro hlt
    induction l with
    | nil => exact absurd hi (by simp)
    | cons a l ih =>
        rw [List.pairwise_cons] at hl
        rcases List.mem_cons.mp hi with rfl | hi'
        · have hj' : j ∈ l := (List.mem_cons.mp hj).resolve_left (Ne.symm hne)
          exact (List.singleton_sublist.mpr hj').cons_cons i
        · rcases List.mem_cons.mp hj with rfl | hj'
          · have := hl.1 i hi'
            omega
          · exact (ih hl.2 hi' hj').cons a

/-- Up to the first failure, nothing is missing from what succeeded. -/
theorem takeWhile_prefix_filter {α : Type*} (p : α → Bool) (l : List α) :
    l.takeWhile p <+: l.filter p := by
  have h : (l.takeWhile p).filter p = l.takeWhile p :=
    List.filter_eq_self.mpr (List.all_eq_true.mp List.all_takeWhile)
  refine ⟨(l.dropWhile p).filter p, ?_⟩
  calc l.takeWhile p ++ (l.dropWhile p).filter p
      = (l.takeWhile p ++ l.dropWhile p).filter p := by rw [List.filter_append, h]
    _ = l.filter p := by rw [List.takeWhile_append_dropWhile]

end Lib
end ServiceKit
