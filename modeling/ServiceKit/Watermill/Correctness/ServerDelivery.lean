import ServiceKit.Lib.Separated
import ServiceKit.Watermill.Correctness.ServerBus

/-!
# `Correctness.ServerDelivery` — who is sent what, and in which order

The run theorems of the bus, read on the server through `Refines`:

* `subscriptions_exact` — the subscriber lists count the handled subscribe requests of the streams that
  have not failed, so a publication is sent once per live subscription;
* `isolated_iff` — two `(namespace, topic)` pairs are kept apart exactly when neither can be read as the
  other by moving a `/` between namespace and topic;
* `total_order` — every stream sees the publications in the order of their locked sections, and one that
  subscribed once sees them without a gap.
-/

namespace ServiceKit
namespace Watermill
namespace Grpcchannel

open Lib PubSubServer

variable {S : Type} [DecidableEq S]

/-! ## Counting -/

/-- How many subscribe requests of `s` for `k` have run their locked section. -/
def handled (s : S) (k : GoString) (ls : List (World.Label S)) : ℕ :=
  ls.countP (fun l => match l with
    | .subscribe s' k' => decide (s' = s ∧ k' = k)
    | _ => false)

theorem subscriptions_busLabels (s : S) (k : GoString) (ls : List (World.Label S)) :
    Bus.subscriptions s k (ls.flatMap busLabels) = handled s k ls := by
  induction ls with
  | nil => rfl
  | cons l ls ih =>
      rw [List.flatMap_cons, Bus.subscriptions_append, ih, handled, handled, List.countP_cons]
      cases l with
      | subscribe s' k' =>
          by_cases h : s' = s ∧ k' = k <;> simp [busLabels, h, Nat.add_comm]
      | request s' req => simp [busLabels]
      | recvErr s' => simp [busLabels]
      | remove s' => simp [busLabels]
      | publish msg ok => simp [busLabels]

/-- **Counting.** A stream whose error is not handled yet stands in the list of `k` once per handled
    request for `k`; one whose error is handled stands in no list. -/
theorem count_streams {ls : List (World.Label S)} {w : World S} (h : World.Reach ls w) (s : S)
    (k : GoString) :
    (w.server.streams k).count s = if w.pc s = .returned then 0 else handled s k ls := by
  obtain ⟨b, hb, hr⟩ := reach_refines h
  have hcount := Bus.count_subs hb s k
  rw [hr.subs, Multiset.coe_count, hr.closed, subscriptions_busLabels] at hcount
  by_cases hpc : w.pc s = .returned
  · rw [if_pos hpc]; exact hcount.2 hpc
  · rw [if_neg hpc]; exact hcount.1 hpc

/-- Removing one stream leaves the entries of every other where they were. -/
theorem count_streams_remove {srv : PubSubServer S} {items : List (GoString × List (Subscriber S))}
    (hitems : items.Perm srv.subscribers.items) {s s' : S} (hne : s' ≠ s) (k : GoString) :
    ((srv.removeSubscriber items s).streams k).count s' = (srv.streams k).count s' := by
  rw [streams_removeSubscriber hitems, List.count_filter (by simpa using hne)]

/-- **Every subscription counts, once.** In every reachable state the subscriber lists hold exactly the
    handled requests of the streams still served; a publication is sent to exactly the entries of its
    key's list, whichever `Send`s fail; and removing a stream keeps all entries of the others. -/
theorem subscriptions_exact {ls : List (World.Label S)} {w : World S} (h : World.Reach ls w) :
    (∀ s k, (w.server.streams k).count s = if w.pc s = .returned then 0 else handled s k ls) ∧
    (∀ msg ok s, ((w.server.publishTo w.published.length msg ok).map Send.stream).count s
        = if w.pc s = .returned then 0
          else handled s (getCacheKey msg.nameSpace msg.topic) ls) ∧
    (∀ s items, items.Perm w.server.subscribers.items → ∀ s' ≠ s, ∀ k,
        ((w.server.removeSubscriber items s).streams k).count s' = (w.server.streams k).count s') := by
  refine ⟨count_streams h, ?_, fun s items hitems s' hne k => count_streams_remove hitems hne k⟩
  intro msg ok s
  rw [publishTo_streams]
  exact count_streams h s _

/-- A stream that subscribed twice to one key, beside one that failed. -/
def twiceAndFailed : List (World.Label ℕ) :=
  [.request 0 ⟨str "n", str "t"⟩, .request 1 ⟨str "n", str "t"⟩, .subscribe 0 (str "n/t"),
   .subscribe 1 (str "n/t"), .request 0 ⟨str "n", str "t"⟩, .recvErr 1, .subscribe 0 (str "n/t"),
   .remove 1]

theorem twiceAndFailed_exact :
    ∃ w : World ℕ, World.Reach twiceAndFailed w ∧
      (w.server.streams (str "n/t")).count 0 = 2 ∧ (w.server.streams (str "n/t")).count 1 = 0 := by
  have hrun : ∃ w : World ℕ, World.Reach twiceAndFailed w ∧ w.pc 0 = .recv ∧ w.pc 1 = .returned :=
    ⟨_, ((((((((Run.nil.snoc (.request rfl)).snoc (.request rfl)).snoc (.subscribe rfl)).snoc
      (.subscribe rfl)).snoc (.request rfl)).snoc (.recvErr rfl)).snoc (.subscribe rfl)).snoc
      (.remove rfl (List.Perm.refl _))), rfl, rfl⟩
  obtain ⟨w, hw, h0, h1⟩ := hrun
  have hcount := (subscriptions_exact hw).1
  refine ⟨w, hw, ?_, ?_⟩
  · rw [hcount, h0]; decide
  · rw [hcount, h1]; rfl

/-! ## Isolation -/

/-- A `(namespace, topic)` pair with both components defaulted. -/
def normalise (nameSpace topic : GoString) : GoString × GoString := (orDefault nameSpace, orDefault topic)

def joinKey (p : GoString × GoString) : GoString := p.1 ++ str "/" ++ p.2

theorem getCacheKey_eq (nameSpace topic : GoString) :
    getCacheKey nameSpace topic = joinKey (normalise nameSpace topic) := rfl

/-- The namespace of one pair goes on, after a `/`, with the beginning of the other's topic. -/
def Overlap (p p' : GoString × GoString) : Prop :=
  ∃ m, (p'.1 = p.1 ++ str "/" ++ m ∧ p.2 = m ++ str "/" ++ p'.2) ∨
       (p.1 = p'.1 ++ str "/" ++ m ∧ p'.2 = m ++ str "/" ++ p.2)

theorem joinKey_eq (p : GoString × GoString) : joinKey p = p.1 ++ 47 :: p.2 := by
  show p.1 ++ [47] ++ p.2 = p.1 ++ 47 :: p.2
  rw [List.append_assoc, List.singleton_append]

theorem overlap_iff {p p' : GoString × GoString} : Overlap p p' ↔ Shifted 47 p p' ∨ Shifted 47 p' p := by
  have hslash : str "/" = [47] := Eq.refl _
  simp only [Overlap, Shifted, hslash, List.append_assoc, List.singleton_append, exists_or]

/-- **Two different pairs share a cache key exactly when they overlap.** -/
theorem joinKey_eq_iff {p p' : GoString × GoString} (hne : p ≠ p') :
    joinKey p = joinKey p' ↔ Overlap p p' := by
  rw [joinKey_eq, joinKey_eq, join_eq_join_iff, overlap_iff]
  exact or_iff_right hne

/-- In no run is a message published to the one pair sent to a stream that only subscribed to the
    other. -/
def Isolated (S : Type) [DecidableEq S] (nameSpace topic nameSpace' topic' : GoString) : Prop :=
  ∀ (ls : List (World.Label S)) (w : World S), World.Reach ls w → ∀ s,
    (∀ req, .request s req ∈ ls → normalise req.nameSpace req.topic = normalise nameSpace' topic') →
    ∀ x ∈ w.sends, x.stream = s → normalise x.msg.nameSpace x.msg.topic ≠ normalise nameSpace topic

/-- **What a step does to the goroutine of a stream.** -/
theorem step_pc {w w' : World S} {l : World.Label S} (hs : World.Step w l w') (s : S) :
    w'.pc s = w.pc s ∨
      (∃ req, l = .request s req ∧ w'.pc s = .subscribing (getCacheKey req.nameSpace req.topic)) ∨
      (∃ k, l = .subscribe s k ∧ w'.pc s = .recv) ∨
      (l = .recvErr s ∧ w'.pc s = .removing) ∨
      (l = .remove s ∧ w.pc s = .removing ∧ w'.pc s = .returned) := by
  cases hs with
  | @request t req hpc =>
      by_cases hst : s = t
      · subst hst
        exact Or.inr (Or.inl ⟨req, rfl, World.goto_pc_self _ _ _⟩)
      · exact Or.inl (World.goto_pc_of_ne _ _ hst)
  | @subscribe t k hpc =>
      by_cases hst : s = t
      · subst hst
        exact Or.inr (Or.inr (Or.inl ⟨k, rfl, World.goto_pc_self _ _ _⟩))
      · exact Or.inl (World.goto_pc_of_ne _ _ hst)
  | @recvErr t hpc =>
      by_cases hst : s = t
      · subst hst
        exact Or.inr (Or.inr (Or.inr (Or.inl ⟨rfl, World.goto_pc_self _ _ _⟩)))
      · exact Or.inl (World.goto_pc_of_ne _ _ hst)
  | @remove t items hpc hitems =>
      by_cases hst : s = t
      · subst hst
        exact Or.inr (Or.inr (Or.inr (Or.inr ⟨rfl, hpc, World.goto_pc_self _ _ _⟩)))
      · exact Or.inl (World.goto_pc_of_ne _ _ hst)
  | publish => exact Or.inl rfl

/-- Only a request makes a goroutine wait for the lock with a key. -/
theorem step_pc_subscribing {w w' : World S} {l : World.Label S} (hs : World.Step w l w') {s : S}
    {k : GoString} (hpc' : w'.pc s = .subscribing k) :
    w.pc s = .subscribing k ∨
      ∃ req, l = .request s req ∧ getCacheKey req.nameSpace req.topic = k := by
  rcases step_pc hs s with hsame | ⟨req, rfl, hreq⟩ | ⟨k', _, hrecv⟩ | ⟨_, hremoving⟩ | ⟨_, _, hreturned⟩
  · exact Or.inl (hsame.symm.trans hpc')
  · exact Or.inr ⟨req, rfl, Pc.subscribing.inj (hreq.symm.trans hpc')⟩
  · exact absurd (hrecv.symm.trans hpc') nofun
  · exact absurd (hremoving.symm.trans hpc') nofun
  · exact absurd (hreturned.symm.trans hpc') nofun

/-- A stream that is about to subscribe to `k`, or did, asked for a pair with that key. -/
theorem requested_of_subscribe {ls : List (World.Label S)} {w : World S} (h : World.Reach ls w) {s : S}
    {k : GoString} (hk : w.pc s = .subscribing k ∨ .subscribe s k ∈ ls) :
    ∃ req, .request s req ∈ ls ∧ getCacheKey req.nameSpace req.topic = k := by
  revert k
  refine Run.invariant (fun ls w => ∀ {k}, (w.pc s = .subscribing k ∨ .subscribe s k ∈ ls) →
    ∃ req, .request s req ∈ ls ∧ getCacheKey req.nameSpace req.topic = k) ?_ ?_ h
  · intro k hk; simp [World.init] at hk
  · intro ls w l w' _ ih hs k hk
    have hold : (w.pc s = .subscribing k ∨ .subscribe s k ∈ ls) →
        ∃ req, .request s req ∈ ls ++ [l] ∧ getCacheKey req.nameSpace req.topic = k := by
      intro hk
      obtain ⟨req, hreq, hkey⟩ := ih hk
      exact ⟨req, List.mem_append_left _ hreq, hkey⟩
    rw [List.mem_append, List.mem_singleton] at hk
    rcases hk with hpc' | hmem | rfl
    · rcases step_pc_subscribing hs hpc' with hpc | ⟨req, rfl, hkey⟩
      · exact hold (Or.inl hpc)
      · exact ⟨req, by simp, hkey⟩
    · exact hold (Or.inr hmem)
    · cases hs with
      | subscribe hpc => exact hold (Or.inl hpc)

theorem subscribe_mem_of_handled {ls : List (World.Label S)} {s : S} {k : GoString}
    (h : 0 < handled s k ls) : .subscribe s k ∈ ls := by
  obtain ⟨l, hl, heq⟩ := List.countP_pos_iff.mp h
  cases l with
  | subscribe s' k' =>
      obtain ⟨rfl, rfl⟩ : s' = s ∧ k' = k := by simpa using heq
      exact hl
  | request _ _ => exact absurd heq nofun
  | recvErr _ => exact absurd heq nofun
  | remove _ => exact absurd heq nofun
  | publish _ _ => exact absurd heq nofun

/-- Who stands in the list of a key: the streams that subscribed to it and are still served. -/
theorem mem_streams_iff {ls : List (World.Label S)} {w : World S} (h : World.Reach ls w) {s : S}
    {k : GoString} : s ∈ w.server.streams k ↔ w.pc s ≠ .returned ∧ .subscribe s k ∈ ls := by
  rw [← List.count_pos_iff, count_streams h]
  by_cases hpc : w.pc s = .returned
  · simp [hpc]
  · rw [if_neg hpc]
    constructor
    · intro hpos
      exact ⟨hpc, subscribe_mem_of_handled hpos⟩
    · rintro ⟨_, hmem⟩
      exact List.countP_pos_iff.mpr ⟨_, hmem, by simp⟩

/-- Every `Send` is for the publication of its number, under the key of its message. -/
theorem send_published {ls : List (World.Label S)} {w : World S} (h : World.Reach ls w)
    {x : PubSubServer.Send S} (hx : x ∈ w.sends) :
    w.published[x.seq]? = some (x.cacheKey, x.msg) ∧
      x.cacheKey = getCacheKey x.msg.nameSpace x.msg.topic := by
  revert x
  refine Run.preserves (P := fun w => ∀ {x}, x ∈ w.sends → w.published[x.seq]? = some (x.cacheKey, x.msg) ∧
      x.cacheKey = getCacheKey x.msg.nameSpace x.msg.topic) ?_ ?_ h
  · intro x hx; simp [World.init] at hx
  · intro w l w' ih hs x hx
    cases hs with
    | request => exact ih hx
    | subscribe => exact ih hx
    | recvErr => exact ih hx
    | remove => exact ih hx
    | @publish msg ok =>
        rcases List.mem_append.mp hx with hx | hx
        · obtain ⟨hseq, hkey⟩ := ih hx
          have hlt : x.seq < w.published.length := (List.getElem?_eq_some_iff.mp hseq).1
          exact ⟨by rw [List.getElem?_append_left hlt]; exact hseq, hkey⟩
        · obtain ⟨h₁, h₂, h₃⟩ := mem_publishTo hx
          rw [h₁, h₂, h₃]
          exact ⟨by simp, rfl⟩

/-- A stream is only sent messages whose key is the key of a pair it requested. -/
theorem requested_of_send {ls : List (World.Label S)} {w : World S} (h : World.Reach ls w)
    {x : PubSubServer.Send S} (hx : x ∈ w.sends) :
    ∃ req, .request x.stream req ∈ ls ∧
      getCacheKey req.nameSpace req.topic = getCacheKey x.msg.nameSpace x.msg.topic := by
  obtain ⟨b, hb, hr⟩ := reach_refines h
  have hd : Send.delivery x ∈ b.sent x.stream := by
    rw [hr.sent]
    exact List.mem_map_of_mem (List.mem_filter.mpr ⟨hx, by simp⟩)
  have hpos : 0 < handled x.stream x.cacheKey ls := by
    rw [← subscriptions_busLabels]
    exact Bus.subscribed_of_sent hb hd
  obtain ⟨req, hreq, hkey⟩ := requested_of_subscribe h (Or.inr (subscribe_mem_of_handled hpos))
  exact ⟨req, hreq, hkey.trans (send_published h hx).2⟩

/-- A stream subscribes to the one pair, then a message is published to the other. -/
theorem reach_cross (s : S) (nameSpace topic nameSpace' topic' : GoString)
    (hkey : getCacheKey nameSpace topic = getCacheKey nameSpace' topic') :
    ∃ w : World S, World.Reach [.request s ⟨nameSpace', topic'⟩,
        .subscribe s (getCacheKey nameSpace' topic'),
        .publish ⟨nameSpace, topic, [], []⟩ (fun _ => true)] w ∧
      ∃ x ∈ w.sends, x.stream = s ∧ x.msg = ⟨nameSpace, topic, [], []⟩ := by
  refine ⟨_, ((Run.nil.snoc (.request rfl)).snoc (.subscribe (World.goto_pc_self _ _ _))).snoc .publish, ?_⟩
  refine ⟨⟨0, getCacheKey nameSpace' topic', s, ⟨nameSpace, topic, [], []⟩, true⟩, ?_, rfl, rfl⟩
  apply List.mem_append_right _
  simp [World.goto, World.init, publishTo, addSubscriber, newPubSubServer, hkey, sendAll]

/-- **Isolation, exactly.** Two pairs that differ after defaulting are kept apart in every run if and
    only if they do not overlap; `getCacheKey` identifies them exactly when they do. -/
theorem isolated_iff [Inhabited S] (nameSpace topic nameSpace' topic' : GoString)
    (hne : normalise nameSpace topic ≠ normalise nameSpace' topic') :
    (Isolated S nameSpace topic nameSpace' topic' ↔
      ¬ Overlap (normalise nameSpace topic) (normalise nameSpace' topic')) ∧
    (getCacheKey nameSpace topic = getCacheKey nameSpace' topic' ↔
      Overlap (normalise nameSpace topic) (normalise nameSpace' topic')) := by
  refine ⟨⟨?_, ?_⟩, joinKey_eq_iff hne⟩
  · -- two overlapping pairs share a key, so the one gets what is published to the other
    intro hiso hover
    have hkey : getCacheKey nameSpace topic = getCacheKey nameSpace' topic' :=
      (joinKey_eq_iff hne).mpr hover
    obtain ⟨w, hw, x, hx, hs, hmsg⟩ := reach_cross (default : S) nameSpace topic nameSpace' topic' hkey
    refine hiso _ w hw default ?_ x hx hs (by rw [hmsg])
    intro req hreq
    obtain rfl : req = ⟨nameSpace', topic'⟩ := by simpa using hreq
    rfl
  · -- a `Send` needs a request with the key of its message
    intro hover ls w hw s hreqs x hx hs hmsg
    obtain ⟨req, hreq, hkey⟩ := requested_of_send hw hx
    rw [hs] at hreq
    rw [getCacheKey_eq, getCacheKey_eq, hreqs req hreq, hmsg] at hkey
    exact hover ((joinKey_eq_iff hne).mp hkey.symm)

theorem isolated_iff_plain :
    Isolated ℕ (str "order") (str "paid") [] (str "paid") ∧
      getCacheKey (str "order") (str "paid") ≠ getCacheKey [] (str "paid") := by
  have h := isolated_iff (S := ℕ) (str "order") (str "paid") [] (str "paid") (by decide)
  have hover : ¬ Overlap (normalise (str "order") (str "paid")) (normalise [] (str "paid")) :=
    fun ho => absurd (h.2.mpr ho) (by decide)
  exact ⟨h.1.mpr hover, fun hk => hover (h.2.mp hk)⟩

/-- A message for topic `b/c` of tenant `a` reaches a stream that subscribed to topic `c` of tenant
    `a/b`. -/
theorem isolation_broken :
    normalise (str "a") (str "b/c") ≠ normalise (str "a/b") (str "c") ∧
      getCacheKey (str "a") (str "b/c") = getCacheKey (str "a/b") (str "c") ∧
      ¬ Isolated ℕ (str "a") (str "b/c") (str "a/b") (str "c") := by
  refine ⟨by decide, by decide, ?_⟩
  intro hiso
  obtain ⟨w, hw, x, hx, hs, hmsg⟩ :=
    reach_cross 0 (str "a") (str "b/c") (str "a/b") (str "c") (by decide)
  refine hiso _ w hw 0 ?_ x hx hs (by rw [hmsg])
  intro req hreq
  obtain rfl : req = ⟨str "a/b", str "c"⟩ := by simpa using hreq
  rfl

/-! ## Order -/

/-- The `Publish` calls of a run, in the order in which they entered their locked section. -/
def publications (ls : List (World.Label S)) : List (GoString × PbMessage) :=
  ls.filterMap (fun l => match l with
    | .publish msg _ => some (getCacheKey msg.nameSpace msg.topic, msg)
    | _ => none)

/-- The `Send`s to `s` on `k`. -/
def World.attempted (w : World S) (s : S) (k : GoString) : List (PubSubServer.Send S) :=
  (w.sendsTo s).filter (fun x => x.cacheKey = k)

/-- What `s` receives on `k`: the `Send`s that succeed, in their order. -/
def World.received (w : World S) (s : S) (k : GoString) : List (PubSubServer.Send S) :=
  (w.attempted s k).filter (fun x => x.ok)

/-- Which publications `s` received on `k`. -/
def World.receivedSeqs (w : World S) (s : S) (k : GoString) : List ℕ :=
  (w.received s k).map Send.seq

theorem published_eq {ls : List (World.Label S)} {w : World S} (h : World.Reach ls w) :
    w.published = publications ls := by
  refine Run.invariant (fun ls w => w.published = publications ls) rfl ?_ h
  intro ls w l w' _ ih hs
  rw [publications, List.filterMap_append, ← publications, ← ih]
  cases hs with
  | request => exact (List.append_nil _).symm
  | subscribe => exact (List.append_nil _).symm
  | recvErr => exact (List.append_nil _).symm
  | remove => exact (List.append_nil _).symm
  | publish => rfl

theorem receivedSeqs_sorted {ls : List (World.Label S)} {w : World S} (h : World.Reach ls w) (s : S)
    (k : GoString) : (w.receivedSeqs s k).Pairwise (· ≤ ·) := by
  obtain ⟨b, hb, hr⟩ := reach_refines h
  have hsent := Bus.sent_sorted hb s
  rw [hr.sent, List.pairwise_map] at hsent
  unfold World.receivedSeqs World.received World.attempted
  rw [List.pairwise_map]
  exact (hsent.filter _).filter _

theorem sentOn_eq_attempted {w : World S} {b : Bus GoString S PbMessage}
    (hr : Refines w b) (s : S) (k : GoString) :
    b.sentOn s k = (w.attempted s k).map Send.delivery := by
  unfold Bus.sentOn World.attempted
  rw [hr.sent, List.filter_map]
  rfl

/-- The publications on `k` from number `n` on. -/
def World.since (w : World S) (k : GoString) (n : ℕ) : List (Delivery GoString PbMessage) :=
  (numbered w.published).filter (fun d => d.topic = k ∧ n ≤ d.seq)

theorem handled_append (s : S) (k : GoString) (ls ls' : List (World.Label S)) :
    handled s k (ls ++ ls') = handled s k ls + handled s k ls' := List.countP_append

/-- **Gap-freedom.** A stream that subscribed to `k` once and has not failed was sent every publication
    on `k` since then, in their order. -/
theorem attempted_gap_free {pre post : List (World.Label S)} {w : World S} {s : S} {k : GoString}
    (h : World.Reach (pre ++ .subscribe s k :: post) w) (honce : handled s k (pre ++ post) = 0)
    (halive : w.pc s ≠ .returned) :
    (w.attempted s k).map Send.delivery = w.since k (publications pre).length := by
  -- the bus of the first part goes on to the bus of the whole run
  obtain ⟨w₀, hpre, hpost⟩ := Run.split _ h
  obtain ⟨b₀, hb₀, hr₀⟩ := reach_refines hpre
  obtain ⟨b, hb, hr⟩ := Run.simulates busLabels hr₀ (fun _ _ _ _ hr hs => step_refines hr hs) hpost
  change Run Bus.Step b₀ (.subscribe s k :: post.flatMap busLabels) b at hb
  rw [handled_append] at honce
  have hgap := Bus.sent_gap_free (s := s) (k := k) hb₀ hb
    (by rw [subscriptions_busLabels]; omega) (by rw [subscriptions_busLabels]; omega)
    (fun hc => halive ((hr.closed s).mp hc))
  rw [← sentOn_eq_attempted hr, hgap, Bus.publishedFrom, World.since, hr.published, hr₀.published,
    published_eq hpre]

/-- **Total order.** The publications of a run are numbered in the order of their locked sections. Two
    publications that two streams both received on a key reached both in that order; every `Send` is for
    the publication of its number; and a stream that subscribed once and has not failed was sent all
    publications on the key since its subscription, so what it received up to its first failing `Send`
    is an initial piece of these, and all of them when no `Send` failed. -/
theorem total_order {ls : List (World.Label S)} {w : World S} (h : World.Reach ls w) :
    w.published = publications ls ∧
    (∀ x ∈ w.sends, w.published[x.seq]? = some (x.cacheKey, x.msg)) ∧
    (∀ s s' k i j, i ≠ j → i ∈ w.receivedSeqs s k → j ∈ w.receivedSeqs s k →
      i ∈ w.receivedSeqs s' k → j ∈ w.receivedSeqs s' k →
      ([i, j].Sublist (w.receivedSeqs s k) ↔ i < j) ∧ ([i, j].Sublist (w.receivedSeqs s' k) ↔ i < j)) ∧
    (∀ pre post s k, ls = pre ++ .subscribe s k :: post → handled s k (pre ++ post) = 0 →
      w.pc s ≠ .returned →
      (w.attempted s k).map Send.delivery = w.since k (publications pre).length ∧
      (((w.attempted s k).takeWhile (fun x => x.ok)).map Send.delivery
          <+: w.since k (publications pre).length ∧
        (w.attempted s k).takeWhile (fun x => x.ok) <+: w.received s k) ∧
      ((∀ x ∈ w.attempted s k, x.ok) →
        (w.received s k).map Send.delivery = w.since k (publications pre).length)) := by
  refine ⟨published_eq h, fun x hx => (send_published h hx).1, ?_, ?_⟩
  · intro s s' k i j hne hi hj hi' hj'
    exact ⟨pair_sublist_iff_lt (receivedSeqs_sorted h s k) hi hj hne,
      pair_sublist_iff_lt (receivedSeqs_sorted h s' k) hi' hj' hne⟩
  · rintro pre post s k rfl honce halive
    have hgap := attempted_gap_free h honce halive
    refine ⟨hgap, ⟨?_, takeWhile_prefix_filter _ _⟩, ?_⟩
    · rw [← hgap]
      exact (List.takeWhile_prefix _).map _
    · intro hok
      rw [← hgap, World.received, List.filter_eq_self.mpr hok]

/-- Two streams around two publications on one key; the second stream comes between them. -/
def lateSubscriber : List (World.Label ℕ) :=
  [.request 0 ⟨str "n", str "t"⟩, .subscribe 0 (str "n/t"),
   .publish ⟨str "n", str "t", str "m0", []⟩ (fun _ => true),
   .request 1 ⟨str "n", str "t"⟩, .subscribe 1 (str "n/t"),
   .publish ⟨str "n", str "t", str "m1", []⟩ (fun _ => true)]

theorem lateSubscriber_order :
    ∃ w : World ℕ, World.Reach lateSubscriber w ∧
      w.published.map (fun p => p.2.messageId) = [str "m0", str "m1"] ∧
      (w.attempted 1 (str "n/t")).map (fun x => x.seq) = [1] := by
  have hrun : ∃ w : World ℕ, World.Reach lateSubscriber w ∧ w.pc 1 = .recv :=
    ⟨_, ((((((Run.nil.snoc (.request rfl)).snoc (.subscribe rfl)).snoc .publish).snoc
      (.request rfl)).snoc (.subscribe rfl)).snoc .publish), rfl⟩
  obtain ⟨w, hw, hpc⟩ := hrun
  obtain ⟨hpub, -, -, hgap⟩ := total_order hw
  refine ⟨w, hw, by rw [hpub]; decide, ?_⟩
  have h₁ := (hgap (lateSubscriber.take 4) [lateSubscriber.getLast (by decide)] 1 (str "n/t") rfl
    (by decide) (by rw [hpc]; nofun)).1
  have h₂ := congrArg (List.map Delivery.seq) h₁
  rw [List.map_map] at h₂
  rw [show (w.attempted 1 (str "n/t")).map (fun x => x.seq)
      = (w.attempted 1 (str "n/t")).map (Delivery.seq ∘ Send.delivery) from rfl, h₂, World.since, hpub]
  decide

end Grpcchannel
end Watermill
end ServiceKit
