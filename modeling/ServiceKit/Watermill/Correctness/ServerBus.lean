import ServiceKit.Lib.TopicBus
import ServiceKit.Watermill.PubSubServer

/-!
# `Correctness.ServerBus` — `pubSubServer` is a topic bus

`Refines w b` reads the server world `w` as the abstract bus `b`: the subscriber list of a cache key is
the live subscriptions of that topic (as a multiset), a stream is closed once its goroutine returned,
and the `Send`s to a stream are what the bus sent it. Every locked section is the bus step of the same
name and every `Recv` is no bus step (`step_refines`), so the run theorems of the bus hold of the
server.
-/

namespace ServiceKit
namespace Watermill
namespace Grpcchannel

open Lib PubSubServer

variable {S : Type} [DecidableEq S]

/-! ## What the locked sections do to the subscriber lists -/

/-- The streams in the subscriber list of a key, in order. -/
def PubSubServer.streams (srv : PubSubServer S) (cacheKey : GoString) : List S :=
  ((srv.subscribers.get cacheKey).getD []).map Subscriber.stream

omit [DecidableEq S] in
@[simp] theorem streams_new (k : GoString) : (newPubSubServer : PubSubServer S).streams k = [] := by
  simp [streams, newPubSubServer]

omit [DecidableEq S] in
theorem streams_addSubscriber (srv : PubSubServer S) (k k' : GoString) (s : S) :
    (srv.addSubscriber k s).streams k'
      = if k' = k then srv.streams k ++ [s] else srv.streams k' := by
  unfold streams addSubscriber
  by_cases hk : k' = k
  · subst hk
    rw [if_pos rfl]
    cases hg : srv.subscribers.get k' <;> simp
  · rw [if_neg hk, ConcurrentMap.get_set_of_ne _ _ hk]

/-- The rebuild loop keeps the other streams' entries and notices whether it dropped one. -/
theorem withoutStream_eq (s : S) (subs : List (Subscriber S)) :
    withoutStream s subs
      = (subs.filter (fun sub => sub.stream ≠ s), subs.any (fun sub => sub.stream = s)) := by
  have hfold : ∀ (subs acc : List (Subscriber S)) (b : Bool),
      subs.foldl (fun p sub => if sub.stream ≠ s then (p.1 ++ [sub], p.2) else (p.1, true)) (acc, b)
        = (acc ++ subs.filter (fun sub => sub.stream ≠ s), b || subs.any (fun sub => sub.stream = s)) := by
    intro subs
    induction subs with
    | nil => intro acc b; simp
    | cons sub rest ih =>
        intro acc b
        rw [List.foldl_cons]
        by_cases hs : sub.stream = s
        · simp only [hs, ne_eq, not_true_eq_false, if_false]
          rw [ih]; simp [hs]
        · simp only [hs, ne_eq, not_false_eq_true, if_true]
          rw [ih]; simp [hs]
  exact hfold subs [] false

theorem streams_removeSubscriber {srv : PubSubServer S} {items : List (GoString × List (Subscriber S))}
    (hitems : items.Perm srv.subscribers.items) (s : S) (k : GoString) :
    (srv.removeSubscriber items s).streams k = (srv.streams k).filter (· ≠ s) := by
  unfold streams removeSubscriber
  rw [ConcurrentMap.get_rewrite_items _ _ hitems]
  cases srv.subscribers.get k with
  | none => rfl
  | some subs =>
      simp only [Option.map_some, withoutStream_eq]
      -- an entry that was not rewritten held no subscription of `s`
      by_cases hany : subs.any (fun sub => sub.stream = s)
      · simp [hany, List.filter_map, Function.comp_def]
      · have hnone : ∀ sub ∈ subs, sub.stream ≠ s := by simpa using hany
        have hkeep : (subs.map Subscriber.stream).filter (· ≠ s) = subs.map Subscriber.stream := by
          apply List.filter_eq_self.mpr
          simpa using hnone
        simp only [hany, Bool.false_eq_true, if_false, Option.getD_none, Option.getD_some, hkeep]

omit [DecidableEq S] in
theorem sendAll_streams (seq : ℕ) (k : GoString) (msg : PbMessage) (ok : ℕ → Bool) (i : ℕ)
    (list : List (Subscriber S)) :
    (sendAll seq k msg ok i list).map Send.stream = list.map Subscriber.stream := by
  induction list generalizing i with
  | nil => rfl
  | cons sub rest ih => simp [sendAll, ih]

omit [DecidableEq S] in
theorem mem_sendAll {seq : ℕ} {k : GoString} {msg : PbMessage} {ok : ℕ → Bool} {i : ℕ}
    {list : List (Subscriber S)} {x : Send S} (hx : x ∈ sendAll seq k msg ok i list) :
    x.seq = seq ∧ x.cacheKey = k ∧ x.msg = msg := by
  induction list generalizing i with
  | nil => exact absurd hx (by simp [sendAll])
  | cons sub rest ih =>
      rcases List.mem_cons.mp hx with rfl | hx
      · exact ⟨rfl, rfl, rfl⟩
      · exact ih hx

omit [DecidableEq S] in
/-- **A publication is sent once per entry of its key's list,** whatever the `Send`s return. -/
theorem publishTo_streams (srv : PubSubServer S) (seq : ℕ) (msg : PbMessage) (ok : ℕ → Bool) :
    (srv.publishTo seq msg ok).map Send.stream = srv.streams (getCacheKey msg.nameSpace msg.topic) := by
  unfold publishTo streams
  cases hg : srv.subscribers.get (getCacheKey msg.nameSpace msg.topic) with
  | none => simp [hg]
  | some list => simp [hg, sendAll_streams]

omit [DecidableEq S] in
theorem mem_publishTo {srv : PubSubServer S} {seq : ℕ} {msg : PbMessage} {ok : ℕ → Bool} {x : Send S}
    (hx : x ∈ srv.publishTo seq msg ok) :
    x.seq = seq ∧ x.cacheKey = getCacheKey msg.nameSpace msg.topic ∧ x.msg = msg := by
  unfold publishTo at hx
  cases hg : srv.subscribers.get (getCacheKey msg.nameSpace msg.topic) with
  | none => simp [hg] at hx
  | some list => simp only [hg] at hx; exact mem_sendAll hx

omit [DecidableEq S] in
theorem mem_sendAll_ok {seq : ℕ} {k : GoString} {msg : PbMessage} {ok : ℕ → Bool} {i : ℕ}
    {list : List (Subscriber S)} {x : Send S} (hx : x ∈ sendAll seq k msg ok i list) : ∃ j, x.ok = ok j := by
  induction list generalizing i with
  | nil => exact absurd hx (by simp [sendAll])
  | cons sub rest ih =>
      rcases List.mem_cons.mp hx with rfl | hx
      · exact ⟨i, rfl⟩
      · exact ih hx

omit [DecidableEq S] in
theorem mem_publishTo_ok {srv : PubSubServer S} {seq : ℕ} {msg : PbMessage} {ok : ℕ → Bool} {x : Send S}
    (hx : x ∈ srv.publishTo seq msg ok) : ∃ j, x.ok = ok j := by
  unfold publishTo at hx
  cases hg : srv.subscribers.get (getCacheKey msg.nameSpace msg.topic) with
  | none => simp [hg] at hx
  | some list => simp only [hg] at hx; exact mem_sendAll_ok hx

/-! ## The refinement -/

def Send.delivery (x : PubSubServer.Send S) : Delivery GoString PbMessage := ⟨x.seq, x.cacheKey, x.msg⟩

/-- The `Send`s to one stream. -/
def World.sendsTo (w : World S) (s : S) : List (PubSubServer.Send S) :=
  w.sends.filter (fun x => x.stream = s)

structure Refines (w : World S) (b : Bus GoString S PbMessage) : Prop where
  subs : ∀ k, b.subs k = (w.server.streams k : Multiset S)
  closed : ∀ s, s ∈ b.closed ↔ w.pc s = .returned
  published : b.published = w.published
  sent : ∀ s, b.sent s = (w.sendsTo s).map Send.delivery

/-- The bus step behind each step of the server world. -/
def busLabels : World.Label S → List (Bus.Label GoString S PbMessage)
  | .request _ _ => []
  | .subscribe s k => [.subscribe s k]
  | .recvErr _ => []
  | .remove s => [.close s]
  | .publish msg _ => [.publish (getCacheKey msg.nameSpace msg.topic) msg]

theorem init_refines : Refines (World.init : World S) Bus.empty where
  subs k := by simp [World.init, Bus.empty]
  closed s := by simp [World.init, Bus.empty]
  published := rfl
  sent _ := rfl

omit [DecidableEq S] in
theorem Send.delivery_of_mem {srv : PubSubServer S} {seq : ℕ} {msg : PbMessage} {ok : ℕ → Bool}
    {x : PubSubServer.Send S} (hx : x ∈ srv.publishTo seq msg ok) :
    Send.delivery x = ⟨seq, getCacheKey msg.nameSpace msg.topic, msg⟩ := by
  obtain ⟨h₁, h₂, h₃⟩ := mem_publishTo hx
  simp [Send.delivery, h₁, h₂, h₃]

/-- What one publication adds to the `Send`s of a stream. -/
theorem publishTo_sendsTo (srv : PubSubServer S) (seq : ℕ) (msg : PbMessage) (ok : ℕ → Bool) (s : S) :
    ((srv.publishTo seq msg ok).filter (fun x => x.stream = s)).map Send.delivery
      = List.replicate ((srv.streams (getCacheKey msg.nameSpace msg.topic)).count s)
          ⟨seq, getCacheKey msg.nameSpace msg.topic, msg⟩ := by
  refine List.eq_replicate_iff.mpr ⟨?_, ?_⟩
  · rw [List.length_map, ← publishTo_streams srv seq msg ok, ← List.countP_eq_length_filter,
      List.count, List.countP_map]
    rfl
  · intro d hd
    obtain ⟨x, hx, rfl⟩ := List.mem_map.mp hd
    exact Send.delivery_of_mem (List.mem_of_mem_filter hx)

/-- **Step diagram.** Every step of the server world is matched by its bus step, or by none. -/
theorem step_refines {w w' : World S} {b : Bus GoString S PbMessage} {l : World.Label S}
    (hr : Refines w b) (hs : World.Step w l w') :
    ∃ b', Run Bus.Step b (busLabels l) b' ∧ Refines w' b' := by
  -- a goroutine that moves on without returning closes nothing
  have hgoto : ∀ (s : S) (pc : Pc), pc ≠ .returned → w.pc s ≠ .returned →
      ∀ t, t ∈ b.closed ↔ Function.update w.pc s pc t = .returned := by
    intro s pc hpc hs t
    rw [hr.closed t]
    by_cases ht : t = s
    · subst ht; simp [hpc, hs]
    · rw [Function.update_of_ne ht]
  cases hs with
  | @request s req hpc =>
      exact ⟨b, .nil, hr.subs, hgoto s _ nofun (by rw [hpc]; nofun), hr.published, hr.sent⟩
  | @recvErr s hpc =>
      exact ⟨b, .nil, hr.subs, hgoto s _ nofun (by rw [hpc]; nofun), hr.published, hr.sent⟩
  | @subscribe s k hpc =>
      have hopen : s ∉ b.closed := by rw [hr.closed, hpc]; nofun
      refine ⟨b.addSub s k, .single (.subscribe hopen), ?_, hgoto s _ nofun (by rw [hpc]; nofun),
        hr.published, hr.sent⟩
      intro k'
      show Function.update b.subs k (s ::ₘ b.subs k) k'
        = ((w.server.addSubscriber k s).streams k' : Multiset S)
      rw [streams_addSubscriber]
      by_cases hk : k' = k
      · subst hk
        rw [Function.update_self, if_pos rfl, hr.subs, Multiset.cons_coe]
        exact Multiset.coe_eq_coe.mpr (List.perm_append_singleton _ _).symm
      · rw [Function.update_of_ne hk, if_neg hk, hr.subs]
  | @remove s items hpc hitems =>
      refine ⟨b.drop s, .single .close, ?_, ?_, hr.published, hr.sent⟩
      · intro k
        show (b.subs k).filter (· ≠ s) = ((w.server.removeSubscriber items s).streams k : Multiset S)
        rw [streams_removeSubscriber hitems, hr.subs, Multiset.filter_coe]
      · intro t
        show t ∈ insert s b.closed ↔ Function.update w.pc s .returned t = .returned
        rw [Set.mem_insert_iff, hr.closed]
        by_cases ht : t = s
        · subst ht; simp
        · simp [ht]
  | @publish msg ok =>
      refine ⟨b.send (getCacheKey msg.nameSpace msg.topic) msg, .single .publish, hr.subs, hr.closed,
        ?_, ?_⟩
      · show b.published ++ [_] = w.published ++ [_]
        rw [hr.published]
      · -- one `Send` per entry, all for this publication
        intro s
        show b.sent s ++ List.replicate _ _
          = (List.filter _ (w.sends ++ w.server.publishTo w.published.length msg ok)).map _
        rw [hr.sent, hr.subs, hr.published, Multiset.coe_count, List.filter_append, List.map_append,
          publishTo_sendsTo]
        rfl

/-- **The server refines the bus** on every run. -/
theorem reach_refines {ls : List (World.Label S)} {w : World S} (h : World.Reach ls w) :
    ∃ b, Run Bus.Step Bus.empty (ls.flatMap busLabels) b ∧ Refines w b :=
  Run.simulates busLabels init_refines (fun _ _ _ _ hr hs => step_refines hr hs) h

end Grpcchannel
end Watermill
end ServiceKit
