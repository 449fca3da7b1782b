import ServiceKit.Lib.Separated
import ServiceKit.Watermill.Mysqlchannel

/-!
# `Correctness.TableNames` — the tables of a queue

A queue is a namespace and a topic; its tables are the one that `Publish` inserts into and a subscriber reads, and the
one of the subscriber's offsets. The name of the second is the name of the first for the topic with `offsets_` before
it, and both join their parts by `_`: so two queues share a table exactly when one can be read as the other across an
underscore (`Confused`).
-/

namespace ServiceKit
namespace Watermill
namespace Mysqlchannel

open Lib

variable {V H E : Type}

/-! ## Names -/

/-- The namespace, the default for none, and the topic. -/
def queue (g : Backend) (topic : GoString) : GoString × GoString := ((defaultNamespace g).nameSpace, topic)

/-- The queue whose messages would be the offsets of `q`. -/
def offsetsOf (q : GoString × GoString) : GoString × GoString := (q.1, str "offsets_" ++ q.2)

def messagesTable (g : Backend) (topic : GoString) : GoString := (getTableFromNamespace topic g).1

def offsetsTable (g : Backend) (topic : GoString) : GoString := (getOffsetsTableFromNamespace topic g).1

/-- The name of the messages table of a queue. -/
def tableName (q : GoString × GoString) : GoString := str "`" ++ (q.1 ++ 95 :: q.2) ++ str "`"

theorem queue_eq (g : Backend) (topic : GoString) :
    queue g topic = (if g.nameSpace = [] then str "default" else g.nameSpace, topic) := by
  simp [queue, defaultNamespace, apply_ite Backend.nameSpace]

/-- The default that a call gives the Channel changes no later name. -/
theorem queue_defaultNamespace (g : Backend) (topic : GoString) : queue (defaultNamespace g) topic = queue g topic := by
  have hdefault : str "default" ≠ [] := by decide
  by_cases hns : g.nameSpace = []
  · simp [queue, defaultNamespace, hns, hdefault]
  · simp [queue, defaultNamespace, hns]

theorem messagesTable_eq (g : Backend) (topic : GoString) : messagesTable g topic = tableName (queue g topic) := by
  have hscore : str "_" = [95] := by decide
  simp [messagesTable, getTableFromNamespace, tableName, queue, hscore]

theorem offsetsTable_eq (g : Backend) (topic : GoString) :
    offsetsTable g topic = tableName (offsetsOf (queue g topic)) := by
  have hinfix : str "_offsets_" = 95 :: str "offsets_" := by decide
  simp [offsetsTable, getOffsetsTableFromNamespace, tableName, offsetsOf, queue, hinfix]

theorem tableName_eq_iff {p q : GoString × GoString} :
    tableName p = tableName q ↔ p = q ∨ Shifted 95 p q ∨ Shifted 95 q p := by
  rw [tableName, tableName, List.append_left_inj, List.append_right_inj, join_eq_join_iff]

theorem offsetsOf_inj {p q : GoString × GoString} : offsetsOf p = offsetsOf q ↔ p = q := by
  simp [offsetsOf, Prod.ext_iff]

/-! ## The tables that calls use -/

theorem getPublisher_nameSpace (fault : Option E) (g : Backend) :
    (getPublisher fault g).2.nameSpace = g.nameSpace := by
  unfold getPublisher
  split
  · simp
  · split
    · simp
    · split <;> simp

/-- `Publish` inserts into the messages table. -/
theorem publish_table {cv : Conv V} {topic : GoString} {msg : Option Message} {newUUID table : GoString}
    {newPublisher fault : Option E} {g : Chan H E} {stored : Message}
    (h : (publish cv topic msg newUUID newPublisher fault g).1.sent = some (table, stored)) :
    table = messagesTable g.backend topic := by
  cases msg with
  | none => simp [publish, Ret.ofErr] at h
  | some msg =>
      cases hpublisher : getPublisher newPublisher g.backend with
      | mk publisher backend =>
          cases publisher with
          | error err => simp [publish, hpublisher, Ret.ofErr] at h
          | ok _ =>
              cases fault with
              | some err => simp [publish, hpublisher, Ret.ofErr] at h
              | none =>
                  have hns := getPublisher_nameSpace newPublisher g.backend
                  rw [hpublisher] at hns
                  simp only [publish, hpublisher, Option.some.injEq, Prod.mk.injEq] at h
                  rw [← h.1, ← messagesTable, messagesTable_eq, messagesTable_eq]
                  rw [queue_eq, queue_eq, hns]

theorem getSubscriber_nameSpace {consumerGroup : GoString} {fault : Option E} {g g' : Backend}
    {res : Except (GoErr E) ℕ} (h : getSubscriber consumerGroup fault g = .ok (res, g')) :
    g'.nameSpace = g.nameSpace := by
  unfold getSubscriber at h
  split at h
  · simp only [pure, Except.pure, Except.ok.injEq, Prod.mk.injEq] at h
    rw [← h.2]
  · obtain ⟨subscriberMap, -, h⟩ := bind_ok_iff.mp h
    split at h
    · simp only [pure, Except.pure, Except.ok.injEq, Prod.mk.injEq] at h
      rw [← h.2]
      split <;> simp
    · split at h
      · simp only [pure, Except.pure, Except.ok.injEq, Prod.mk.injEq] at h
        rw [← h.2]
        split <;> simp
      · simp only [pure, Except.pure, Except.ok.injEq, Prod.mk.injEq] at h
        rw [← h.2]
        show (if g.consumerGroup = [] then { g with consumerGroup := str "default" } else g).nameSpace = _
        split <;> simp

/-- A subscription reads the messages table and keeps its offsets in the offsets table. -/
theorem openSource_tables {topic consumerGroup : GoString} {faults : SubscribeFaults E} {g g' : Backend}
    {source : Source} (h : openSource topic consumerGroup faults g = .ok (.ok source, g')) :
    source.table = messagesTable g topic ∧ source.offsetsTable = offsetsTable g topic := by
  obtain ⟨⟨res, b⟩, hsub, h⟩ := bind_ok_iff.mp h
  have hns := getSubscriber_nameSpace hsub
  cases res with
  | error err => simp [pure, Except.pure] at h
  | ok subscriber =>
      cases hfault : faults.subscribe with
      | some err => simp [hfault, pure, Except.pure] at h
      | none =>
          simp only [hfault, pure, Except.pure, Except.ok.injEq, Prod.mk.injEq] at h
          rw [messagesTable_eq, offsetsTable_eq, ← h.1]
          have hqueue : queue b topic = queue g topic := by
            rw [queue_eq, queue_eq, hns]
          rw [← hqueue]
          refine ⟨messagesTable_eq b topic, ?_⟩
          rw [← queue_defaultNamespace b topic]
          exact offsetsTable_eq (defaultNamespace b) topic

/-! ## Apart -/

/-- Two queues share no table, unless they are one, and no messages table is an offsets table. -/
structure QueuesApart (g g' : Backend) (topic topic' : GoString) : Prop where
  messages : queue g topic ≠ queue g' topic' → messagesTable g topic ≠ messagesTable g' topic'
  offsets : queue g topic ≠ queue g' topic' → offsetsTable g topic ≠ offsetsTable g' topic'
  kinds : messagesTable g topic ≠ offsetsTable g' topic' ∧ offsetsTable g topic ≠ messagesTable g' topic'

/-- One of the queues is where the other has its offsets, or one of their tables can be read as one of the other's,
    across an underscore. -/
def Confused (p q : GoString × GoString) : Prop :=
  p = offsetsOf q ∨ q = offsetsOf p ∨
    ∃ p' ∈ [p, offsetsOf p], ∃ q' ∈ [q, offsetsOf q], Shifted 95 p' q' ∨ Shifted 95 q' p'

/-- **The tables of two queues.** `Publish` and the subscriptions use the tables of their queue, and these are apart
    exactly when the queues are not confused. -/
theorem queues_apart_iff (cv : Conv V) :
    (∀ topic msg newUUID newPublisher fault table stored (g : Chan H E),
        (publish cv topic msg newUUID newPublisher fault g).1.sent = some (table, stored) →
          table = messagesTable g.backend topic) ∧
      (∀ topic consumerGroup source g' (faults : SubscribeFaults E) (g : Backend),
        openSource topic consumerGroup faults g = .ok (.ok source, g') →
          source.table = messagesTable g topic ∧ source.offsetsTable = offsetsTable g topic) ∧
      ∀ g g' topic topic', QueuesApart g g' topic topic' ↔ ¬Confused (queue g topic) (queue g' topic') := by
  refine ⟨fun _ _ _ _ _ _ _ _ h => publish_table h, fun _ _ _ _ _ _ h => openSource_tables h, ?_⟩
  intro g g' topic topic'
  generalize hp : queue g topic = p
  generalize hq : queue g' topic' = q
  constructor
  · rintro ⟨hmessages, hoffsets, hkinds, hkinds'⟩ hconfused
    simp only [messagesTable_eq, offsetsTable_eq, hp, hq, ne_eq, tableName_eq_iff] at hmessages hoffsets hkinds hkinds'
    rcases hconfused with rfl | rfl | ⟨p', hp', q', hq', hshift⟩
    · exact hkinds (Or.inl rfl)
    · exact hkinds' (Or.inl rfl)
    · -- a queue is no shift of itself
      have hne : ∀ r : GoString × GoString, ¬(Shifted 95 r r ∨ Shifted 95 r r) := fun r h =>
        h.elim (not_shifted_of_fst_eq (Eq.refl _)) (not_shifted_of_fst_eq (Eq.refl _))
      simp only [List.mem_cons, List.not_mem_nil, or_false] at hp' hq'
      rcases hp' with rfl | rfl
      · rcases hq' with rfl | rfl
        · refine hmessages ?_ (Or.inr hshift)
          rintro rfl
          exact hne _ hshift
        · exact hkinds (Or.inr hshift)
      · rcases hq' with rfl | rfl
        · exact hkinds' (Or.inr hshift)
        · refine hoffsets ?_ (Or.inr hshift)
          rintro rfl
          exact hne _ hshift
  · intro hconfused
    have hshift : ∀ p' ∈ [p, offsetsOf p], ∀ q' ∈ [q, offsetsOf q], ¬(Shifted 95 p' q' ∨ Shifted 95 q' p') :=
      fun p' hp' q' hq' h => hconfused (Or.inr (Or.inr ⟨p', hp', q', hq', h⟩))
    constructor
    · intro hne
      rw [hp, hq] at hne
      rw [messagesTable_eq, messagesTable_eq, hp, hq, ne_eq, tableName_eq_iff]
      exact not_or.mpr ⟨hne, hshift p (by simp) q (by simp)⟩
    · intro hne
      rw [hp, hq] at hne
      rw [offsetsTable_eq, offsetsTable_eq, hp, hq, ne_eq, tableName_eq_iff, offsetsOf_inj]
      exact not_or.mpr ⟨hne, hshift (offsetsOf p) (by simp) (offsetsOf q) (by simp)⟩
    · rw [messagesTable_eq, offsetsTable_eq, messagesTable_eq, offsetsTable_eq, hp, hq, ne_eq, ne_eq,
        tableName_eq_iff, tableName_eq_iff]
      refine ⟨not_or.mpr ⟨fun h => hconfused (Or.inl h), hshift p (by simp) (offsetsOf q) (by simp)⟩, ?_⟩
      exact not_or.mpr ⟨fun h => hconfused (Or.inr (Or.inl h.symm)), hshift (offsetsOf p) (by simp) q (by simp)⟩

/-- A Channel with a namespace. -/
def inNamespace (ns : GoString) : Backend := { zeroBackend with nameSpace := ns }

/-- The topic `b_c` of `a` and the topic `c` of `a_b`; and the topic `offsets_t` beside the offsets of `t`. -/
theorem not_queues_apart :
    ¬(∀ (g g' : Backend) (topic topic' : GoString), QueuesApart g g' topic topic') ∧
      messagesTable (inNamespace (str "a")) (str "b_c") = messagesTable (inNamespace (str "a_b")) (str "c") ∧
      messagesTable (inNamespace (str "a")) (str "offsets_t") = offsetsTable (inNamespace (str "a")) (str "t") := by
  have hmessages : messagesTable (inNamespace (str "a")) (str "b_c") =
      messagesTable (inNamespace (str "a_b")) (str "c") := by
    decide
  have hkinds : messagesTable (inNamespace (str "a")) (str "offsets_t") =
      offsetsTable (inNamespace (str "a")) (str "t") := by
    decide
  refine ⟨?_, hmessages, hkinds⟩
  intro h
  exact (h _ _ _ _).messages (by decide) hmessages

end Mysqlchannel
end Watermill
end ServiceKit
