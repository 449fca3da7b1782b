import ServiceKit.Lib.Run

/-!
# `Lib.Delivery` — a queue and the loop that consumes it

The broker pushes the messages of a queue to a consumer, each under a new tag, as long as fewer deliveries
than the window are unsettled. The consumer's loop takes one delivery at a time, calls its handler and then
settles deliveries; `body` says which settlements it makes of a message and the handler's result. A loop is
lawful if it settles each delivery exactly once after the handler and before it takes the next.
-/

namespace ServiceKit
namespace Lib
namespace Delivery

/-- How a delivery is settled. -/
inductive Settlement where
  | ack
  | nack (requeue : Bool)
  | reject (requeue : Bool)
  deriving DecidableEq

def Settlement.requeues : Settlement → Bool
  | .ack => false
  | .nack requeue => requeue
  | .reject requeue => requeue

/-- What the loop does with the delivery `tag`. -/
inductive Event (M R : Type*) where
  | taken (tag : ℕ) (msg : M)
  | handled (tag : ℕ) (msg : M) (res : R)
  | settled (tag : ℕ) (how : Settlement)
  deriving DecidableEq

/-- `pushed` are the deliveries that wait in the consumer, `held` those that were taken and not settled. -/
structure State (M R : Type*) where
  ready : List M
  pushed : List (ℕ × M)
  held : List (ℕ × M)
  next : ℕ
  log : List (Event M R)

variable {M R : Type*}

/-- The messages wait in the queue. -/
def State.init (ready : List M) : State M R := ⟨ready, [], [], 0, []⟩

/-- The window lets one more delivery out. -/
def State.Allowed (window : Option ℕ) (s : State M R) : Prop :=
  ∀ w, window = some w → s.pushed.length + s.held.length < w

/-- Settle a delivery. One that is not held stays as it is; the log has it. -/
def State.settle (tag : ℕ) (s : State M R) (how : Settlement) : State M R :=
  { s with
    ready := if how.requeues then (s.held.filter (fun d => d.1 = tag)).map Prod.snd ++ s.ready else s.ready
    held := s.held.filter (fun d => d.1 ≠ tag)
    log := s.log ++ [.settled tag how] }

/-- An iteration of the loop, with the delivery `(tag, msg)`. -/
def State.iterate (body : M → R → List Settlement) (s : State M R) (rest : List (ℕ × M)) (tag : ℕ) (msg : M)
    (res : R) : State M R :=
  (body msg res).foldl (State.settle tag)
    { s with
      pushed := rest
      held := (tag, msg) :: s.held
      log := s.log ++ [.taken tag msg, .handled tag msg res] }

inductive Label (M R : Type*) where
  | enqueue (msg : M)
  | push
  | take (res : R)

/-- The steps: a message is queued, the broker pushes the next one, the loop takes the next delivery. -/
inductive Step (window : Option ℕ) (body : M → R → List Settlement) :
    State M R → Label M R → State M R → Prop where
  | enqueue {s} (msg : M) : Step window body s (.enqueue msg) { s with ready := s.ready ++ [msg] }
  | push {s msg rest} (hready : s.ready = msg :: rest) (hallowed : s.Allowed window) :
      Step window body s .push
        { s with ready := rest, pushed := s.pushed ++ [(s.next, msg)], next := s.next + 1 }
  | take {s tag msg rest} (res : R) (hpushed : s.pushed = (tag, msg) :: rest) :
      Step window body s (.take res) (s.iterate body rest tag msg res)

/-- Each delivery in the log was settled once, after its handler call and before the next was taken. -/
def Settles : List (Event M R) → Prop
  | [] => True
  | .taken tag _ :: .handled tag' _ _ :: .settled tag'' _ :: log => tag = tag' ∧ tag = tag'' ∧ Settles log
  | _ => False

/-- **The law of a consumer**: the log settles each delivery in time, and when none waits, the broker may
    push the next. -/
structure Lawful (window : Option ℕ) (s : State M R) : Prop where
  settles : Settles s.log
  allowed : s.pushed = [] → s.Allowed window

/-! ## The log as a list of iterations -/

/-- The events of one iteration. -/
def eventsOf (body : M → R → List Settlement) (d : ℕ × M × R) : List (Event M R) :=
  .taken d.1 d.2.1 :: .handled d.1 d.2.1 d.2.2 :: (body d.2.1 d.2.2).map (.settled d.1)

theorem settles_flatMap (body : M → R → List Settlement) (ds : List (ℕ × M × R)) :
    Settles (ds.flatMap (eventsOf body)) ↔ ∀ d ∈ ds, (body d.2.1 d.2.2).length = 1 := by
  induction ds with
  | nil => simp [Settles]
  | cons d ds ih =>
      rw [List.flatMap_cons, List.forall_mem_cons, ← ih]
      unfold eventsOf
      match hbody : body d.2.1 d.2.2 with
      | [] =>
          -- the next event, if there is one, takes a delivery
          cases ds with
          | nil => simp [Settles]
          | cons d' ds => simp [Settles]
      | [how] => simp [Settles]
      | how :: how' :: hows => simp [Settles]

section Bodies

variable (body : M → R → List Settlement)

theorem settleAll_log (tag : ℕ) (hows : List Settlement) (s : State M R) :
    (hows.foldl (State.settle tag) s).log = s.log ++ hows.map (.settled tag) := by
  induction hows generalizing s with
  | nil => simp
  | cons how hows ih =>
      rw [List.foldl_cons, ih]
      simp [State.settle]

/-- Once a delivery was settled, nothing more of it is held. -/
theorem settleAll_held (tag : ℕ) {hows : List Settlement} (hne : hows ≠ []) (s : State M R) :
    (hows.foldl (State.settle tag) s).held = s.held.filter (fun d => d.1 ≠ tag) := by
  induction hows generalizing s with
  | nil => exact absurd rfl hne
  | cons how hows ih =>
      rw [List.foldl_cons]
      cases hows with
      | nil => rfl
      | cons how' hows =>
          rw [ih (by simp)]
          simp [State.settle, List.filter_filter]

/-- **What an iteration does to the log.** -/
theorem iterate_log (s : State M R) (rest : List (ℕ × M)) (tag : ℕ) (msg : M) (res : R) :
    (s.iterate body rest tag msg res).log = s.log ++ eventsOf body (tag, msg, res) := by
  unfold State.iterate eventsOf
  rw [settleAll_log]
  simp

/-- An iteration that settles leaves nothing held, if nothing was. -/
theorem iterate_held {s : State M R} (rest : List (ℕ × M)) (tag : ℕ) {msg : M} {res : R}
    (hbody : (body msg res).length = 1) (hheld : s.held = []) :
    (s.iterate body rest tag msg res).held = [] := by
  unfold State.iterate
  rw [settleAll_held tag (List.ne_nil_of_length_pos (by omega))]
  simp [hheld]

end Bodies

/-! ## Runs -/

section Runs

variable {window : Option ℕ} {body : M → R → List Settlement} {s t : State M R}

/-- The log is that of some iterations; if each settled, nothing is held. -/
def Iterated (body : M → R → List Settlement) (s : State M R) : Prop :=
  ∃ ds : List (ℕ × M × R), s.log = ds.flatMap (eventsOf body) ∧
    ((∀ d ∈ ds, (body d.2.1 d.2.2).length = 1) → s.held = [])

theorem Iterated.step {l : Label M R} (h : Iterated body s) (hstep : Step window body s l t) :
    Iterated body t := by
  obtain ⟨ds, hlog, hheld⟩ := h
  cases hstep with
  | enqueue msg => exact ⟨ds, hlog, hheld⟩
  | push _ _ => exact ⟨ds, hlog, hheld⟩
  | @take tag msg rest res hpushed =>
      refine ⟨ds ++ [(tag, msg, res)], ?_, ?_⟩
      · rw [iterate_log, hlog, List.flatMap_append, List.flatMap_singleton]
      · intro hall
        have hlast : (body msg res).length = 1 := hall (tag, msg, res) (by simp)
        refine iterate_held body rest tag hlast (hheld fun d hd => ?_)
        exact hall d (List.mem_append_left _ hd)

theorem handled_mem_flatMap {ds : List (ℕ × M × R)} {tag : ℕ} {msg : M} {res : R} :
    Event.handled tag msg res ∈ ds.flatMap (eventsOf body) ↔ (tag, msg, res) ∈ ds := by
  simp only [List.mem_flatMap, eventsOf, List.mem_cons, List.mem_map, reduceCtorEq, false_or, and_false,
    exists_false, or_false, Event.handled.injEq]
  constructor
  · rintro ⟨⟨_, _, _⟩, hd, rfl, rfl, rfl⟩
    exact hd
  · intro hd
    exact ⟨_, hd, rfl, rfl, rfl⟩

/-- **A consumer is lawful exactly when every iteration so far settled its delivery once.** -/
theorem lawful_iff {ready : List M} {ls : List (Label M R)} (hwindow : ∀ w, window = some w → 0 < w)
    (hrun : Run (Step window body) (State.init ready) ls s) :
    Lawful window s ↔ ∀ tag msg res, .handled tag msg res ∈ s.log → (body msg res).length = 1 := by
  have hinit : Iterated body (State.init ready) := ⟨[], rfl, fun _ => rfl⟩
  obtain ⟨ds, hlog, hheld⟩ := hrun.preserves hinit (fun _ _ _ h hstep => h.step hstep)
  have hall : (∀ tag msg res, .handled tag msg res ∈ s.log → (body msg res).length = 1)
      ↔ ∀ d ∈ ds, (body d.2.1 d.2.2).length = 1 := by
    rw [hlog]
    simp only [handled_mem_flatMap, Prod.forall]
  rw [hall]
  constructor
  · rintro ⟨hsettles, _⟩
    rw [hlog] at hsettles
    exact (settles_flatMap body ds).mp hsettles
  · intro hds
    refine ⟨?_, ?_⟩
    · rw [hlog]
      exact (settles_flatMap body ds).mpr hds
    · intro hpushed w hw
      rw [hpushed, hheld hds]
      exact hwindow w hw

/-- With a window of one, a delivery that is held keeps the broker from pushing any more: the loop is stuck. -/
theorem stuck_run {ls : List (Label M R)} (hpushed : s.pushed = []) (hheld : s.held ≠ [])
    (hrun : Run (Step (some 1) body) s ls t) : t.pushed = [] ∧ t.held = s.held ∧ t.log = s.log := by
  refine hrun.preserves (P := fun t => t.pushed = [] ∧ t.held = s.held ∧ t.log = s.log)
    ⟨hpushed, rfl, rfl⟩ ?_
  rintro u l v ⟨hp, hh, hl⟩ hstep
  cases hstep with
  | enqueue msg => exact ⟨hp, hh, hl⟩
  | push _ hallowed =>
      have hlt := hallowed 1 rfl
      have hpos : 0 < s.held.length := List.length_pos_iff.mpr hheld
      rw [hp, hh, List.length_nil] at hlt
      omega
  | take res hpushed => exact absurd (hp.symm.trans hpushed) nofun

end Runs

end Delivery
end Lib
end ServiceKit
