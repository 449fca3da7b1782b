import ServiceKit.Lib.Polling
import ServiceKit.Rabbitmq.Consumer
import ServiceKit.Watermill.Grpcchannel

/-!
# `Correctness.ReceiveLoops` — what becomes of a loop whose stream or channel has failed

The goroutine of a grpcchannel `Subscribe` receives from its stream, that of `StartConsumer` consumes from its channel.
Both log a failure and go on with the object that failed: so neither ever leaves one that has failed for good, unless it
was stuck before (`receiveLoops_iff`).
-/

namespace ServiceKit
namespace Rabbitmq

open Lib
open Watermill (Loop)
open Watermill.Grpcchannel (Recv receive)

variable {H E : Type}

/-! ## The two loops -/

/-- The receive loop; a reply of a stream comes with the Channel as it is at that time. -/
def receiveLoop : Polling (Loop ℕ H E Empty) ℕ (Watermill.Grpcchannel.Chan H E × Recv H E) where
  object loop := loop.source
  body turn loop := receive turn.1 turn.2 loop

/-- `Recv` returned an error. -/
def Failed : Watermill.Grpcchannel.Chan H E × Recv H E → Prop
  | (_, .failed _) => True
  | (_, .message ..) => False

/-- A message on which the receive loop is stuck: a handler panics or never returns, or there is no registry. -/
def Stuck : Watermill.Grpcchannel.Chan H E × Recv H E → Prop
  | (_, .failed _) => False
  | (g, .message _ _ env) => env = none ∨ g.handlers = none

/-- The loop of `StartConsumer`. -/
def consumeLoop : Polling RabbitClient.Consumer ℕ (RabbitClient.Consumed E H) where
  object c := c.ch
  body consumed c := RabbitClient.consume consumed c

/-- `Consume` returned an error. -/
def ConsumeFailed : RabbitClient.Consumed E H → Prop
  | .failed _ => True
  | .deliveries .. => False

/-- Deliveries that never end, or whose handler panics. -/
def ConsumeStuck : RabbitClient.Consumed E H → Prop
  | .failed _ => False
  | .deliveries _ closed => closed = false

/-! ## One iteration -/

theorem loopBody_ok_iff (env : Watermill.Env H E Empty) (msg : Watermill.Message) (g : Watermill.Grpcchannel.Chan H E)
    (loop : Loop ℕ H E Empty) (p : Watermill.Progress Watermill.Grpcchannel.Backend H E Empty) :
    (∃ p', Watermill.Grpcchannel.loopBody env msg g loop p = .ok p') ↔ g.handlers ≠ none := by
  unfold Watermill.Grpcchannel.loopBody Watermill.Grpcchannel.dispatchMessages
  cases hhandlers : g.handlers with
  | none => simp [Watermill.useMap, bind, Except.bind]
  | some handlers =>
      refine iff_of_true ?_ (by simp)
      simp only [Watermill.useMap, bind, Except.bind]
      split
      · simp [pure, Except.pure]
      · split
        · simp [pure, Except.pure]
        · simp [pure, Except.pure]

theorem receiveLoop_keepsObject : (receiveLoop (H := H) (E := E)).KeepsObject := by
  rintro ⟨g, recv⟩ loop loop' h
  simp only [receiveLoop, receive] at h ⊢
  split at h
  · cases h
    simp
  · simp at h
  · split at h
    · simp at h
    · cases h
      simp

theorem receiveLoop_endsOn : (receiveLoop (H := H) (E := E)).EndsOn Stuck := by
  rintro ⟨g, recv⟩ loop
  cases recv with
  | failed err => simp [receiveLoop, receive, Stuck]
  | message ptr res env =>
      cases env with
      | none => simp [receiveLoop, receive, Stuck]
      | some env =>
          let msg := Watermill.Grpcchannel.recvMessage ptr res
          have hok := loopBody_ok_iff env msg g loop ⟨g.backend, loop.trace ++ [.take msg]⟩
          simp only [receiveLoop, receive, Stuck]
          cases hbody : Watermill.Grpcchannel.loopBody env msg g loop ⟨g.backend, loop.trace ++ [.take msg]⟩ with
          | error stop => simpa [msg, hbody] using hok
          | ok p => simpa [msg, hbody] using hok

theorem consumeLoop_keepsObject : (consumeLoop (E := E) (H := H)).KeepsObject := by
  rintro (err | ⟨handled, closed⟩) c c' h
  · simp only [consumeLoop, RabbitClient.consume, Option.some.injEq] at h
    rw [h]
  · cases closed with
    | false => simp [consumeLoop, RabbitClient.consume] at h
    | true =>
        simp only [consumeLoop, RabbitClient.consume, if_true, Option.some.injEq] at h ⊢
        rw [← h]

theorem consumeLoop_endsOn : (consumeLoop (E := E) (H := H)).EndsOn ConsumeStuck := by
  rintro (err | ⟨handled, closed⟩) c
  · simp [consumeLoop, RabbitClient.consume, ConsumeStuck]
  · simp [consumeLoop, RabbitClient.consume, ConsumeStuck]

/-- A message that the loop gets past is one that the Channel delivers to it. -/
theorem receive_deliver {g g' : Watermill.Grpcchannel.Chan H E} {i ptr : ℕ} {res : Watermill.Grpcchannel.PbMessage}
    {env : Watermill.Env H E Empty} {loop : Loop ℕ H E Empty} (hloop : g.loops[i]? = some loop)
    (h : g.deliverWith (Watermill.Grpcchannel.loopBody env (Watermill.Grpcchannel.recvMessage ptr res)) i
      (Watermill.Grpcchannel.recvMessage ptr res) = .ok g') :
    g'.loops[i]? = receive g (.message ptr res (some env)) loop := by
  simp only [Watermill.Channel.deliverWith, hloop] at h
  obtain ⟨p, hbody, hg'⟩ := bind_ok_iff.mp h
  have hi : i < g.loops.length := (List.getElem?_eq_some_iff.mp hloop).choose
  cases hg'
  simp [receive, hbody, hi]

/-! ## Objects that failed for good -/

theorem receiveLoop_leaves_iff (turns : ℕ → ℕ → Watermill.Grpcchannel.Chan H E × Recv H E)
    (loop : Loop ℕ H E Empty) (k : ℕ) (hdead : ∀ n, k ≤ n → Failed (turns n loop.source)) :
    receiveLoop.Leaves turns loop loop.source k ↔ ∃ m < k, Stuck (turns m loop.source) := by
  have hfails : ∀ turn : Watermill.Grpcchannel.Chan H E × Recv H E, Failed turn → ¬Stuck turn := by
    rintro ⟨g, err | _⟩ hfailed
    · simp [Stuck]
    · exact hfailed.elim
  exact Polling.leaves_iff receiveLoop_keepsObject receiveLoop_endsOn hfails hdead

theorem consumeLoop_leaves_iff (turns : ℕ → ℕ → RabbitClient.Consumed E H) (c : RabbitClient.Consumer) (k : ℕ)
    (hdead : ∀ n, k ≤ n → ConsumeFailed (turns n c.ch)) :
    consumeLoop.Leaves turns c c.ch k ↔ ∃ m < k, ConsumeStuck (turns m c.ch) := by
  have hfails : ∀ consumed : RabbitClient.Consumed E H, ConsumeFailed consumed → ¬ConsumeStuck consumed := by
    rintro (err | _) hfailed
    · simp [ConsumeStuck]
    · exact hfailed.elim
  exact Polling.leaves_iff consumeLoop_keepsObject consumeLoop_endsOn hfails hdead

/-- **Receive loops.** Where the stream of the one, or the channel of the other, answers every call from iteration `k`
    on with an error, the loop asks it finitely often exactly if it was stuck before. -/
theorem receiveLoops_iff :
    (∀ (turns : ℕ → ℕ → Watermill.Grpcchannel.Chan H E × Recv H E) (loop : Loop ℕ H E Empty) (k : ℕ),
        (∀ n, k ≤ n → Failed (turns n loop.source)) →
          (receiveLoop.Leaves turns loop loop.source k ↔ ∃ m < k, Stuck (turns m loop.source))) ∧
      ∀ (turns : ℕ → ℕ → RabbitClient.Consumed E H) (c : RabbitClient.Consumer) (k : ℕ),
        (∀ n, k ≤ n → ConsumeFailed (turns n c.ch)) →
          (consumeLoop.Leaves turns c c.ch k ↔ ∃ m < k, ConsumeStuck (turns m c.ch)) :=
  ⟨receiveLoop_leaves_iff, consumeLoop_leaves_iff⟩

/-- A Channel that has subscribed, and whose stream is dead. -/
def deadStream : ℕ → ℕ → Watermill.Grpcchannel.Chan Unit Unit × Recv Unit Unit := fun _ _ =>
  (⟨⟨[], false, str "localhost:9090", true, [], [[]]⟩, some .new, 0, none, []⟩, .failed ())

/-- A client whose channel is dead. -/
def deadChannel : ℕ → ℕ → RabbitClient.Consumed Unit Unit := fun _ _ => .failed ()

/-- A message on which the handler never returns, before the stream dies. -/
def stuckStream : ℕ → ℕ → Watermill.Grpcchannel.Chan Unit Unit × Recv Unit Unit := fun n stream =>
  if n = 0 then ((deadStream 0 stream).1, .message 1 ⟨[], str "orders", str "0", str "hello 0"⟩ none)
  else deadStream n stream

/-- Deliveries whose handler panics, before the channel dies. -/
def stuckChannel : ℕ → ℕ → RabbitClient.Consumed Unit Unit := fun n ch =>
  if n = 0 then .deliveries [] false else deadChannel n ch

/-- Loops that were stuck in their first turn do not ask what failed after it. -/
theorem receiveLoops_iff_stuck :
    receiveLoop.Leaves stuckStream ⟨0, str "orders", none, []⟩ 0 1 ∧
      consumeLoop.Leaves stuckChannel ⟨0, []⟩ 0 1 := by
  obtain ⟨hreceive, hconsume⟩ := receiveLoops_iff (H := Unit) (E := Unit)
  constructor
  · refine (hreceive stuckStream ⟨0, str "orders", none, []⟩ 1 ?_).mpr ⟨0, Nat.one_pos, Or.inl rfl⟩
    intro n hn
    rw [stuckStream, if_neg (Nat.one_le_iff_ne_zero.mp hn)]
    trivial
  · refine (hconsume stuckChannel ⟨0, []⟩ 1 ?_).mpr ⟨0, Nat.one_pos, rfl⟩
    intro n hn
    rw [stuckChannel, if_neg (Nat.one_le_iff_ne_zero.mp hn)]
    trivial

/-- **Dead from the start.** Both loops ask forever. -/
theorem receiveLoops_spin :
    (¬∀ (turns : ℕ → ℕ → Watermill.Grpcchannel.Chan Unit Unit × Recv Unit Unit) (loop : Loop ℕ Unit Unit Empty)
          (k : ℕ),
        (∀ n, k ≤ n → Failed (turns n loop.source)) → receiveLoop.Leaves turns loop loop.source k) ∧
      ¬∀ (turns : ℕ → ℕ → RabbitClient.Consumed Unit Unit) (c : RabbitClient.Consumer) (k : ℕ),
        (∀ n, k ≤ n → ConsumeFailed (turns n c.ch)) → consumeLoop.Leaves turns c c.ch k := by
  constructor
  · intro hclaim
    have hdead : ∀ n, 0 ≤ n → Failed (deadStream n 0) := fun _ _ => trivial
    have hleaves := hclaim deadStream ⟨0, str "orders", none, []⟩ 0 hdead
    obtain ⟨m, hm, -⟩ := (receiveLoop_leaves_iff deadStream ⟨0, str "orders", none, []⟩ 0 hdead).mp hleaves
    omega
  · intro hclaim
    have hdead : ∀ n, 0 ≤ n → ConsumeFailed (deadChannel n 0) := fun _ _ => trivial
    have hleaves := hclaim deadChannel ⟨0, []⟩ 0 hdead
    obtain ⟨m, hm, -⟩ := (consumeLoop_leaves_iff deadChannel ⟨0, []⟩ 0 hdead).mp hleaves
    omega

end Rabbitmq
end ServiceKit
