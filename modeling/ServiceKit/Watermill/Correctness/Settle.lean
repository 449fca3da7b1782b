import Mathlib.Data.List.TakeWhile
import ServiceKit.Watermill.Correctness.Subscribe

/-!
# `Correctness.Settle` — which messages are acknowledged

A trace is settled when every message taken is acknowledged exactly once before the next one is taken. A
loop of `gochannel` or `grpcchannel` is settled on every path. One of `mysqlchannel` is settled exactly
when every message it took decodes: where `getDataFromMsg` fails, the body returns without an `Ack`.
-/

namespace ServiceKit
namespace Watermill

open Lib
open Mysqlchannel (Conv plainConv getDataFromMsg)

variable {B S H E X : Type}

/-! ## Settled traces -/

def Event.isTake : Event H E X → Bool
  | .take _ => true
  | _ => false

/-- The messages taken in a trace, in order. -/
def taken (tr : Trace H E X) : List Message :=
  tr.filterMap (fun e => match e with
    | .take m => some m
    | _ => none)

/-- The acknowledgements in a trace, in order. -/
def acks (tr : Trace H E X) : List ℕ :=
  tr.filterMap (fun e => match e with
    | .ack ptr => some ptr
    | _ => none)

/-- The events up to the next taking of a message. -/
def untilTake (tr : Trace H E X) : Trace H E X := tr.takeWhile (fun e => !e.isTake)

/-- Every message taken is acknowledged once, and nothing else is, before the next is taken. -/
def Settled (tr : Trace H E X) : Prop :=
  ∀ pre m post, tr = pre ++ .take m :: post → acks (untilTake post) = [m.ptr]

theorem untilTake_eq_self {tr : Trace H E X} (h : ∀ e ∈ tr, e.isTake = false) : untilTake tr = tr := by
  apply List.takeWhile_eq_self_iff.mpr
  intro e he
  rw [h e he]
  rfl

theorem taken_eq_nil {tr : Trace H E X} (h : ∀ e ∈ tr, e.isTake = false) : taken tr = [] := by
  apply List.filterMap_eq_nil_iff.mpr
  intro e he
  cases e with
  | take m => exact absurd (h _ he) nofun
  | _ => rfl

/-- A later taking bounds what comes before it. -/
theorem untilTake_append_take (tr seg : Trace H E X) (m : Message) :
    untilTake (tr ++ .take m :: seg) = untilTake tr := by
  induction tr with
  | nil => rfl
  | cons e tr ih =>
      unfold untilTake at ih ⊢
      rw [List.cons_append, List.takeWhile_cons, List.takeWhile_cons, ih]

theorem not_settled_take (m : Message) : ¬ Settled ([.take m] : Trace H E X) := by
  intro h
  exact absurd (h [] m [] rfl) nofun

theorem settled_nil : Settled ([] : Trace H E X) := by
  intro pre m post h
  exact absurd h (by simp)

/-- **One more message.** A trace that takes `m` and then does `seg` is settled when it was settled
    before and `seg` acknowledges `m` once. -/
theorem settled_append_iff {tr seg : Trace H E X} {m : Message} (hseg : ∀ e ∈ seg, e.isTake = false) :
    Settled (tr ++ .take m :: seg) ↔ Settled tr ∧ acks seg = [m.ptr] := by
  constructor
  · intro h
    constructor
    · intro pre m' post htr
      have hpost := h pre m' (post ++ .take m :: seg) (by rw [htr]; simp)
      rwa [untilTake_append_take] at hpost
    · have hlast := h tr m seg rfl
      rwa [untilTake_eq_self hseg] at hlast
  · rintro ⟨htr, hack⟩ pre m' post heq
    rcases List.append_eq_append_iff.mp heq with ⟨mid, hpre, hrest⟩ | ⟨mid, hpre, hrest⟩
    · -- the message is `m` itself, or it was taken within `seg`
      cases mid with
      | nil =>
          obtain ⟨htake, rfl⟩ := List.cons.inj hrest
          obtain rfl := Event.take.inj htake
          rw [untilTake_eq_self hseg]
          exact hack
      | cons e mid =>
          obtain ⟨_, rfl⟩ := List.cons.inj hrest
          have hin := hseg (.take m') (by simp)
          exact absurd hin nofun
    · -- it was taken before `m`, or it is `m`
      cases mid with
      | nil =>
          obtain ⟨htake, rfl⟩ := List.cons.inj hrest
          obtain rfl := Event.take.inj htake
          rw [untilTake_eq_self hseg]
          exact hack
      | cons e mid =>
          obtain ⟨rfl, hpost⟩ := List.cons.inj hrest
          rw [hpost]
          show acks (untilTake (mid ++ .take m :: seg)) = [m'.ptr]
          rw [untilTake_append_take]
          exact htr pre m' mid hpre

/-! ## What a body appends -/

theorem Event.About.isTake {msg : Message} {e : Event H E X} (h : e.About msg) : e.isTake = false := by
  cases e with
  | take _ => exact h.elim
  | _ => rfl

theorem acks_eq_nil {msg : Message} {es : Trace H E X} (h : ∀ e ∈ es, e.About msg) : acks es = [] := by
  apply List.filterMap_eq_nil_iff.mpr
  intro e he
  cases e with
  | ack _ => exact (h _ he).elim
  | _ => rfl

variable {decode : Message → Option Message} {g g' : Channel B S H E X} {loop : Loop S H E X}
  {msg : Message} {seg : Trace H E X}

/-- No body takes a further message. -/
theorem Appends.not_isTake (h : Appends decode g loop msg seg) : ∀ e ∈ seg, e.isTake = false := by
  unfold Appends at h
  split at h
  · obtain ⟨es, rfl, hes, _⟩ := h
    intro e he
    rcases List.mem_append.mp he with he | he
    · exact (hes e he).isTake
    · rw [List.mem_singleton.mp he]
      rfl
  · rw [h]
    nofun

/-- A body with handlers to serve acknowledges the message if and only if it decodes. -/
theorem Appends.acks_iff (h : Appends decode g loop msg seg)
    (hptr : ∀ m m', decode m = some m' → m'.ptr = m.ptr) (hserved : ∃ hs, g.served loop = some hs) :
    acks seg = [msg.ptr] ↔ (decode msg).isSome = true := by
  obtain ⟨hs, hs_eq⟩ := hserved
  unfold Appends at h
  rw [hs_eq] at h
  cases hdec : decode msg with
  | none =>
      rw [hdec] at h
      obtain rfl : seg = [] := h
      exact ⟨nofun, nofun⟩
  | some msg' =>
      rw [hdec] at h
      obtain ⟨es, rfl, hes, _⟩ := h
      have hes' : acks es = [] := acks_eq_nil hes
      have hack : acks (es ++ [.ack msg'.ptr]) = [msg.ptr] := by
        rw [acks, List.filterMap_append, ← acks, hes', ← hptr msg msg' hdec]
        rfl
      exact ⟨fun _ => rfl, fun _ => hack⟩

/-! ## Runs -/

/-- The trace is settled exactly when every message taken decodes. -/
def SettledIff (decode : Message → Option Message) (tr : Trace H E X) : Prop :=
  Settled tr ↔ ∀ m ∈ taken tr, (decode m).isSome = true

theorem settledIff_append {tr : Trace H E X} (htr : SettledIff decode tr)
    (h : Appends decode g loop msg seg) (hptr : ∀ m m', decode m = some m' → m'.ptr = m.ptr)
    (hserved : ∃ hs, g.served loop = some hs) : SettledIff decode (tr ++ .take msg :: seg) := by
  have htaken : taken (tr ++ .take msg :: seg) = taken tr ++ [msg] := by
    have hseg : taken seg = [] := taken_eq_nil h.not_isTake
    rw [taken, List.filterMap_append, ← taken, List.filterMap_cons, ← taken, hseg]
  unfold SettledIff at htr ⊢
  rw [settled_append_iff h.not_isTake, h.acks_iff hptr hserved, htr, htaken]
  simp only [List.mem_append, List.mem_singleton]
  constructor
  · rintro ⟨hold, hnew⟩ m (hm | rfl)
    · exact hold m hm
    · exact hnew
  · intro hall
    exact ⟨fun m hm => hall m (Or.inl hm), hall msg (Or.inr rfl)⟩

/-- **Run lemma.** Every loop of a Channel that started fresh is settled exactly when its messages
    decode. -/
theorem run_settledIff {g₀ : Channel B S H E X} (hfresh : Fresh g₀)
    (hptr : ∀ m m', decode m = some m' → m'.ptr = m.ptr) {ls : List (Act H × Option (GoErr E))}
    (h : Run (Effect decode) g₀ ls g) : ∀ loop ∈ g.loops, SettledIff decode loop.trace := by
  refine Run.invariant (fun _ g => ∀ loop ∈ g.loops, SettledIff decode loop.trace) ?_ ?_ h
  · rw [hfresh.loops]
    nofun
  · intro ls g l g' hrun hset he loop' hloop'
    have hserved := run_served hfresh hrun
    rcases he.mem_loops hloop' with hold | hnil | ⟨loop, hloop, msg, seg, hseg, rfl⟩
    · exact hset loop' hold
    · rw [hnil]
      exact ⟨fun _ => nofun, fun _ => settled_nil⟩
    · exact settledIff_append (hset loop hloop) hseg hptr (hserved loop hloop)

theorem run_settled {g₀ : Channel B S H E X} (hfresh : Fresh g₀)
    {ls : List (Act H × Option (GoErr E))} (h : Run (Effect some) g₀ ls g) :
    ∀ loop ∈ g.loops, Settled loop.trace := by
  intro loop hloop
  have hptr : ∀ m m' : Message, some m = some m' → m'.ptr = m.ptr := by
    intro m m' hmm
    rw [Option.some.inj hmm]
  exact (run_settledIff hfresh hptr h loop hloop).mpr (fun _ _ => rfl)

theorem Mysqlchannel.getDataFromMsg_ptr {V : Type} (cv : Conv V) {m m' : Message}
    (h : getDataFromMsg cv m = some m') : m'.ptr = m.ptr := by
  rw [getDataFromMsg_eq] at h
  obtain ⟨originData, _, rfl⟩ := Option.map_eq_some_iff.mp h
  rfl

theorem Mysqlchannel.getDataFromMsg_isSome {V : Type} (cv : Conv V) (m : Message) :
    (getDataFromMsg cv m).isSome = (Base64.decode (cv.string (cv.unmarshal m.payload).data)).isSome := by
  rw [getDataFromMsg_eq, Option.isSome_map]

/-! ## The three Channels -/

/-- **Every message is acknowledged exactly once before the next is taken**, in every loop of
    `gochannel` and `grpcchannel`; in a loop of `mysqlchannel`, exactly when the `Data` of every payload
    it took is base64. -/
theorem loops_settled_iff {V : Type} (cv : Conv V) :
    (∀ ls (g : Gochannel.Chan H E), Run Gochannel.Step Gochannel.newWithMap ls g →
      ∀ loop ∈ g.loops, Settled loop.trace) ∧
    (∀ cfg (g₀ : Grpcchannel.Chan H E), Grpcchannel.new cfg = .ok g₀ →
      ∀ ls g, Run Grpcchannel.Step g₀ ls g → ∀ loop ∈ g.loops, Settled loop.trace) ∧
    (∀ conf openDB ping (g₀ : Mysqlchannel.Chan H E), Mysqlchannel.new conf openDB ping = .ok g₀ →
      ∀ ls g, Run (Mysqlchannel.Step cv) (Mysqlchannel.withMap g₀) ls g → ∀ loop ∈ g.loops,
        (Settled loop.trace ↔ ∀ m ∈ taken loop.trace,
          (Base64.decode (cv.string (cv.unmarshal m.payload).data)).isSome = true)) := by
  refine ⟨?_, ?_, ?_⟩
  · intro ls g hrun
    exact run_settled Gochannel.newWithMap_fresh (Gochannel.run_effect hrun)
  · intro cfg g₀ hnew ls g hrun
    have hfresh := (Grpcchannel.new_spec hnew).2
    exact run_settled hfresh (Grpcchannel.run_effect (Grpcchannel.allDispatch_of_fresh hfresh) hrun).2
  · intro conf openDB ping g₀ hnew ls g hrun loop hloop
    have hfresh := (Mysqlchannel.new_bare hnew).withMap_fresh
    have hset := run_settledIff hfresh (fun _ _ => Mysqlchannel.getDataFromMsg_ptr cv)
      (Mysqlchannel.run_effect hrun) loop hloop
    unfold SettledIff at hset
    simp only [Mysqlchannel.getDataFromMsg_isSome] at hset
    exact hset

/-- Every call fails. -/
def allFail (X : Type) : Env Unit Unit X := ⟨fun _ _ _ _ => some (), fun _ _ _ => some ()⟩

def Mysqlchannel.allFail : RetryEnv Unit Unit :=
  { toEnv := Watermill.allFail _, newMysqlRetry := fun _ => some (), doAsync := fun _ => some () }

/-- A message to a subscription of `Subscribe` and one to a subscription of `SubscribeNew`, both with the
    payload `payload`. -/
def Mysqlchannel.oneMessageEach (payload : GoString) : List (Op Unit Unit) :=
  [.subscribe (str "aaaa") () .ok, .subscribeNew (str "bbbb") [] () .ok,
    .deliver 0 ⟨0, str "axeee", payload⟩ allFail, .deliver 1 ⟨1, str "bxeee", payload⟩ allFail]

theorem Gochannel.oneMessage_run : ∃ ls g, ls.map Prod.fst = [.subscribe (str "aaaa") () none,
      .deliver 0 ⟨0, str "axeee", str "hello aaaa"⟩ (Watermill.allFail _)] ∧
    Run Step newWithMap ls g ∧ g.loops.length = 1 :=
  exec_run_of_map rfl

theorem Grpcchannel.oneMessage_run : ∃ ls g, ls.map Prod.fst = [.subscribe (str "test") () .ok,
      .deliver 0 ⟨0, str "0", str "hello 0"⟩ (Watermill.allFail _)] ∧
    Run Step (newWith ⟨str ":31106", str "127.0.0.1:31106", str "order"⟩) ls g ∧ g.loops.length = 1 :=
  exec_run_of_map rfl

/-- A row that `Publish` writes, and one whose `Data` is not base64. -/
def goodRow : GoString := Mysqlchannel.encodePayload plainConv (str "aaaa") (str "hello")
def badRow : GoString := str "\x7b\"data\":\"@\"\x7d"

theorem Mysqlchannel.goodMessage_run : ∃ ls g, ls.map Prod.fst = oneMessageEach goodRow ∧
    Run (Step plainConv) (withMap opened) ls g ∧
    g.loops.map (fun loop => taken loop.trace)
      = [[⟨0, str "axeee", goodRow⟩], [⟨1, str "bxeee", goodRow⟩]] :=
  exec_run_of_map rfl

theorem Mysqlchannel.badMessage_run : ∃ ls g, ls.map Prod.fst = oneMessageEach badRow ∧
    Run (Step plainConv) (withMap opened) ls g ∧
    g.loops.map Loop.trace = [[.take ⟨0, str "axeee", badRow⟩], [.take ⟨1, str "bxeee", badRow⟩]] :=
  exec_run_of_map rfl

theorem loops_settled_iff_oneMessage :
    (∃ ls g, ls.map Prod.fst = [.subscribe (str "aaaa") () none,
        .deliver 0 ⟨0, str "axeee", str "hello aaaa"⟩ (allFail _)] ∧
      Run Gochannel.Step Gochannel.newWithMap ls g ∧ ∀ loop ∈ g.loops, Settled loop.trace) ∧
    (∃ g₀ ls g, ls.map Prod.fst = [.subscribe (str "test") () .ok,
        .deliver 0 ⟨0, str "0", str "hello 0"⟩ (allFail _)] ∧
      Run Grpcchannel.Step g₀ ls g ∧ ∀ loop ∈ g.loops, Settled loop.trace) ∧
    (∃ ls g, ls.map Prod.fst = Mysqlchannel.oneMessageEach goodRow ∧
      Run (Mysqlchannel.Step plainConv) (Mysqlchannel.withMap Mysqlchannel.opened) ls g ∧
      ∀ loop ∈ g.loops, Settled loop.trace) := by
  obtain ⟨hgo, hgrpc, hmysql⟩ := loops_settled_iff (H := Unit) (E := Unit) plainConv
  refine ⟨?_, ?_, ?_⟩
  · obtain ⟨ls, g, hls, hrun, _⟩ := Gochannel.oneMessage_run
    exact ⟨ls, g, hls, hrun, hgo ls g hrun⟩
  · obtain ⟨ls, g, hls, hrun, _⟩ := Grpcchannel.oneMessage_run
    exact ⟨_, ls, g, hls, hrun, hgrpc ⟨str ":31106", str "127.0.0.1:31106", str "order"⟩ _ rfl ls g hrun⟩
  · obtain ⟨ls, g, hls, hrun, htaken⟩ := Mysqlchannel.goodMessage_run
    refine ⟨ls, g, hls, hrun, ?_⟩
    intro loop hloop
    apply (hmysql ⟨[], str "pubsub"⟩ (fun _ => none) none _ rfl ls g hrun loop hloop).mpr
    have hmem : taken loop.trace ∈ g.loops.map (fun loop => taken loop.trace) :=
      List.mem_map.mpr ⟨loop, hloop, rfl⟩
    rw [htaken] at hmem
    have hall : ∀ ms ∈ [[(⟨0, str "axeee", goodRow⟩ : Message)], [⟨1, str "bxeee", goodRow⟩]],
        ∀ m ∈ ms, (Base64.decode (plainConv.string (plainConv.unmarshal m.payload).data)).isSome := by
      decide
    exact hall _ hmem

/-- A row whose `Data` is not base64: no loop of either style acknowledges it. -/
theorem undecodable_unsettled : ∃ ls g,
    ls.map Prod.fst = Mysqlchannel.oneMessageEach badRow ∧
    Run (Mysqlchannel.Step plainConv) (Mysqlchannel.withMap Mysqlchannel.opened) ls g ∧
    g.loops.length = 2 ∧ ∀ loop ∈ g.loops, ¬ Settled loop.trace := by
  obtain ⟨ls, g, hls, hrun, htr⟩ := Mysqlchannel.badMessage_run
  have hlength := congrArg List.length htr
  rw [List.length_map] at hlength
  refine ⟨ls, g, hls, hrun, hlength, ?_⟩
  intro loop hloop
  have hmem : loop.trace ∈ g.loops.map Loop.trace := List.mem_map.mpr ⟨loop, hloop, rfl⟩
  rw [htr] at hmem
  rcases List.mem_pair.mp hmem with htr | htr
  · rw [htr]; exact not_settled_take _
  · rw [htr]; exact not_settled_take _

end Watermill
end ServiceKit
