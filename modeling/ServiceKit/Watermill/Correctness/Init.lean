import ServiceKit.Watermill.Correctness.Ready
import ServiceKit.Watermill.Correctness.Registry
import ServiceKit.Watermill.Correctness.Steps

/-!
# `Correctness.Init` — which calls meet a map or a publisher that was never made

`New` of `grpcchannel` makes the one map its Channel has, and every call after it is safe. `New` of
`gochannel` makes no `clientMap`, and `New` of `mysqlchannel` no `subscriberMap`: their first call that
needs the missing map panics, and nothing that runs before it makes the map. So a sequence of calls is
safe exactly when none of them needs it (`safe_iff`).
-/

namespace ServiceKit
namespace Watermill

open Lib
open Mysqlchannel (Conv plainConv)

variable {H E : Type}

/-- The calls end, or the process exits, without a panic. -/
def Safe {α : Type} (r : Except Stop α) : Prop := ∀ stop, r = .error stop → stop.isPanic = false

theorem safe_ok {α : Type} (a : α) : Safe (.ok a : Except Stop α) := nofun

theorem not_safe {α : Type} {stop : Stop} (h : stop.isPanic = true) :
    ¬ Safe (.error stop : Except Stop α) := by
  intro hs
  rw [hs stop rfl] at h
  exact Bool.false_ne_true h

/-- **Safety by calls.** Where the calls that `skips` marks keep `Inv` and every other one panics, a
    sequence is safe exactly when all of its calls are marked. -/
theorem safe_iff_of_step {C O R : Type} (step : C → O → Except Stop (R × C)) {Inv : C → Prop}
    {skips : O → Bool}
    (hskip : ∀ c op, Inv c → skips op = true → ∃ r c', step c op = .ok (r, c') ∧ Inv c')
    (hneed : ∀ c op, Inv c → skips op = false → step c op = .error .nilShards) {c : C} (hc : Inv c)
    (ops : List O) : Safe (exec step c ops) ↔ ∀ op ∈ ops, skips op = true := by
  induction ops generalizing c with
  | nil => simp [safe_ok]
  | cons op ops ih =>
      cases hop : skips op with
      | true =>
          obtain ⟨r, c', hs, hc'⟩ := hskip c op hc hop
          rw [exec_cons_ok hs, ih hc']
          simp [hop]
      | false =>
          -- the sequence ends here, in the panic
          rw [exec_cons_error (hneed c op hc hop)]
          constructor
          · intro hsafe; exact absurd hsafe (not_safe rfl)
          · intro hall
            rw [hall op List.mem_cons_self] at hop
            exact absurd hop nofun

/-- The first `Subscribe` on a topic opens a subscription, so it stops where that stops. -/
theorem Fresh.subscribeWith_error {B S X : Type} {g : Channel B S H E X} (hf : Fresh g)
    {openSource : B → Except Stop (Except (GoErr E) S × B)} {stop : Stop}
    (hopen : openSource g.backend = .error stop) {topic : GoString} {h : H} :
    g.subscribeWith openSource topic h = .error stop := by
  unfold Channel.subscribeWith
  rw [hf.handlers, useMap_some]
  simp [bind, Except.bind, hopen]

namespace Gochannel

/-- A call that never gets to `clientMap`. -/
def Op.skipsClientMap : Op H E → Bool
  | .publish _ (some _) _ _ | .subscribe _ _ _ | .subscribeNew _ _ _ | .close => false
  | _ => true

/-- No client map, no registered handler and no goroutine, as after `New`. -/
structure Bare (g : Chan H E) : Prop where
  clientMap : g.backend.clientMap = none
  fresh : Fresh g

theorem getClient_bare {g : Backend} (h : g.clientMap = none) (ns : GoString) :
    getClient ns g = .error .nilShards := by
  unfold getClient
  rw [defaultNamespace_eq]
  dsimp only
  rw [h]
  rfl

theorem step_skips {g : Chan H E} (hb : Bare g) {op : Op H E} (hop : op.skipsClientMap = true) :
    ∃ ret g', step g op = .ok (ret, g') ∧ Bare g' := by
  cases op with
  | withNamespace ns => exact ⟨_, _, rfl, hb.clientMap, hb.fresh.handlers, hb.fresh.loops⟩
  | withChannelBuffer n => exact ⟨_, _, rfl, hb.clientMap, hb.fresh.handlers, hb.fresh.loops⟩
  | withRetryTimes n => exact ⟨_, _, rfl, hb.clientMap, hb.fresh.handlers, hb.fresh.loops⟩
  | withErrorHandler eh => exact ⟨_, _, rfl, hb.clientMap, hb.fresh.handlers, hb.fresh.loops⟩
  | publish topic msg newUUID fault =>
      cases msg with
      | none => exact ⟨_, _, rfl, hb⟩
      | some msg => exact absurd hop nofun
  | subscribe topic h fault => exact absurd hop nofun
  | subscribeNew topic h fault => exact absurd hop nofun
  | close => exact absurd hop nofun
  | deliver l msg env =>
      -- there is no goroutine to take a message
      refine ⟨.ofErr none, g, ?_, hb⟩
      show (g.deliverWith (loopBody env msg) l msg >>= _) = _
      rw [Channel.deliverWith, hb.fresh.loops, List.getElem?_nil]
      rfl

theorem step_needs {g : Chan H E} (hb : Bare g) {op : Op H E} (hop : op.skipsClientMap = false) :
    step g op = .error .nilShards := by
  have hopen : ∀ fault : Option E, openSource fault g.backend = .error .nilShards := by
    intro fault
    rw [openSource, getClient_bare hb.clientMap]
    rfl
  cases op with
  | withNamespace ns => cases hop
  | withChannelBuffer n => cases hop
  | withRetryTimes n => cases hop
  | withErrorHandler eh => cases hop
  | publish topic msg newUUID fault =>
      cases msg with
      | none => cases hop
      | some msg =>
          show (getClient g.backend.nameSpace g.backend >>= _) = _
          rw [getClient_bare hb.clientMap]
          rfl
  | subscribe topic h fault =>
      show (g.subscribeWith (openSource fault) topic h >>= _) = _
      rw [hb.fresh.subscribeWith_error (hopen fault)]
      rfl
  | subscribeNew topic h fault =>
      show (g.subscribeNewWith (openSource fault) topic h >>= _) = _
      rw [Channel.subscribeNewWith, hopen]
      rfl
  | close =>
      show ((useMap g.backend.clientMap >>= _) >>= _) = _
      rw [hb.clientMap]
      rfl
  | deliver l msg env => cases hop

/-- **Without a client map, a sequence of calls is safe exactly when none of them needs it.** -/
theorem safe_iff_skips {g : Chan H E} (hb : Bare g) (ops : List (Op H E)) :
    Safe (exec step g ops) ↔ ∀ op ∈ ops, op.skipsClientMap = true :=
  safe_iff_of_step step (fun _ _ hb hop => step_skips hb hop) (fun _ _ hb hop => step_needs hb hop) hb ops

theorem new_bare : Bare (new : Chan H E) := ⟨rfl, rfl, rfl⟩

end Gochannel

/-! ## mysqlchannel -/

namespace Mysqlchannel

variable {V : Type} {cv : Conv V}

/-- A call that never gets to `subscriberMap` nor, in `Close`, to the publisher. -/
def Op.skipsSubscriberMap : Op H E → Bool
  | .subscribe _ _ _ | .subscribeNew _ _ _ _ | .close => false
  | _ => true

/-- A database but no subscriber map, no registered handler and no goroutine, as after `New`. -/
structure Bare (g : Chan H E) : Prop where
  sqlDb : g.backend.sqlDb = true
  subscriberMap : g.backend.subscriberMap = none
  fresh : Fresh g

theorem new_eq_opened {conf : DriverConfig} {openDB : DriverConfig → Option E} {ping : Option E}
    {g : Chan H E} (h : new conf openDB ping = .ok g) : g = opened := by
  obtain ⟨backend, hinit, hg⟩ := bind_ok_iff.mp h
  obtain rfl := Except.ok.inj hg
  unfold initMysqlDB at hinit
  rw [if_neg (by simp [zeroBackend])] at hinit
  dsimp only at hinit
  generalize (if conf.net = [] then { conf with net := str "tcp" } else conf) = conf at hinit
  split at hinit
  · exact absurd hinit nofun
  · cases hopen : openDB conf with
    | some err => rw [hopen] at hinit; exact absurd hinit nofun
    | none =>
        rw [hopen] at hinit
        cases ping with
        | some err => exact absurd hinit nofun
        | none =>
            obtain rfl := Except.ok.inj hinit
            rfl

theorem opened_bare : Bare (opened : Chan H E) := ⟨rfl, rfl, rfl, rfl⟩

theorem new_bare {conf : DriverConfig} {openDB : DriverConfig → Option E} {ping : Option E}
    {g : Chan H E} (h : new conf openDB ping = .ok g) : Bare g := by
  rw [new_eq_opened h]
  exact opened_bare

theorem getSubscriber_bare {g : Backend} (hdb : g.sqlDb = true) (h : g.subscriberMap = none)
    (consumerGroup : GoString) (fault : Option E) :
    getSubscriber consumerGroup fault g = .error .nilShards := by
  unfold getSubscriber
  rw [if_neg (by rw [hdb]; nofun)]
  dsimp only
  split
  · rw [h]; rfl
  · rw [h]; rfl

/-- `Publish` needs neither the subscriber map nor a publisher made before. -/
theorem publish_bare {topic : GoString} {msg : Option Message} {newUUID : GoString}
    {newPublisher fault : Option E} {g : Chan H E} (hb : Bare g) :
    Bare (publish cv topic msg newUUID newPublisher fault g).2 := by
  obtain ⟨hdb, hm⟩ := publish_backend cv topic msg newUUID newPublisher fault g
  cases hres : publish cv topic msg newUUID newPublisher fault g with
  | mk ret g' =>
      obtain ⟨hh, hl⟩ := publish_frame hres
      rw [hres] at hdb hm
      exact ⟨hdb.trans hb.sqlDb, hm.trans hb.subscriberMap, hh.trans hb.fresh.handlers,
        hl.trans hb.fresh.loops⟩

theorem step_skips (cv : Conv V) {g : Chan H E} (hb : Bare g) {op : Op H E}
    (hop : op.skipsSubscriberMap = true) :
    ∃ ret g', step cv g op = .ok (ret, g') ∧ Bare g' := by
  cases op with
  | withRetryTimes n => exact ⟨_, _, rfl, hb.sqlDb, hb.subscriberMap, hb.fresh.handlers, hb.fresh.loops⟩
  | withNamespace ns => exact ⟨_, _, rfl, hb.sqlDb, hb.subscriberMap, hb.fresh.handlers, hb.fresh.loops⟩
  | withConsumerGroup cg =>
      exact ⟨_, _, rfl, hb.sqlDb, hb.subscriberMap, hb.fresh.handlers, hb.fresh.loops⟩
  | withErrorHandler eh =>
      exact ⟨_, _, rfl, hb.sqlDb, hb.subscriberMap, hb.fresh.handlers, hb.fresh.loops⟩
  | publish topic msg newUUID newPublisher fault => exact ⟨_, _, rfl, publish_bare hb⟩
  | subscribe topic h faults => exact absurd hop nofun
  | subscribeNew topic consumerGroup h faults => exact absurd hop nofun
  | close => exact absurd hop nofun
  | deliver l msg env =>
      -- there is no goroutine to take a message
      refine ⟨.ofErr none, g, ?_, hb⟩
      show (g.deliverWith (loopBody cv env msg) l msg >>= _) = _
      rw [Channel.deliverWith, hb.fresh.loops, List.getElem?_nil]
      rfl

theorem step_needs (cv : Conv V) {g : Chan H E} (hb : Bare g) {op : Op H E}
    (hop : op.skipsSubscriberMap = false) :
    step cv g op = .error .nilShards := by
  have hopen : ∀ (topic consumerGroup : GoString) (faults : SubscribeFaults E),
      openSource topic consumerGroup faults g.backend = .error .nilShards := by
    intro topic consumerGroup fault
    rw [openSource, getSubscriber_bare hb.sqlDb hb.subscriberMap]
    rfl
  cases op with
  | withRetryTimes n => exact absurd hop nofun
  | withNamespace ns => exact absurd hop nofun
  | withConsumerGroup cg => exact absurd hop nofun
  | withErrorHandler eh => exact absurd hop nofun
  | publish topic msg newUUID newPublisher fault => exact absurd hop nofun
  | subscribe topic h faults =>
      have hfail : subscribe topic h faults g = .error .nilShards :=
        hb.fresh.subscribeWith_error (hopen topic g.backend.consumerGroup faults)
      show (subscribe topic h faults g >>= _) = _
      rw [hfail]
      rfl
  | subscribeNew topic consumerGroup h faults =>
      show (g.subscribeNewWith (openSource topic consumerGroup faults) topic h >>= _) = _
      rw [Channel.subscribeNewWith, hopen]
      rfl
  | close =>
      show ((useMap g.backend.subscriberMap >>= _) >>= _) = _
      rw [hb.subscriberMap]
      rfl
  | deliver l msg env => exact absurd hop nofun

/-- **Without a subscriber map, a sequence of calls is safe exactly when none of them needs it.** -/
theorem safe_iff_skips {g : Chan H E} (hb : Bare g) (ops : List (Op H E)) :
    Safe (exec (step cv) g ops) ↔ ∀ op ∈ ops, op.skipsSubscriberMap = true :=
  safe_iff_of_step (step cv) (fun _ _ hb hop => step_skips cv hb hop) (fun _ _ hb hop => step_needs cv hb hop) hb ops

end Mysqlchannel

/-! ## grpcchannel -/

namespace Grpcchannel

theorem new_spec {cfg : NewConfig} {g : Chan H E} (h : new cfg = .ok g) :
    Ready HasServerAddress g ∧ Fresh g := by
  unfold new at h
  split at h
  · exact absurd h nofun
  · next hcfg =>
      obtain rfl := Except.ok.inj h
      exact ⟨⟨⟨_, rfl⟩, fun haddr => hcfg (Or.inr haddr)⟩, rfl, rfl⟩

/-- **No sequence of calls panics**: at worst `log.Fatalf` ends the process. -/
theorem safe_of_ready {g : Chan H E} (hr : Ready HasServerAddress g) (ops : List (Op H E)) :
    Safe (exec step g ops) := by
  have hends := exec_ends (Ready HasServerAddress) (fun _ op hg => step_ready hg op) hr ops
  intro stop hstop
  rw [hstop] at hends
  obtain rfl : stop = .fatal := hends
  rfl

end Grpcchannel

/-! ## The three constructors -/

section Constructors

variable {V : Type} (cv : Conv V)

/-- **Initialisation safety.** A Channel that `New` of `grpcchannel` returns is safe under every sequence
    of calls. One of `gochannel` is safe exactly under the calls that leave the client map alone, one of
    `mysqlchannel` exactly under those that leave the subscriber map alone. -/
theorem new_safe_iff :
    (∀ cfg (g : Grpcchannel.Chan H E) ops, Grpcchannel.new cfg = .ok g →
      Safe (exec Grpcchannel.step g ops)) ∧
    (∀ ops, Safe (exec Gochannel.step (Gochannel.new : Gochannel.Chan H E) ops) ↔
      ∀ op ∈ ops, op.skipsClientMap = true) ∧
    (∀ conf openDB ping (g : Mysqlchannel.Chan H E) ops, Mysqlchannel.new conf openDB ping = .ok g →
      (Safe (exec (Mysqlchannel.step cv) g ops) ↔ ∀ op ∈ ops, op.skipsSubscriberMap = true)) := by
  refine ⟨?_, ?_, ?_⟩
  · intro cfg g ops hnew
    exact Grpcchannel.safe_of_ready (Grpcchannel.new_spec hnew).1 ops
  · intro ops
    exact Gochannel.safe_iff_skips Gochannel.new_bare ops
  · intro conf openDB ping g ops hnew
    exact Mysqlchannel.safe_iff_skips (Mysqlchannel.new_bare hnew) ops

end Constructors

theorem new_safe_iff_runs :
    (∃ g : Grpcchannel.Chan Unit Unit,
      Grpcchannel.new ⟨str ":31106", str "127.0.0.1:31106", str "order"⟩ = .ok g ∧
      Safe (exec Grpcchannel.step g [.subscribe (str "test") () .ok, .close])) ∧
    Safe (exec Gochannel.step (Gochannel.new : Gochannel.Chan Unit Unit) [.withNamespace (str "order")]) ∧
    (∃ g : Mysqlchannel.Chan Unit Unit,
      Mysqlchannel.new ⟨[], str "pubsub"⟩ (fun _ => none) none = .ok g ∧
      Safe (exec (Mysqlchannel.step plainConv) g
        [.publish (str "aaaa") (some ⟨0, str "axeee", str "hello aaaa"⟩) [] none none])) := by
  refine ⟨⟨_, rfl, ?_⟩, ?_, ⟨_, rfl, ?_⟩⟩
  · exact (new_safe_iff plainConv).1 ⟨str ":31106", str "127.0.0.1:31106", str "order"⟩ _ _ rfl
  · exact ((new_safe_iff plainConv).2.1 _).mpr (by simp [Gochannel.Op.skipsClientMap])
  · apply ((new_safe_iff plainConv).2.2 ⟨[], str "pubsub"⟩ (fun _ => none) none _ _ rfl).mpr
    simp [Mysqlchannel.Op.skipsSubscriberMap]

/-- The first `Subscribe` after `New` panics in `gochannel` and in `mysqlchannel`, where `Close` does too. -/
theorem new_subscribe_panics :
    ¬ Safe (exec Gochannel.step (Gochannel.new : Gochannel.Chan Unit Unit)
        [.subscribe (str "aaaa") () none]) ∧
    (∃ g : Mysqlchannel.Chan Unit Unit,
      Mysqlchannel.new ⟨[], str "pubsub"⟩ (fun _ => none) none = .ok g ∧
      ¬ Safe (exec (Mysqlchannel.step plainConv) g [.subscribe (str "aaaa") () .ok]) ∧
      ¬ Safe (exec (Mysqlchannel.step plainConv) g [.close])) := by
  refine ⟨?_, _, rfl, ?_, ?_⟩
  · exact not_safe (show Stop.nilShards.isPanic = true from rfl)
  · exact not_safe (show Stop.nilShards.isPanic = true from rfl)
  · exact not_safe (show Stop.nilShards.isPanic = true from rfl)

end Watermill
end ServiceKit
