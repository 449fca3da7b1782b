import ServiceKit.Watermill.Correctness.Effect
import ServiceKit.Watermill.Gochannel
import ServiceKit.Watermill.Grpcchannel
import ServiceKit.Watermill.Mysqlchannel

/-!
# `Correctness.Steps` — the effect of every step of the three Channels

For each Channel: what its loop body appends (`loopBody_appends`) and which effect each of its steps has
(`step_effect`). This is the only file that opens the Channels' operations; what is proved of runs of a
Channel goes through `Effect`.
-/

namespace ServiceKit
namespace Watermill

open Lib

variable {B S H E X : Type}

theorem Serves.appends {decode : Message → Option Message} {g : Channel B S H E X}
    {loop : Loop S H E X} {msg msg' : Message} {hs : List H} {p p' : Progress B H E X}
    (h : Serves msg' hs p p') (hserved : g.served loop = some hs) (hdec : decode msg = some msg') :
    ∃ seg, p'.trace = p.trace ++ seg ∧ Appends decode g loop msg seg := by
  obtain ⟨es, htr, hes, hcall⟩ := h
  refine ⟨es ++ [.ack msg'.ptr], htr, ?_⟩
  unfold Appends
  rw [hserved, hdec]
  exact ⟨es, rfl, hes, hcall⟩

theorem appends_nil {decode : Message → Option Message} {g : Channel B S H E X}
    {loop : Loop S H E X} {msg : Message} {p : Progress B H E X}
    (h : g.served loop = none ∨ decode msg = none) :
    ∃ seg, p.trace = p.trace ++ seg ∧ Appends decode g loop msg seg := by
  refine ⟨[], by simp, ?_⟩
  unfold Appends
  rcases h with h | h
  · rw [h]
  · rw [h]; cases g.served loop <;> rfl

theorem served_dispatch {g : Channel B S H E X} {loop : Loop S H E X}
    {handlers : ConcurrentMap GoString (List H)} (hloop : loop.handler = none)
    (hm : g.handlers = some handlers) : g.served loop = handlers.get loop.topic := by
  unfold Channel.served
  rw [hloop, hm]
  rfl

/-! ## gochannel -/

namespace Gochannel

theorem retryMessage_works (g : Chan H E) (env : Env H E Empty) (msg : Message) (h : H)
    (err : MultiErr E) (p : Progress Backend H E Empty) :
    Works msg p (retryMessage g env msg h err p).2 :=
  retryMessageWith_works env msg (fun _ p => .refl p) _ _ h err p

theorem loopBody_appends {env : Env H E Empty} {msg : Message} {g : Chan H E}
    {loop : Loop ℕ H E Empty} {p p' : Progress Backend H E Empty}
    (hb : loopBody env msg g loop p = .ok p') :
    ∃ seg, p'.trace = p.trace ++ seg ∧ Appends some g loop msg seg := by
  unfold loopBody at hb
  cases hloop : loop.handler with
  | some h =>
      rw [hloop] at hb
      obtain rfl := Except.ok.inj hb
      exact (handleNew_serves env msg (retryMessage_works g env msg) h p).appends
        (by unfold Channel.served; rw [hloop]) rfl
  | none =>
      rw [hloop] at hb
      obtain ⟨handlers, hm, hb⟩ := bind_ok_iff.mp hb
      have hserved := served_dispatch hloop (useMap_eq_ok.mp hm)
      cases hget : handlers.get loop.topic with
      | none =>
          -- no handlers: logged, and nothing else
          rw [hget] at hb hserved
          obtain rfl := Except.ok.inj hb
          exact appends_nil (Or.inl hserved)
      | some hs =>
          rw [hget] at hb hserved
          obtain rfl := Except.ok.inj hb
          exact (handleAll_calls env msg (retryMessage_works g env msg) hs none p).ack.appends hserved rfl

theorem publish_frame {topic : GoString} {msg : Option Message} {newUUID : GoString} {fault : Option E}
    {g g' : Chan H E} {ret : Ret E} (hp : publish topic msg newUUID fault g = .ok (ret, g')) :
    g'.handlers = g.handlers ∧ g'.loops = g.loops := by
  cases msg with
  | none =>
      obtain ⟨rfl, rfl⟩ := ok_pair_inj hp
      exact ⟨rfl, rfl⟩
  | some msg =>
      obtain ⟨⟨client, backend⟩, _, hp⟩ := bind_ok_iff.mp hp
      cases fault with
      | none =>
          obtain ⟨rfl, rfl⟩ := ok_pair_inj hp
          exact ⟨rfl, rfl⟩
      | some err =>
          obtain ⟨rfl, rfl⟩ := ok_pair_inj hp
          exact ⟨rfl, rfl⟩

def Op.act : Op H E → Act H
  | .subscribe topic h _ => .subscribe topic h
  | .subscribeNew topic h _ => .subscribeNew topic h
  | .deliver l msg _ => .deliver l msg
  | _ => .other

/-- What a step asks of the registry and the loops, and the error it returns. -/
def label (l : Op H E × Ret E) : Act H × Option (GoErr E) := (l.1.act, l.2.err)

theorem step_effect {g g' : Chan H E} {op : Op H E} {ret : Ret E} (hs : step g op = .ok (ret, g')) :
    Effect some g (op.act, ret.err) g' := by
  cases op with
  | withNamespace ns =>
      obtain ⟨rfl, rfl⟩ := ok_pair_inj hs; exact .other rfl rfl
  | withChannelBuffer n =>
      obtain ⟨rfl, rfl⟩ := ok_pair_inj hs; exact .other rfl rfl
  | withRetryTimes n =>
      obtain ⟨rfl, rfl⟩ := ok_pair_inj hs; exact .other rfl rfl
  | withErrorHandler eh =>
      obtain ⟨rfl, rfl⟩ := ok_pair_inj hs; exact .other rfl rfl
  | publish topic msg newUUID fault =>
      obtain ⟨hh, hl⟩ := publish_frame hs
      exact .other hh hl
  | subscribe topic h fault =>
      obtain ⟨⟨err, g₁⟩, hsub, hret⟩ := bind_ok_iff.mp hs
      obtain ⟨rfl, rfl⟩ := ok_pair_inj hret
      exact subscribeWith_effect hsub
  | subscribeNew topic h fault =>
      obtain ⟨⟨err, g₁⟩, hsub, hret⟩ := bind_ok_iff.mp hs
      obtain ⟨rfl, rfl⟩ := ok_pair_inj hret
      exact subscribeNewWith_effect hsub
  | close =>
      obtain ⟨g₁, hclose, hret⟩ := bind_ok_iff.mp hs
      obtain ⟨m, _, hg⟩ := bind_ok_iff.mp hclose
      obtain rfl := Except.ok.inj hg
      obtain ⟨rfl, rfl⟩ := ok_pair_inj hret
      exact .other rfl rfl
  | deliver l msg env =>
      obtain ⟨g₁, hdel, hret⟩ := bind_ok_iff.mp hs
      obtain ⟨rfl, rfl⟩ := ok_pair_inj hret
      exact deliverWith_effect (fun loop p p' _ hb => loopBody_appends hb) hdel

theorem run_effect {g₀ g : Chan H E} {ls : List (Op H E × Ret E)} (h : Run Step g₀ ls g) :
    Run (Effect some) g₀ (ls.map label) g :=
  h.map label (fun _ _ _ hs => step_effect hs)

/-- The effect of a delivery; it returns nothing. -/
theorem deliver_effect {g g' : Chan H E} {i : ℕ} {msg : Message} {env : Env H E Empty} {ret : Ret E}
    (hs : Step g (.deliver i msg env, ret) g') : Effect some g (.deliver i msg, none) g' := by
  have he : Effect some g (.deliver i msg, ret.err) g' := step_effect hs
  obtain ⟨g₁, _, hret⟩ := bind_ok_iff.mp hs
  have hofErr : ret = .ofErr none := (ok_pair_inj hret).1.symm
  rw [hofErr] at he
  exact he

end Gochannel

/-! ## grpcchannel -/

namespace Grpcchannel

theorem retryMessage_works (g : Chan H E) (env : Env H E Empty) (msg : Message) (h : H)
    (err : MultiErr E) (p : Progress Backend H E Empty) :
    Works msg p (retryMessage g env msg h err p).2 :=
  retryMessageWith_works env msg (fun _ p => .refl p) _ _ h err p

/-- The Channel has no `SubscribeNew`, so its loops all dispatch. -/
theorem loopBody_appends {env : Env H E Empty} {msg : Message} {g : Chan H E}
    {loop : Loop ℕ H E Empty} {p p' : Progress Backend H E Empty} (hloop : loop.handler = none)
    (hb : loopBody env msg g loop p = .ok p') :
    ∃ seg, p'.trace = p.trace ++ seg ∧ Appends some g loop msg seg := by
  obtain ⟨handlers, hm, hb⟩ := bind_ok_iff.mp hb
  have hserved := served_dispatch hloop (useMap_eq_ok.mp hm)
  cases hget : handlers.get loop.topic with
  | none =>
      rw [hget] at hb hserved
      obtain rfl := Except.ok.inj hb
      exact appends_nil (Or.inl hserved)
  | some hs =>
      rw [hget] at hb hserved
      have hcalls := handleAll_calls env msg (retryMessage_works g env msg) hs none p
      cases hres : handleAll (retryMessage g env msg) env msg hs none p with
      | mk retError p₁ =>
          rw [hres] at hcalls
          simp only [hres] at hb
          cases retError with
          | none => obtain rfl := Except.ok.inj hb; exact hcalls.ack.appends hserved rfl
          | some err => obtain rfl := Except.ok.inj hb; exact hcalls.ack.appends hserved rfl

theorem startServe_frame {fault : Option E} {g g' : Chan H E} {err : Option (GoErr E)}
    (hs : startServe fault g = .ok (err, g')) : g'.handlers = g.handlers ∧ g'.loops = g.loops := by
  unfold startServe at hs
  split at hs
  · obtain ⟨rfl, rfl⟩ := ok_pair_inj hs; exact ⟨rfl, rfl⟩
  · split at hs
    · obtain ⟨rfl, rfl⟩ := ok_pair_inj hs; exact ⟨rfl, rfl⟩
    · cases fault with
      | some err => exact absurd hs nofun
      | none => obtain ⟨rfl, rfl⟩ := ok_pair_inj hs; exact ⟨rfl, rfl⟩

theorem publish_frame {topic : GoString} {msg : Option Message} {newUUID : GoString}
    {newClient fault : Option E} {g g' : Chan H E} {ret : Ret E}
    (hp : publish topic msg newUUID newClient fault g = .ok (ret, g')) :
    g'.handlers = g.handlers ∧ g'.loops = g.loops := by
  cases msg with
  | none => obtain ⟨rfl, rfl⟩ := ok_pair_inj hp; exact ⟨rfl, rfl⟩
  | some msg =>
      obtain ⟨⟨client, backend⟩, _, hp⟩ := bind_ok_iff.mp hp
      cases client with
      | error err => obtain ⟨rfl, rfl⟩ := ok_pair_inj hp; exact ⟨rfl, rfl⟩
      | ok u =>
          dsimp only at hp
          split at hp
          · cases fault with
            | none => obtain ⟨rfl, rfl⟩ := ok_pair_inj hp; exact ⟨rfl, rfl⟩
            | some err => obtain ⟨rfl, rfl⟩ := ok_pair_inj hp; exact ⟨rfl, rfl⟩
          · obtain ⟨rfl, rfl⟩ := ok_pair_inj hp; exact ⟨rfl, rfl⟩

def Op.act : Op H E → Act H
  | .subscribe topic h _ => .subscribe topic h
  | .deliver l msg _ => .deliver l msg
  | _ => .other

/-- What a step asks of the registry and the loops, and the error it returns. -/
def label (l : Op H E × Ret E) : Act H × Option (GoErr E) := (l.1.act, l.2.err)

/-- No loop of the Channel has a handler of its own. -/
def AllDispatch (g : Chan H E) : Prop := ∀ loop ∈ g.loops, loop.handler = none

theorem step_effect {g g' : Chan H E} {op : Op H E} {ret : Ret E} (hall : AllDispatch g)
    (hs : step g op = .ok (ret, g')) : Effect some g (op.act, ret.err) g' := by
  cases op with
  | withRetryTimes n =>
      obtain ⟨rfl, rfl⟩ := ok_pair_inj hs; exact .other rfl rfl
  | withNamespace ns =>
      obtain ⟨rfl, rfl⟩ := ok_pair_inj hs; exact .other rfl rfl
  | withErrorHandler eh =>
      obtain ⟨rfl, rfl⟩ := ok_pair_inj hs; exact .other rfl rfl
  | startServe fault =>
      obtain ⟨⟨err, g₁⟩, hserve, hret⟩ := bind_ok_iff.mp hs
      obtain ⟨rfl, rfl⟩ := ok_pair_inj hret
      obtain ⟨hh, hl⟩ := startServe_frame hserve
      exact .other hh hl
  | publish topic msg newUUID newClient fault =>
      obtain ⟨hh, hl⟩ := publish_frame hs
      exact .other hh hl
  | subscribe topic h faults =>
      obtain ⟨⟨err, g₁⟩, hsub, hret⟩ := bind_ok_iff.mp hs
      obtain ⟨rfl, rfl⟩ := ok_pair_inj hret
      exact subscribeWith_effect hsub
  | close =>
      obtain ⟨rfl, rfl⟩ := ok_pair_inj hs; exact .other rfl rfl
  | deliver l msg env =>
      obtain ⟨g₁, hdel, hret⟩ := bind_ok_iff.mp hs
      obtain ⟨rfl, rfl⟩ := ok_pair_inj hret
      exact deliverWith_effect
        (fun loop p p' hmem hb => loopBody_appends (hall loop hmem) hb) hdel

theorem step_allDispatch {g g' : Chan H E} {op : Op H E} {ret : Ret E} (hall : AllDispatch g)
    (hs : step g op = .ok (ret, g')) : AllDispatch g' := by
  have he := step_effect hall hs
  have hne : ∀ topic h, op.act ≠ .subscribeNew topic h := by intro topic h; cases op <;> nofun
  generalize op.act = a at he hne
  generalize ret.err = err at he
  intro loop hloop
  cases he with
  | other _ hl => exact hall loop (hl ▸ hloop)
  | failed _ hl => exact hall loop (hl ▸ hloop)
  | append _ _ _ hl => exact hall loop (hl ▸ hloop)
  | start _ _ _ hl =>
      rw [hl] at hloop
      rcases List.mem_append.mp hloop with hloop | hloop
      · exact hall loop hloop
      · rw [List.mem_singleton.mp hloop]
  | startNew _ hl => exact absurd rfl (hne _ _)
  | noLoop _ _ hl => exact hall loop (hl ▸ hloop)
  | @deliver _ i msg loop' seg hloop' _ _ hl =>
      rw [hl] at hloop
      rcases List.mem_or_eq_of_mem_set hloop with hloop | rfl
      · exact hall loop hloop
      · exact hall loop' (List.mem_of_getElem? hloop')

theorem run_effect {g₀ g : Chan H E} {ls : List (Op H E × Ret E)} (hall : AllDispatch g₀)
    (h : Run Step g₀ ls g) : AllDispatch g ∧ Run (Effect some) g₀ (ls.map label) g := by
  refine Run.invariant (fun ls g => AllDispatch g ∧ Run (Effect some) g₀ (ls.map label) g)
    ⟨hall, .nil⟩ ?_ h
  rintro ls g l g' _ ⟨hall, hrun⟩ hs
  refine ⟨step_allDispatch hall hs, ?_⟩
  rw [List.map_append]
  exact hrun.snoc (step_effect hall hs)

/-- The effect of a delivery; it returns nothing. -/
theorem deliver_effect {g g' : Chan H E} {i : ℕ} {msg : Message} {env : Env H E Empty} {ret : Ret E}
    (hall : AllDispatch g)
    (hs : Step g (.deliver i msg env, ret) g') : Effect some g (.deliver i msg, none) g' := by
  have he : Effect some g (.deliver i msg, ret.err) g' := step_effect hall hs
  obtain ⟨g₁, _, hret⟩ := bind_ok_iff.mp hs
  have hofErr : ret = .ofErr none := (ok_pair_inj hret).1.symm
  rw [hofErr] at he
  exact he

end Grpcchannel

/-! ## mysqlchannel -/

namespace Mysqlchannel

variable {V : Type}

theorem ensureRetryService_works (env : RetryEnv H E) (msg : Message)
    (p : Progress Backend H E (RetryEvent H E)) : Works msg p (ensureRetryService env p).2 := by
  unfold ensureRetryService
  split
  · exact .refl p
  · dsimp only
    split
    · exact .backend _
    · exact (Works.backend _).trans (Works.backend _)

theorem mysqlRetryMessage_works (env : RetryEnv H E) (msg : Message) (h : H) (err : MultiErr E)
    (p : Progress Backend H E (RetryEvent H E)) : Works msg p (mysqlRetryMessage env msg h err p).2 := by
  have hens := ensureRetryService_works env msg p
  unfold mysqlRetryMessage
  cases hres : ensureRetryService env p with
  | mk r p₁ =>
      rw [hres] at hens
      cases r with
      | some e => exact hens
      | none =>
          dsimp only
          split
          · exact (hens.trans (.backend _)).trans (.backend _)
          · exact (hens.trans (.backend _)).trans (.backend _)

theorem retryMessage_works (g : Chan H E) (env : RetryEnv H E) (msg : Message) (h : H)
    (err : MultiErr E) (p : Progress Backend H E (RetryEvent H E)) :
    Works msg p (retryMessage g env msg h err p).2 :=
  retryMessageWith_works env.toEnv msg (fun err p => mysqlRetryMessage_works env msg h err p) _ _ h err p

theorem loopBody_appends {cv : Conv V} {env : RetryEnv H E} {msg : Message} {g : Chan H E}
    {loop : Loop Source H E (RetryEvent H E)} {p p' : Progress Backend H E (RetryEvent H E)}
    (hb : loopBody cv env msg g loop p = .ok p') :
    ∃ seg, p'.trace = p.trace ++ seg ∧ Appends (getDataFromMsg cv) g loop msg seg := by
  unfold loopBody at hb
  cases hloop : loop.handler with
  | some h =>
      rw [hloop] at hb
      cases hdec : getDataFromMsg cv msg with
      | none =>
          -- not decoded: skipped
          simp only [hdec] at hb
          obtain rfl := Except.ok.inj hb
          exact appends_nil (Or.inr hdec)
      | some msg' =>
          simp only [hdec] at hb
          obtain rfl := Except.ok.inj hb
          exact (handleNew_serves env.toEnv msg' (retryMessage_works g env msg') h p).appends
            (by unfold Channel.served; rw [hloop]) hdec
  | none =>
      rw [hloop] at hb
      obtain ⟨handlers, hm, hb⟩ := bind_ok_iff.mp hb
      have hserved := served_dispatch hloop (useMap_eq_ok.mp hm)
      cases hget : handlers.get loop.topic with
      | none =>
          -- no handlers: logged, and nothing else
          rw [hget] at hb hserved
          obtain rfl := Except.ok.inj hb
          exact appends_nil (Or.inl hserved)
      | some hs =>
          rw [hget] at hb hserved
          cases hdec : getDataFromMsg cv msg with
          | none =>
              simp only [hdec] at hb
              obtain rfl := Except.ok.inj hb
              exact appends_nil (Or.inr hdec)
          | some msg' =>
              have hcalls := handleAll_calls env.toEnv msg' (retryMessage_works g env msg') hs none p
              cases hres : handleAll (retryMessage g env msg') env.toEnv msg' hs none p with
              | mk retError p₁ =>
                  rw [hres] at hcalls
                  simp only [hdec, hres] at hb
                  cases retError with
                  | none => obtain rfl := Except.ok.inj hb; exact hcalls.ack.appends hserved hdec
                  | some err => obtain rfl := Except.ok.inj hb; exact hcalls.ack.appends hserved hdec

theorem publish_frame {cv : Conv V} {topic : GoString} {msg : Option Message} {newUUID : GoString}
    {newPublisher fault : Option E} {g g' : Chan H E} {ret : Ret E}
    (hp : publish cv topic msg newUUID newPublisher fault g = (ret, g')) :
    g'.handlers = g.handlers ∧ g'.loops = g.loops := by
  obtain rfl := congrArg Prod.snd hp
  cases msg with
  | none => exact ⟨rfl, rfl⟩
  | some msg =>
      unfold publish
      dsimp only
      split
      · exact ⟨rfl, rfl⟩
      · split
        · exact ⟨rfl, rfl⟩
        · exact ⟨rfl, rfl⟩

def Op.act : Op H E → Act H
  | .subscribe topic h _ => .subscribe topic h
  | .subscribeNew topic _ h _ => .subscribeNew topic h
  | .deliver l msg _ => .deliver l msg
  | _ => .other

/-- What a step asks of the registry and the loops, and the error it returns. -/
def label (l : Op H E × Ret E) : Act H × Option (GoErr E) := (l.1.act, l.2.err)

theorem step_effect {cv : Conv V} {g g' : Chan H E} {op : Op H E} {ret : Ret E}
    (hs : step cv g op = .ok (ret, g')) : Effect (getDataFromMsg cv) g (op.act, ret.err) g' := by
  cases op with
  | withRetryTimes n =>
      obtain ⟨rfl, rfl⟩ := ok_pair_inj hs; exact .other rfl rfl
  | withNamespace ns =>
      obtain ⟨rfl, rfl⟩ := ok_pair_inj hs; exact .other rfl rfl
  | withConsumerGroup cg =>
      obtain ⟨rfl, rfl⟩ := ok_pair_inj hs; exact .other rfl rfl
  | withErrorHandler eh =>
      obtain ⟨rfl, rfl⟩ := ok_pair_inj hs; exact .other rfl rfl
  | publish topic msg newUUID newPublisher fault =>
      obtain ⟨hh, hl⟩ := publish_frame (Except.ok.inj hs)
      exact .other hh hl
  | subscribe topic h faults =>
      obtain ⟨⟨err, g₁⟩, hsub, hret⟩ := bind_ok_iff.mp hs
      obtain ⟨rfl, rfl⟩ := ok_pair_inj hret
      exact subscribeWith_effect hsub
  | subscribeNew topic consumerGroup h faults =>
      obtain ⟨⟨err, g₁⟩, hsub, hret⟩ := bind_ok_iff.mp hs
      obtain ⟨rfl, rfl⟩ := ok_pair_inj hret
      exact subscribeNewWith_effect hsub
  | close =>
      obtain ⟨g₁, hclose, hret⟩ := bind_ok_iff.mp hs
      obtain ⟨m, _, hg⟩ := bind_ok_iff.mp hclose
      split at hg
      · obtain rfl := Except.ok.inj hg
        obtain ⟨rfl, rfl⟩ := ok_pair_inj hret
        exact .other rfl rfl
      · exact absurd hg nofun
  | deliver l msg env =>
      obtain ⟨g₁, hdel, hret⟩ := bind_ok_iff.mp hs
      obtain ⟨rfl, rfl⟩ := ok_pair_inj hret
      exact deliverWith_effect (fun loop p p' _ hb => loopBody_appends hb) hdel

theorem run_effect {cv : Conv V} {g₀ g : Chan H E} {ls : List (Op H E × Ret E)}
    (h : Run (Step cv) g₀ ls g) : Run (Effect (getDataFromMsg cv)) g₀ (ls.map label) g :=
  h.map label (fun _ _ _ hs => step_effect hs)

/-- The effect of a delivery; it returns nothing. -/
theorem deliver_effect {cv : Conv V} {g g' : Chan H E} {i : ℕ} {msg : Message} {env : RetryEnv H E}
    {ret : Ret E} (hs : Step cv g (.deliver i msg env, ret) g') :
    Effect (getDataFromMsg cv) g (.deliver i msg, none) g' := by
  have he : Effect (getDataFromMsg cv) g (.deliver i msg, ret.err) g' := step_effect hs
  obtain ⟨g₁, _, hret⟩ := bind_ok_iff.mp hs
  have hofErr : ret = .ofErr none := (ok_pair_inj hret).1.symm
  rw [hofErr] at he
  exact he

end Mysqlchannel

end Watermill
end ServiceKit
