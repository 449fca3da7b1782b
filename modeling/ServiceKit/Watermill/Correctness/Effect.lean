import ServiceKit.Watermill.Basic

/-!
# `Correctness.Effect` — what a loop body and a step of a Channel can do

Said once for all three Channels. A loop body appends to its trace (`Works`): every event of it is about
the message at hand, and none of them takes or acknowledges a message. `Serves` adds that each of a list
of handlers was called, and the final `Ack`.

A step of a Channel is, for its registry and its loops, one of five things (`Effect`); everything proved
about a run of a Channel follows from that and from what the bodies do.
-/

namespace ServiceKit
namespace Watermill

open Lib

variable {B S H E X : Type}

/-! ## Events about one message -/

/-- The event belongs to the handling of `msg`, and is neither its taking nor its `Ack`. -/
def Event.About (msg : Message) : Event H E X → Prop
  | .take _ | .ack _ => False
  | .handle _ messageId messageData _ => messageId = msg.uuid ∧ messageData = msg.payload
  | .errorHandler _ m _ => m = msg
  | .backend _ => True

/-- From `p` to `p'` only events about `msg` were added. -/
def Works (msg : Message) (p p' : Progress B H E X) : Prop :=
  ∃ es, p'.trace = p.trace ++ es ∧ ∀ e ∈ es, e.About msg

namespace Works

variable {msg : Message} {p p' p'' : Progress B H E X}

theorem refl (p : Progress B H E X) : Works msg p p := ⟨[], by simp, by simp⟩

theorem trans (h : Works msg p p') (h' : Works msg p' p'') : Works msg p p'' := by
  obtain ⟨es, htr, hes⟩ := h
  obtain ⟨es', htr', hes'⟩ := h'
  refine ⟨es ++ es', by rw [htr', htr, List.append_assoc], ?_⟩
  intro e he
  exact (List.mem_append.mp he).elim (hes e) (hes' e)

theorem log {e : Event H E X} (he : e.About msg) : Works msg p (p.log e) :=
  ⟨[e], rfl, by simpa using he⟩

theorem backend (x : X) : Works msg p (p.log (.backend x)) := log trivial

end Works

/-- From `p` to `p'`, `msg` was worked on and each handler of `hs` was called with it. -/
def Calls (msg : Message) (hs : List H) (p p' : Progress B H E X) : Prop :=
  ∃ es, p'.trace = p.trace ++ es ∧ (∀ e ∈ es, e.About msg) ∧
    ∀ h ∈ hs, ∃ err, .handle h msg.uuid msg.payload err ∈ es

/-- As `Calls`, and then `msg` was acknowledged. -/
def Serves (msg : Message) (hs : List H) (p p' : Progress B H E X) : Prop :=
  ∃ es, p'.trace = p.trace ++ (es ++ [.ack msg.ptr]) ∧ (∀ e ∈ es, e.About msg) ∧
    ∀ h ∈ hs, ∃ err, .handle h msg.uuid msg.payload err ∈ es

theorem Calls.ack {msg : Message} {hs : List H} {p p' : Progress B H E X} (h : Calls msg hs p p') :
    Serves msg hs p (p'.log (.ack msg.ptr)) := by
  obtain ⟨es, htr, hes, hcall⟩ := h
  exact ⟨es, by rw [Progress.log_trace, htr, List.append_assoc], hes, hcall⟩

theorem Works.calls_nil {msg : Message} {p p' : Progress B H E X} (h : Works msg p p') :
    Calls msg [] p p' := by
  obtain ⟨es, htr, hes⟩ := h
  exact ⟨es, htr, hes, by simp⟩

/-- Call one handler, work on, then call the rest. -/
theorem Calls.cons {msg : Message} {h : H} {hs : List H} {err : Option E} {p p' p'' : Progress B H E X}
    (hw : Works msg (p.log (.handle h msg.uuid msg.payload err)) p') (hc : Calls msg hs p' p'') :
    Calls msg (h :: hs) p p'' := by
  obtain ⟨es, htr, hes⟩ := hw
  obtain ⟨es', htr', hes', hcall⟩ := hc
  refine ⟨.handle h msg.uuid msg.payload err :: (es ++ es'), ?_, ?_, ?_⟩
  · rw [htr', htr, Progress.log_trace]
    simp
  · intro e he
    rcases List.mem_cons.mp he with rfl | he
    · exact ⟨rfl, rfl⟩
    · exact (List.mem_append.mp he).elim (hes e) (hes' e)
  · intro h' hh'
    rcases List.mem_cons.mp hh' with rfl | hh'
    · exact ⟨err, List.mem_cons_self⟩
    · obtain ⟨err', he⟩ := hcall h' hh'
      exact ⟨err', List.mem_cons_of_mem _ (List.mem_append_right _ he)⟩

/-! ## Specifications of the shared bodies -/

section Bodies

variable (env : Env H E X) (msg : Message)

theorem invoke_works (h : H) (p : Progress B H E X) : Works msg p (invoke env h msg p).2 :=
  .log ⟨rfl, rfl⟩

theorem retryLoop_works (h : H) (i : ℕ) (retError : Option (MultiErr E)) (p : Progress B H E X) :
    Works msg p (retryLoop env h msg i retError p).2 := by
  -- over the attempts left
  induction i generalizing retError p with
  | zero => exact .refl p
  | succ i ih =>
      have hinv := invoke_works env msg h p
      rw [retryLoop]
      cases hres : invoke env h msg p with
      | mk err p' =>
          rw [hres] at hinv
          cases err with
          | none => exact hinv
          | some err => exact hinv.trans (ih _ _)

variable {giveUp : MultiErr E → Progress B H E X → Option (MultiErr E) × Progress B H E X}

theorem retryMessageWith_works (hgive : ∀ err p, Works msg p (giveUp err p).2) (retryTimes : ℤ)
    (errorHandler : Option ℕ) (h : H) (oldError : MultiErr E) (p : Progress B H E X) :
    Works msg p (retryMessageWith giveUp retryTimes errorHandler env msg h oldError p).2 := by
  unfold retryMessageWith
  split
  · exact .refl p
  · have hloop := retryLoop_works env msg h retryTimes.toNat none p
    cases hres : retryLoop env h msg retryTimes.toNat none p with
    | mk r p' =>
        rw [hres] at hloop
        rcases r with _ | _ | retError
        · exact hloop
        · exact hloop
        · cases errorHandler with
          | none => exact hloop.trans (hgive _ _)
          | some eh =>
              have hlog : Works msg p (p'.log (.errorHandler eh msg (env.errorHandler p'.trace eh msg))) :=
                hloop.trans (.log rfl)
              dsimp only
              split
              · exact hlog
              · exact hlog.trans (hgive _ _)

variable {retryMessage : H → MultiErr E → Progress B H E X → Option (MultiErr E) × Progress B H E X}

/-- The dispatch loop calls every handler of the list. -/
theorem handleAll_calls (hretry : ∀ h err p, Works msg p (retryMessage h err p).2) (hs : List H)
    (retError : Option (MultiErr E)) (p : Progress B H E X) :
    Calls msg hs p (handleAll retryMessage env msg hs retError p).2 := by
  -- over the handlers; what one of them logs is in front of what the rest log
  induction hs generalizing retError p with
  | nil => exact (Works.refl p).calls_nil
  | cons h hs ih =>
      rw [handleAll, invoke]
      cases env.handler p.trace h msg.uuid msg.payload with
      | none => exact .cons (.refl _) (ih _ _)
      | some err =>
          have hr := hretry h [err] (p.log (.handle h msg.uuid msg.payload (some err)))
          dsimp only
          cases hres : retryMessage h [err] (p.log (.handle h msg.uuid msg.payload (some err))) with
          | mk r p' =>
              rw [hres] at hr
              cases r with
              | none => exact .cons hr (ih _ _)
              | some err' => exact .cons hr (ih _ _)

theorem handleNew_serves (hretry : ∀ h err p, Works msg p (retryMessage h err p).2) (h : H)
    (p : Progress B H E X) : Serves msg [h] p (handleNew retryMessage env msg h p) := by
  rw [handleNew, invoke]
  cases env.handler p.trace h msg.uuid msg.payload with
  | none => exact (Calls.cons (.refl _) (Works.refl _).calls_nil).ack
  | some err =>
      have hr := hretry h [err] (p.log (.handle h msg.uuid msg.payload (some err)))
      dsimp only
      cases hres : retryMessage h [err] (p.log (.handle h msg.uuid msg.payload (some err))) with
      | mk r p' =>
          rw [hres] at hr
          cases r with
          | none => exact (Calls.cons hr (Works.refl _).calls_nil).ack
          | some err' => exact (Calls.cons hr (Works.refl _).calls_nil).ack

end Bodies

/-! ## Effects -/

/-- What a step asks of the registry and the loops. -/
inductive Act (H : Type) where
  | subscribe (topic : GoString) (handler : H)
  | subscribeNew (topic : GoString) (handler : H)
  | deliver (l : ℕ) (msg : Message)
  | other

/-- The handlers that a loop hands its next message to. -/
def Channel.served (g : Channel B S H E X) (loop : Loop S H E X) : Option (List H) :=
  match loop.handler with
  | some h => some [h]
  | none => g.handlers.bind (fun handlers => handlers.get loop.topic)

/-- What a loop body appends after taking `msg`. `decode` is what the body makes of a message before the
    handlers see it; where it fails, or where the loop has no handlers, nothing is appended. -/
def Appends (decode : Message → Option Message) (g : Channel B S H E X) (loop : Loop S H E X)
    (msg : Message) (seg : Trace H E X) : Prop :=
  match g.served loop, decode msg with
  | some hs, some msg' =>
      ∃ es, seg = es ++ [.ack msg'.ptr] ∧ (∀ e ∈ es, e.About msg') ∧
        ∀ h ∈ hs, ∃ err, .handle h msg'.uuid msg'.payload err ∈ es
  | _, _ => seg = []

/-- **What a step can do to the registry and the loops**, with the error that the call returns. -/
inductive Effect (decode : Message → Option Message) :
    Channel B S H E X → Act H × Option (GoErr E) → Channel B S H E X → Prop where
  | other {g g' err} (hh : g'.handlers = g.handlers) (hl : g'.loops = g.loops) :
      Effect decode g (.other, err) g'
  | failed {g g' a err} (hh : g'.handlers = g.handlers) (hl : g'.loops = g.loops) :
      Effect decode g (a, some err) g'
  | append {g g' topic h handlers old} (hm : g.handlers = some handlers)
      (hget : handlers.get topic = some old)
      (hh : g'.handlers = some (handlers.set topic (old ++ [h]))) (hl : g'.loops = g.loops) :
      Effect decode g (.subscribe topic h, none) g'
  | start {g g' topic h handlers source} (hm : g.handlers = some handlers)
      (hget : handlers.get topic = none) (hh : g'.handlers = some (handlers.set topic [h]))
      (hl : g'.loops = g.loops ++ [⟨source, topic, none, []⟩]) :
      Effect decode g (.subscribe topic h, none) g'
  | startNew {g g' topic h source} (hh : g'.handlers = g.handlers)
      (hl : g'.loops = g.loops ++ [⟨source, topic, some h, []⟩]) :
      Effect decode g (.subscribeNew topic h, none) g'
  | noLoop {g g' l msg} (hnone : g.loops[l]? = none) (hh : g'.handlers = g.handlers)
      (hl : g'.loops = g.loops) : Effect decode g (.deliver l msg, none) g'
  | deliver {g g' l msg loop seg} (hloop : g.loops[l]? = some loop) (hseg : Appends decode g loop msg seg)
      (hh : g'.handlers = g.handlers)
      (hl : g'.loops = g.loops.set l { loop with trace := loop.trace ++ .take msg :: seg }) :
      Effect decode g (.deliver l msg, none) g'

/-- **Where the loops of a step come from**: it leaves a loop alone, starts it with an empty trace, or
    hands it one message. -/
theorem Effect.mem_loops {decode : Message → Option Message} {g g' : Channel B S H E X}
    {l : Act H × Option (GoErr E)} (he : Effect decode g l g') {loop' : Loop S H E X}
    (hloop' : loop' ∈ g'.loops) :
    loop' ∈ g.loops ∨ loop'.trace = [] ∨
      ∃ loop ∈ g.loops, ∃ msg seg, Appends decode g loop msg seg ∧
        loop' = { loop with trace := loop.trace ++ .take msg :: seg } := by
  cases he with
  | other _ hl => exact Or.inl (hl ▸ hloop')
  | failed _ hl => exact Or.inl (hl ▸ hloop')
  | append _ _ _ hl => exact Or.inl (hl ▸ hloop')
  | start _ _ _ hl =>
      rw [hl] at hloop'
      rcases List.mem_append.mp hloop' with hold | hnew
      · exact Or.inl hold
      · rw [List.mem_singleton.mp hnew]
        exact Or.inr (Or.inl rfl)
  | startNew _ hl =>
      rw [hl] at hloop'
      rcases List.mem_append.mp hloop' with hold | hnew
      · exact Or.inl hold
      · rw [List.mem_singleton.mp hnew]
        exact Or.inr (Or.inl rfl)
  | noLoop _ _ hl => exact Or.inl (hl ▸ hloop')
  | deliver hloop hseg _ hl =>
      rw [hl] at hloop'
      rcases List.mem_or_eq_of_mem_set hloop' with hold | hnew
      · exact Or.inl hold
      · exact Or.inr (Or.inr ⟨_, List.mem_of_getElem? hloop, _, _, hseg, hnew⟩)

/-- Setting the trace of a loop changes nothing that does not read traces. -/
theorem map_set_trace {β : Type} {f : Loop S H E X → β} {loops : List (Loop S H E X)} {l : ℕ}
    {loop : Loop S H E X} {trace : Trace H E X} (hf : f { loop with trace := trace } = f loop)
    (hloop : loops[l]? = some loop) :
    (loops.set l { loop with trace := trace }).map f = loops.map f := by
  obtain ⟨hlt, hget⟩ := List.getElem?_eq_some_iff.mp hloop
  have hlt' : l < (loops.map f).length := by rw [List.length_map]; exact hlt
  have hself : f loop = (loops.map f)[l] := by rw [List.getElem_map, hget]
  rw [List.map_set, hf, hself]
  exact List.set_getElem_self hlt'

section Shared

variable {decode : Message → Option Message} {g g' : Channel B S H E X} {err : Option (GoErr E)}
  {openSource : B → Except Stop (Except (GoErr E) S × B)} {topic : GoString} {h : H}

/-- **What a `Subscribe` that returns has done**, with the error it returns. -/
inductive Subscribed (openSource : B → Except Stop (Except (GoErr E) S × B)) (topic : GoString) (h : H)
    (g : Channel B S H E X) : Option (GoErr E) → Channel B S H E X → Prop where
  | registered {m old} (hm : g.handlers = some m) (hget : m.get topic = some old) :
      Subscribed openSource topic h g none { g with handlers := some (m.set topic (old ++ [h])) }
  | failed {m err backend} (hm : g.handlers = some m) (hget : m.get topic = none)
      (hopen : openSource g.backend = .ok (.error err, backend)) :
      Subscribed openSource topic h g (some err) { g with backend := backend }
  | opened {m source backend} (hm : g.handlers = some m) (hget : m.get topic = none)
      (hopen : openSource g.backend = .ok (.ok source, backend)) :
      Subscribed openSource topic h g none { g with
        backend := backend
        handlers := some (m.set topic [h])
        loops := g.loops ++ [⟨source, topic, none, []⟩] }

theorem subscribeWith_cases (hs : g.subscribeWith openSource topic h = .ok (err, g')) :
    Subscribed openSource topic h g err g' := by
  unfold Channel.subscribeWith at hs
  obtain ⟨m, hm, hs⟩ := bind_ok_iff.mp hs
  have hm : g.handlers = some m := useMap_eq_ok.mp hm
  cases hget : m.get topic with
  | some old =>
      rw [hget] at hs
      obtain ⟨rfl, rfl⟩ := ok_pair_inj hs
      exact .registered hm hget
  | none =>
      rw [hget] at hs
      obtain ⟨⟨source, backend⟩, hopen, hs⟩ := bind_ok_iff.mp hs
      cases source with
      | error e =>
          obtain ⟨rfl, rfl⟩ := ok_pair_inj hs
          exact .failed hm hget hopen
      | ok source =>
          obtain ⟨rfl, rfl⟩ := ok_pair_inj hs
          exact .opened hm hget hopen

theorem subscribeWith_effect (hs : g.subscribeWith openSource topic h = .ok (err, g')) :
    Effect decode g (.subscribe topic h, err) g' := by
  cases subscribeWith_cases hs with
  | registered hm hget => exact .append hm hget rfl rfl
  | failed _ _ _ => exact .failed rfl rfl
  | opened hm hget _ => exact .start hm hget rfl rfl

theorem subscribeNewWith_effect (hs : g.subscribeNewWith openSource topic h = .ok (err, g')) :
    Effect decode g (.subscribeNew topic h, err) g' := by
  unfold Channel.subscribeNewWith at hs
  obtain ⟨⟨messages, backend⟩, _, hs⟩ := bind_ok_iff.mp hs
  cases messages with
  | error e =>
      obtain ⟨rfl, rfl⟩ := ok_pair_inj hs
      exact .failed rfl rfl
  | ok source =>
      obtain ⟨rfl, rfl⟩ := ok_pair_inj hs
      exact .startNew rfl rfl

theorem deliverWith_effect {l : ℕ} {msg : Message}
    {body : Channel B S H E X → Loop S H E X → Progress B H E X → Except Stop (Progress B H E X)}
    (hbody : ∀ loop p p', loop ∈ g.loops → body g loop p = .ok p' →
      ∃ seg, p'.trace = p.trace ++ seg ∧ Appends decode g loop msg seg)
    (hs : g.deliverWith body l msg = .ok g') : Effect decode g (.deliver l msg, none) g' := by
  unfold Channel.deliverWith at hs
  cases hloop : g.loops[l]? with
  | none =>
      rw [hloop] at hs
      obtain rfl := Except.ok.inj hs
      exact .noLoop hloop rfl rfl
  | some loop =>
      rw [hloop] at hs
      obtain ⟨p, hp, hs⟩ := bind_ok_iff.mp hs
      obtain rfl := Except.ok.inj hs
      obtain ⟨seg, htr, hseg⟩ := hbody loop _ p (List.mem_of_getElem? hloop) hp
      refine .deliver hloop hseg rfl ?_
      show g.loops.set l { loop with trace := p.trace } = _
      rw [htr]
      simp

/-- A delivery whose body leaves the backend alone changes only traces. -/
theorem deliverWith_frame {l : ℕ} {msg : Message}
    {body : Channel B S H E X → Loop S H E X → Progress B H E X → Except Stop (Progress B H E X)}
    (hbody : ∀ loop p p', p.backend = g.backend → body g loop p = .ok p' → p'.backend = g.backend)
    (hs : g.deliverWith body l msg = .ok g') {β : Type} {f : Loop S H E X → β}
    (hf : ∀ loop trace, f { loop with trace := trace } = f loop) :
    g'.backend = g.backend ∧ g'.loops.map f = g.loops.map f := by
  unfold Channel.deliverWith at hs
  cases hloop : g.loops[l]? with
  | none =>
      rw [hloop] at hs
      obtain rfl := Except.ok.inj hs
      exact ⟨rfl, rfl⟩
  | some loop =>
      rw [hloop] at hs
      obtain ⟨p, hp, hs⟩ := bind_ok_iff.mp hs
      obtain rfl := Except.ok.inj hs
      exact ⟨hbody loop _ p rfl hp, map_set_trace (hf loop p.trace) hloop⟩

end Shared

end Watermill
end ServiceKit
