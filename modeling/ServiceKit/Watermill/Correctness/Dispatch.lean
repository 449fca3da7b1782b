import ServiceKit.Lib.Retry
import ServiceKit.Watermill.Correctness.DurableRetry
import ServiceKit.Watermill.Correctness.Subscribe

/-!
# `Correctness.Dispatch` — which handlers are called, in which order and how often

A dispatch gives each registered handler its turn: the first call, its retries, and what becomes of the
error when all of them failed. `turn` is that part of the loop over the handlers; `calls` and `outcomes` are
the calls of one handler after a trace and what they return. In every Channel a turn is the number of calls
that `Lib.tries` counts, followed by events that call no handler.
-/

namespace ServiceKit
namespace Watermill

open Lib
open Mysqlchannel (Conv getDataFromMsg)

variable {B S H E X : Type}

/-! ## Invocations -/

/-- One call of a handler: what it was given and what it returned. -/
structure Invocation (H E : Type) where
  handler : H
  messageId : GoString
  messageData : GoString
  err : Option E
  deriving DecidableEq

/-- The calls of handlers in a trace, in order. -/
def invocations (tr : Trace H E X) : List (Invocation H E) :=
  tr.filterMap (fun e => match e with
    | .handle h messageId messageData err => some ⟨h, messageId, messageData, err⟩
    | _ => none)

@[simp] theorem invocations_nil : invocations ([] : Trace H E X) = [] := rfl

@[simp] theorem invocations_append (tr tr' : Trace H E X) :
    invocations (tr ++ tr') = invocations tr ++ invocations tr' := List.filterMap_append

def Progress.logAll (p : Progress B H E X) (es : Trace H E X) : Progress B H E X :=
  { p with trace := p.trace ++ es }

@[simp] theorem Progress.logAll_trace (p : Progress B H E X) (es : Trace H E X) :
    (p.logAll es).trace = p.trace ++ es := rfl

@[simp] theorem Progress.logAll_nil (p : Progress B H E X) : p.logAll [] = p := by
  unfold Progress.logAll
  rw [List.append_nil]

theorem Progress.logAll_cons (p : Progress B H E X) (e : Event H E X) (es : Trace H E X) :
    p.logAll (e :: es) = (p.log e).logAll es := by
  unfold Progress.logAll Progress.log
  simp

section Handler

variable (env : Env H E X) (h : H) (messageId messageData : GoString)

/-- The next call of a handler. -/
def call (tr : Trace H E X) : Event H E X :=
  .handle h messageId messageData (env.handler tr h messageId messageData)

/-- The next `n` calls of a handler, when it is called again and again. -/
def calls (tr : Trace H E X) : ℕ → Trace H E X
  | 0 => []
  | n + 1 =>
      let e := call env h messageId messageData tr
      e :: calls (tr ++ [e]) n

/-- What the calls of `calls` return. -/
def outcomes (tr : Trace H E X) : ℕ → Option E
  | 0 => env.handler tr h messageId messageData
  | n + 1 => outcomes (tr ++ [call env h messageId messageData tr]) n

theorem later_outcomes (tr : Trace H E X) :
    later (outcomes env h messageId messageData tr) =
      outcomes env h messageId messageData (tr ++ [call env h messageId messageData tr]) := rfl

end Handler

/-! ## A handler's turn -/

/-- The three `retryMessage`s: `giveUp` is what each of them does last, with the handler at hand. -/
def retrying (giveUp : H → MultiErr E → Progress B H E X → Option (MultiErr E) × Progress B H E X)
    (retryTimes : ℤ) (errorHandler : Option ℕ) (env : Env H E X) (msg : Message) (h : H) :
    MultiErr E → Progress B H E X → Option (MultiErr E) × Progress B H E X :=
  retryMessageWith (giveUp h) retryTimes errorHandler env msg h

section Turn

variable (env : Env H E X) (msg : Message)
  (retryMessage : H → MultiErr E → Progress B H E X → Option (MultiErr E) × Progress B H E X)
  (giveUp : MultiErr E → Progress B H E X → Option (MultiErr E) × Progress B H E X)

/-- What the loop over the handlers does with one of them. -/
def turn (h : H) (p : Progress B H E X) : Option (MultiErr E) × Progress B H E X :=
  match invoke env h msg p with
  | (none, p) => (none, p)
  | (some err, p) => retryMessage h [err] p

theorem handleAll_cons (h : H) (hs : List H) (retError : Option (MultiErr E)) (p : Progress B H E X) :
    handleAll retryMessage env msg (h :: hs) retError p =
      match turn env msg retryMessage h p with
      | (none, p) => handleAll retryMessage env msg hs retError p
      | (some err, p) => handleAll retryMessage env msg hs (appendErr retError err) p := by
  rw [handleAll, turn]
  cases hinv : invoke env h msg p with
  | mk err p' => cases err <;> rfl

/-- What `retryMessage` does once every attempt failed. -/
def escalate (errorHandler : Option ℕ) (retError : MultiErr E) (p : Progress B H E X) :
    Option (MultiErr E) × Progress B H E X :=
  match errorHandler with
  | none => giveUp retError p
  | some eh =>
      let err := env.errorHandler p.trace eh msg
      let p := p.log (.errorHandler eh msg err)
      match err with
      | none => (none, p)
      | some _ => giveUp retError p

/-- The calls of the retry loop. -/
theorem retryLoop_progress (h : H) (i : ℕ) (retError : Option (MultiErr E)) (p : Progress B H E X) :
    (retryLoop env h msg i retError p).2 =
      p.logAll (calls env h msg.uuid msg.payload p.trace
        (tries i (outcomes env h msg.uuid msg.payload p.trace))) := by
  -- on the attempts left
  induction i generalizing retError p with
  | zero => exact p.logAll_nil.symm
  | succ i ih =>
      rw [retryLoop, invoke]
      cases hout : env.handler p.trace h msg.uuid msg.payload with
      | none =>
          rw [tries_of_none (o := outcomes env h msg.uuid msg.payload p.trace) hout]
          simp only [calls, call, hout, Progress.logAll_cons, Progress.logAll_nil]
      | some err =>
          rw [tries_of_some (o := outcomes env h msg.uuid msg.payload p.trace) hout, add_comm 1]
          simp only [calls, call, hout, Progress.logAll_cons, later_outcomes]
          exact ih _ _

/-- The retry loop ends without a success exactly when every attempt failed. -/
theorem retryLoop_result (h : H) (i : ℕ) (retError : Option (MultiErr E)) (p : Progress B H E X) :
    (Fails (outcomes env h msg.uuid msg.payload p.trace) i →
      ∃ errs, (retryLoop env h msg i retError p).1 = some errs ∧
        (retError ≠ none ∨ 0 < i → errs ≠ none)) ∧
    (¬ Fails (outcomes env h msg.uuid msg.payload p.trace) i →
      (retryLoop env h msg i retError p).1 = none) := by
  induction i generalizing retError p with
  | zero =>
      constructor
      · intro _
        exact ⟨retError, rfl, fun hne => hne.resolve_right (Nat.lt_irrefl 0)⟩
      · intro hn
        exact absurd (fails_zero _) hn
  | succ i ih =>
      rw [fails_succ_iff, later_outcomes, retryLoop, invoke]
      cases hout : env.handler p.trace h msg.uuid msg.payload with
      | none =>
          constructor
          · intro hf
            exact absurd hout hf.1
          · intro _
            rfl
      | some err =>
          obtain ⟨hfail, hok⟩ := ih (appendErr retError [err])
            (p.log (.handle h msg.uuid msg.payload (some err)))
          have hcall : call env h msg.uuid msg.payload p.trace =
              .handle h msg.uuid msg.payload (some err) := by rw [call, hout]
          rw [hcall]
          constructor
          · intro hf
            obtain ⟨errs, heq, hne⟩ := hfail hf.2
            exact ⟨errs, heq, fun _ => hne (Or.inl (Option.some_ne_none _))⟩
          · intro hn
            apply hok
            intro hf
            apply hn
            refine ⟨?_, hf⟩
            show env.handler p.trace h msg.uuid msg.payload ≠ none
            rw [hout]
            exact Option.some_ne_none err

variable (retryTimes : ℤ) (errorHandler : Option ℕ) (h : H) (p : Progress B H E X)

/-- Where a turn stands after its last call of the handler. -/
def called : Progress B H E X :=
  p.logAll (calls env h msg.uuid msg.payload p.trace
    (tries (retryTimes.toNat + 1) (outcomes env h msg.uuid msg.payload p.trace)))

variable (giveUp : H → MultiErr E → Progress B H E X → Option (MultiErr E) × Progress B H E X)

/-- **What a turn does**, with its result: it ends at the first success, or with the error of the only
    attempt where there are no retries, or it escalates the errors of the retries. -/
inductive Turned : Option (MultiErr E) × Progress B H E X → Prop where
  | success (hs : ¬ Fails (outcomes env h msg.uuid msg.payload p.trace) (retryTimes.toNat + 1)) :
      Turned (none, called env msg retryTimes h p)
  | unretried {err : MultiErr E} (hr : retryTimes ≤ 0)
      (hf : Fails (outcomes env h msg.uuid msg.payload p.trace) (retryTimes.toNat + 1)) :
      Turned (some err, called env msg retryTimes h p)
  | escalated {retError : MultiErr E} (hr : 0 < retryTimes)
      (hf : Fails (outcomes env h msg.uuid msg.payload p.trace) (retryTimes.toNat + 1)) :
      Turned (escalate env msg (giveUp h) errorHandler retError (called env msg retryTimes h p))

/-! ### The first call -/

omit retryTimes errorHandler giveUp in
/-- Where the retries start, after a failure of the first call. -/
theorem call_of_some {err : E} (hout : env.handler p.trace h msg.uuid msg.payload = some err) :
    call env h msg.uuid msg.payload p.trace = .handle h msg.uuid msg.payload (some err) := by
  rw [call, hout]

theorem called_of_none (hout : env.handler p.trace h msg.uuid msg.payload = none) :
    called env msg retryTimes h p = p.log (.handle h msg.uuid msg.payload none) := by
  rw [called, tries_of_none (o := outcomes env h msg.uuid msg.payload p.trace) hout]
  simp only [calls, call, hout, Progress.logAll_cons, Progress.logAll_nil]

theorem called_of_some {err : E} (hout : env.handler p.trace h msg.uuid msg.payload = some err) :
    called env msg retryTimes h p =
      (retryLoop env h msg retryTimes.toNat none (p.log (.handle h msg.uuid msg.payload (some err)))).2 := by
  have hcall := call_of_some env msg h p hout
  rw [retryLoop_progress, called, tries_of_some (o := outcomes env h msg.uuid msg.payload p.trace) hout, add_comm 1,
    later_outcomes, hcall]
  simp only [calls, hcall, Progress.logAll_cons, Progress.log_trace]

omit retryTimes errorHandler giveUp in
theorem fails_of_some {err : E} (hout : env.handler p.trace h msg.uuid msg.payload = some err) (i : ℕ) :
    Fails (outcomes env h msg.uuid msg.payload p.trace) (i + 1) ↔
      Fails (outcomes env h msg.uuid msg.payload (p.log (.handle h msg.uuid msg.payload (some err))).trace) i := by
  have hfail : env.handler p.trace h msg.uuid msg.payload ≠ none := by rw [hout]; nofun
  rw [fails_succ_iff, later_outcomes, call_of_some env msg h p hout]
  exact and_iff_right hfail

/-- The retries of a turn whose first call failed. -/
theorem retrying_turned {err : E} (hout : env.handler p.trace h msg.uuid msg.payload = some err) :
    Turned env msg retryTimes errorHandler h p giveUp
      (retrying giveUp retryTimes errorHandler env msg h [err] (p.log (.handle h msg.uuid msg.payload (some err)))) := by
  have hcalled := called_of_some env msg retryTimes h p hout
  have hfails := fails_of_some env msg h p hout retryTimes.toNat
  obtain ⟨hallfail, hone⟩ := retryLoop_result env msg h retryTimes.toNat none
    (p.log (.handle h msg.uuid msg.payload (some err)))
  unfold retrying retryMessageWith
  by_cases hr : retryTimes ≤ 0
  · rw [if_pos hr]
    rw [Int.toNat_eq_zero.mpr hr] at hcalled hfails
    have hlog : called env msg retryTimes h p = p.log (.handle h msg.uuid msg.payload (some err)) := hcalled
    rw [← hlog]
    apply Turned.unretried hr
    rw [Int.toNat_eq_zero.mpr hr]
    exact hfails.mpr (fails_zero _)
  · rw [if_neg hr]
    have hpos : 0 < retryTimes := Int.not_le.mp hr
    by_cases hf : Fails (outcomes env h msg.uuid msg.payload p.trace) (retryTimes.toNat + 1)
    · obtain ⟨errs, hres, hne⟩ := hallfail (hfails.mp hf)
      have hsome : errs ≠ none := hne (Or.inr (by omega))
      obtain ⟨retError, rfl⟩ := Option.ne_none_iff_exists'.mp hsome
      cases hl : retryLoop env h msg retryTimes.toNat none
          (p.log (.handle h msg.uuid msg.payload (some err))) with
      | mk r p' =>
          rw [hl] at hres hcalled
          obtain rfl : r = some (some retError) := hres
          obtain rfl : called env msg retryTimes h p = p' := hcalled
          exact .escalated hpos hf
    · have hres := hone (fun hall => hf (hfails.mpr hall))
      cases hl : retryLoop env h msg retryTimes.toNat none
          (p.log (.handle h msg.uuid msg.payload (some err))) with
      | mk r p' =>
          rw [hl] at hres hcalled
          obtain rfl : r = none := hres
          obtain rfl : called env msg retryTimes h p = p' := hcalled
          exact .success hf

theorem turn_turned : Turned env msg retryTimes errorHandler h p giveUp
    (turn env msg (retrying giveUp retryTimes errorHandler env msg) h p) := by
  rw [turn, invoke]
  cases hout : env.handler p.trace h msg.uuid msg.payload with
  | none =>
      dsimp only
      rw [← called_of_none env msg retryTimes h p hout]
      exact .success (fun hf => hf 0 (Nat.succ_pos _) hout)
  | some err => exact retrying_turned env msg retryTimes errorHandler h p giveUp hout

end Turn

/-! ## A dispatch -/

/-- The trace of a dispatch to `hs` after `tr`, handler by handler: the calls, as many as one call and
    `retries` retries make up to the first success, then events that call no handler. -/
inductive Dispatched (env : Env H E X) (retries : ℕ) (messageId messageData : GoString) :
    Trace H E X → List H → Trace H E X → Prop where
  | nil {tr quiet} (hq : invocations quiet = []) :
      Dispatched env retries messageId messageData tr [] quiet
  | cons {tr : Trace H E X} {h : H} {hs : List H} {n : ℕ} {quiet rest : Trace H E X}
      (hn : (n : ℕ∞) = 1 + min (retries : ℕ∞) (firstSuccess (outcomes env h messageId messageData tr)))
      (hq : invocations quiet = [])
      (hrest : Dispatched env retries messageId messageData
        (tr ++ (calls env h messageId messageData tr n ++ quiet)) hs rest) :
      Dispatched env retries messageId messageData tr (h :: hs)
        (calls env h messageId messageData tr n ++ quiet ++ rest)

/-- From `p` to `p'`, `hs` were given the message `messageId` with `messageData`. -/
def Dispatches (env : Env H E X) (retries : ℕ) (messageId messageData : GoString) (hs : List H)
    (p p' : Progress B H E X) : Prop :=
  ∃ seg, p'.trace = p.trace ++ seg ∧ Dispatched env retries messageId messageData p.trace hs seg

/-- From `p` to `p'`, no handler was called. -/
def Quiet (p p' : Progress B H E X) : Prop := ∃ seg, p'.trace = p.trace ++ seg ∧ invocations seg = []

theorem Quiet.refl (p : Progress B H E X) : Quiet p p := ⟨[], by simp, rfl⟩

theorem Quiet.trans {p p' p'' : Progress B H E X} (h : Quiet p p') (h' : Quiet p' p'') : Quiet p p'' := by
  obtain ⟨seg, htr, hq⟩ := h
  obtain ⟨seg', htr', hq'⟩ := h'
  refine ⟨seg ++ seg', by rw [htr', htr, List.append_assoc], ?_⟩
  rw [invocations_append, hq, hq', List.append_nil]

theorem Quiet.errorHandler (p : Progress B H E X) (eh : ℕ) (msg : Message) (err : Option E) :
    Quiet p (p.log (.errorHandler eh msg err)) := ⟨[.errorHandler eh msg err], rfl, rfl⟩

theorem Quiet.ack (p : Progress B H E X) (ptr : ℕ) : Quiet p (p.log (.ack ptr)) := ⟨[.ack ptr], rfl, rfl⟩

section Spec

variable {env : Env H E X} {msg : Message}

theorem escalate_quiet
    {giveUp : MultiErr E → Progress B H E X → Option (MultiErr E) × Progress B H E X}
    (hgive : ∀ err p, Quiet p (giveUp err p).2) (errorHandler : Option ℕ) (retError : MultiErr E) (p : Progress B H E X) :
    Quiet p (escalate env msg giveUp errorHandler retError p).2 := by
  unfold escalate
  cases errorHandler with
  | none => exact hgive retError p
  | some eh =>
      dsimp only
      split
      · exact .errorHandler p eh msg _
      · exact (Quiet.errorHandler p eh msg _).trans (hgive retError _)

variable {giveUp : H → MultiErr E → Progress B H E X → Option (MultiErr E) × Progress B H E X}

theorem turn_quiet (hgive : ∀ h err p, Quiet p (giveUp h err p).2) (retryTimes : ℤ)
    (errorHandler : Option ℕ) (h : H) (p : Progress B H E X) :
    Quiet (called env msg retryTimes h p)
      (turn env msg (retrying giveUp retryTimes errorHandler env msg) h p).2 := by
  have hturn := turn_turned env msg retryTimes errorHandler h p giveUp
  generalize turn env msg (retrying giveUp retryTimes errorHandler env msg) h p = r at hturn ⊢
  cases hturn with
  | success _ => exact .refl _
  | unretried _ _ => exact .refl _
  | escalated _ _ => exact escalate_quiet (hgive h) errorHandler _ _

variable (env msg giveUp) in
/-- **The loop over the handlers dispatches** to each of them in turn. -/
theorem handleAll_dispatches (hgive : ∀ h err p, Quiet p (giveUp h err p).2) (retryTimes : ℤ)
    (errorHandler : Option ℕ) (hs : List H) (retError : Option (MultiErr E)) (p p' : Progress B H E X)
    (hlast : Quiet (handleAll (retrying giveUp retryTimes errorHandler env msg) env msg hs retError p).2 p') :
    Dispatches env retryTimes.toNat msg.uuid msg.payload hs p p' := by
  -- on the handlers; what follows the last turn is quiet
  induction hs generalizing retError p with
  | nil =>
      obtain ⟨seg, htr, hq⟩ := hlast
      exact ⟨seg, htr, .nil hq⟩
  | cons h hs ih =>
      rw [handleAll_cons] at hlast
      obtain ⟨quiet, htr, hq⟩ := turn_quiet hgive retryTimes errorHandler h p
      cases hturn : turn env msg (retrying giveUp retryTimes errorHandler env msg) h p with
      | mk r q =>
          rw [hturn] at hlast htr
          have hrest : Dispatches env retryTimes.toNat msg.uuid msg.payload hs q p' := by
            cases r with
            | none => exact ih _ _ hlast
            | some err => exact ih _ _ hlast
          obtain ⟨rest, htr', hrest⟩ := hrest
          have hq' : q.trace = p.trace ++ (calls env h msg.uuid msg.payload p.trace
              (tries (retryTimes.toNat + 1) (outcomes env h msg.uuid msg.payload p.trace)) ++ quiet) := by
            rw [← List.append_assoc]
            exact htr
          rw [hq'] at hrest
          refine ⟨_, ?_, .cons (tries_eq _ _) hq hrest⟩
          rw [htr', hq']
          simp only [List.append_assoc]

end Spec

/-! ## The same calls for the same outcomes -/

/-- After `tr`, the handlers answer as `o` does: by the calls made since then. -/
def Follows (o : List (Invocation H E) → H → GoString → GoString → Option E) (env : Env H E X)
    (tr : Trace H E X) : Prop :=
  ∀ seg h messageId messageData,
    env.handler (tr ++ seg) h messageId messageData = o (invocations seg) h messageId messageData

/-- After `tr` and `tr'`, two environments answer the same to whoever made the same calls. -/
def Agrees {Y : Type} (env : Env H E X) (tr : Trace H E X) (env' : Env H E Y) (tr' : Trace H E Y) : Prop :=
  ∀ seg seg' h messageId messageData, invocations seg = invocations seg' →
    env.handler (tr ++ seg) h messageId messageData = env'.handler (tr' ++ seg') h messageId messageData

section Agreement

variable {Y : Type} {env : Env H E X} {env' : Env H E Y} {tr seg : Trace H E X} {tr' seg' : Trace H E Y}
  {h : H} {messageId messageData : GoString}

theorem Follows.agrees {o : List (Invocation H E) → H → GoString → GoString → Option E}
    (hf : Follows o env tr) (hf' : Follows o env' tr') : Agrees env tr env' tr' := by
  intro seg seg' h id data heq
  rw [hf, hf', heq]

theorem Agrees.append (ha : Agrees env tr env' tr') (heq : invocations seg = invocations seg') :
    Agrees env (tr ++ seg) env' (tr' ++ seg') := by
  intro s s' h id data hs
  rw [List.append_assoc, List.append_assoc]
  apply ha
  rw [invocations_append, invocations_append, heq, hs]

theorem Agrees.handler (ha : Agrees env tr env' tr') :
    env.handler tr h messageId messageData = env'.handler tr' h messageId messageData := by
  have hnil := ha [] [] h messageId messageData rfl
  rwa [List.append_nil, List.append_nil] at hnil

theorem Agrees.call (ha : Agrees env tr env' tr') :
    invocations [call env h messageId messageData tr] = invocations [call env' h messageId messageData tr'] := by
  unfold Watermill.call
  rw [ha.handler]
  rfl

theorem Agrees.outcomes (ha : Agrees env tr env' tr') :
    outcomes env h messageId messageData tr = outcomes env' h messageId messageData tr' := by
  funext n
  induction n generalizing tr tr' with
  | zero => exact ha.handler
  | succ n ih => exact ih (ha.append ha.call)

theorem Agrees.calls (ha : Agrees env tr env' tr') (n : ℕ) :
    invocations (calls env h messageId messageData tr n) =
      invocations (calls env' h messageId messageData tr' n) := by
  induction n generalizing tr tr' with
  | zero => rfl
  | succ n ih =>
      show invocations ([Watermill.call env h messageId messageData tr] ++ _) =
        invocations ([Watermill.call env' h messageId messageData tr'] ++ _)
      rw [invocations_append, invocations_append, ha.call, ih (ha.append ha.call)]

/-- **Two dispatches with the same outcomes make the same calls.** -/
theorem Dispatched.invocations_eq {retries : ℕ} {hs : List H}
    (hd : Dispatched env retries messageId messageData tr hs seg)
    (hd' : Dispatched env' retries messageId messageData tr' hs seg') (ha : Agrees env tr env' tr') :
    invocations seg = invocations seg' := by
  induction hd generalizing tr' seg' with
  | nil hq =>
      cases hd' with
      | nil hq' => rw [hq, hq']
  | @cons tr h hs n quiet rest hn hq _ ih =>
      cases hd' with
      | @cons _ _ _ n' quiet' rest' hn' hq' hrest' =>
          rw [← ha.outcomes, ← hn] at hn'
          obtain rfl : n' = n := by exact_mod_cast hn'
          have heq : invocations (Watermill.calls env h messageId messageData tr n' ++ quiet) =
              invocations (Watermill.calls env' h messageId messageData tr' n' ++ quiet') := by
            rw [invocations_append, invocations_append, hq, hq', ha.calls]
          rw [invocations_append _ rest, invocations_append _ rest', heq, ih hrest' (ha.append heq)]

end Agreement

/-! ## The three Channels -/

/-- Channel `g` has `hs` registered for `topic`, allows `retries` retries, and reads `msg` as the message
    `messageId` with `messageData`. -/
structure Setting (decode : Message → Option Message) (g : Channel B S H E X) (topic : GoString)
    (msg : Message) (hs : List H) (retries : ℕ) (messageId messageData : GoString) : Prop where
  registered : ∃ handlers, g.handlers = some handlers ∧ handlers.get topic = some hs
  retryTimes : g.retryTimes = retries
  decoded : ∃ msg', decode msg = some msg' ∧ msg'.uuid = messageId ∧ msg'.payload = messageData

/-- `dispatchMessages` gives every registered handler its calls, whatever the environment answers. -/
def DispatchLaw {V : Type} (toEnv : V → Env H E X) (decode : Message → Option Message)
    (dispatchMessages : Channel B S H E X → V → GoString → Message → Progress B H E X →
      Except Stop (Progress B H E X)) : Prop :=
  ∀ g env topic msg hs retries messageId messageData p,
    Setting decode g topic msg hs retries messageId messageData →
    ∃ p', dispatchMessages g env topic msg p = .ok p' ∧
      Dispatches (toEnv env) retries messageId messageData hs p p'

/-- The registry holds the handlers of a topic in the order of their `Subscribe`s. -/
def InRegistrationOrder {L : Type} (Step : Channel B S H E X → L → Channel B S H E X → Prop)
    (label : L → Act H × Option (GoErr E)) (g₀ : Channel B S H E X) : Prop :=
  ∀ ls g, Run Step g₀ ls g →
    ∃ handlers, g.handlers = some handlers ∧
      ∀ topic, handlers.get topic = handlersOf (accepted (ls.map label)) topic

theorem Setting.toNat_retryTimes {decode : Message → Option Message} {g : Channel B S H E X}
    {topic : GoString} {msg : Message} {hs : List H} {retries : ℕ} {messageId messageData : GoString}
    (h : Setting decode g topic msg hs retries messageId messageData) : g.retryTimes.toNat = retries := by
  rw [h.retryTimes]
  exact Int.toNat_natCast retries

section Unfolded

variable {topic : GoString} {msg : Message} {hs : List H} {handlers : ConcurrentMap GoString (List H)}

/-- A dispatch is the loop over the handlers, then `Ack`. -/
theorem Gochannel.dispatchMessages_eq {g : Gochannel.Chan H E} (hm : g.handlers = some handlers)
    (hget : handlers.get topic = some hs) (env : Env H E Empty) (p : Progress Gochannel.Backend H E Empty) :
    Gochannel.dispatchMessages g env topic msg p =
      .ok ((handleAll (Gochannel.retryMessage g env msg) env msg hs none p).2.log (.ack msg.ptr)) := by
  unfold Gochannel.dispatchMessages
  rw [hm, useMap_some]
  simp only [hget, bind, Except.bind, pure, Except.pure]

theorem Grpcchannel.dispatchMessages_eq {g : Grpcchannel.Chan H E} (hm : g.handlers = some handlers)
    (hget : handlers.get topic = some hs) (env : Env H E Empty)
    (p : Progress Grpcchannel.Backend H E Empty) :
    Grpcchannel.dispatchMessages g env topic msg p =
      .ok ((handleAll (Grpcchannel.retryMessage g env msg) env msg hs none p).2.log (.ack msg.ptr)) := by
  unfold Grpcchannel.dispatchMessages
  rw [hm, useMap_some]
  simp only [hget, bind, Except.bind, pure, Except.pure]
  -- both ways out acknowledge
  cases hres : handleAll (Grpcchannel.retryMessage g env msg) env msg hs none p with
  | mk retError p' => cases retError <;> rfl

theorem Mysqlchannel.dispatchMessages_eq {V : Type} {cv : Conv V} {g : Mysqlchannel.Chan H E}
    {msg' : Message} (hm : g.handlers = some handlers) (hget : handlers.get topic = some hs)
    (hdec : getDataFromMsg cv msg = some msg') (env : Mysqlchannel.RetryEnv H E)
    (p : Progress Mysqlchannel.Backend H E (Mysqlchannel.RetryEvent H E)) :
    Mysqlchannel.dispatchMessages cv g env topic msg p =
      .ok ((handleAll (Mysqlchannel.retryMessage g env msg') env.toEnv msg' hs none p).2.log
        (.ack msg'.ptr)) := by
  unfold Mysqlchannel.dispatchMessages
  rw [hm, useMap_some]
  simp only [hget, hdec, bind, Except.bind, pure, Except.pure]
  cases hres : handleAll (Mysqlchannel.retryMessage g env msg') env.toEnv msg' hs none p with
  | mk retError p' => cases retError <;> rfl

end Unfolded

theorem Gochannel.dispatch_law : DispatchLaw (X := Empty) id some
    (Gochannel.dispatchMessages : Gochannel.Chan H E → _) := by
  intro g env topic msg hs retries messageId messageData p hset
  obtain ⟨handlers, hm, hget⟩ := hset.registered
  obtain ⟨msg', hdec, rfl, rfl⟩ := hset.decoded
  obtain rfl : msg = msg' := Option.some.inj hdec
  have hdisp := handleAll_dispatches env msg (fun _ retError p => (some retError, p)) (fun _ _ p => .refl p) g.retryTimes
    g.errorHandler hs none p _ (.ack _ msg.ptr)
  rw [hset.toNat_retryTimes] at hdisp
  exact ⟨_, dispatchMessages_eq hm hget env p, hdisp⟩

theorem Grpcchannel.dispatch_law : DispatchLaw (X := Empty) id some
    (Grpcchannel.dispatchMessages : Grpcchannel.Chan H E → _) := by
  intro g env topic msg hs retries messageId messageData p hset
  obtain ⟨handlers, hm, hget⟩ := hset.registered
  obtain ⟨msg', hdec, rfl, rfl⟩ := hset.decoded
  obtain rfl : msg = msg' := Option.some.inj hdec
  have hdisp := handleAll_dispatches env msg (fun _ retError p => (some retError, p)) (fun _ _ p => .refl p) g.retryTimes
    g.errorHandler hs none p _ (.ack _ msg.ptr)
  rw [hset.toNat_retryTimes] at hdisp
  exact ⟨_, dispatchMessages_eq hm hget env p, hdisp⟩

namespace Mysqlchannel

variable {V : Type}

/-- Every event is one of the retry service. -/
def Serviced (es : MTrace H E) : Prop := ∀ e ∈ es, ∃ x, e = .backend x

theorem Serviced.append {es es' : MTrace H E} (h : Serviced es) (h' : Serviced es') : Serviced (es ++ es') := by
  intro e he
  exact (List.mem_append.mp he).elim (h e) (h' e)

theorem serviced_singleton (x : RetryEvent H E) : Serviced [.backend x] := by
  intro e he
  exact ⟨x, List.mem_singleton.mp he⟩

theorem Serviced.invocations {es : MTrace H E} (h : Serviced es) : invocations es = [] := by
  apply List.filterMap_eq_nil_iff.mpr
  intro e he
  obtain ⟨x, rfl⟩ := h e he
  rfl

theorem ensureRetryService_appends (env : RetryEnv H E) (p : Progress Backend H E (RetryEvent H E)) :
    ∃ es, (ensureRetryService env p).2.trace = p.trace ++ es ∧ Serviced es ∧ records es = [] ∧
      ((ensureRetryService env p).1 ≠ none → es ≠ []) := by
  unfold ensureRetryService
  cases p.backend.retryService with
  | some conf => exact ⟨[], (List.append_nil _).symm, fun _ he => absurd he nofun, rfl, fun hne => absurd rfl hne⟩
  | none =>
      cases env.newMysqlRetry p.trace with
      | some err =>
          exact ⟨[.backend (.newMysqlRetry (retryConfig p.backend) (some err))], rfl, serviced_singleton _, rfl,
            fun _ => nofun⟩
      | none =>
          refine ⟨[.backend (.newMysqlRetry (retryConfig p.backend) none), .backend .start], ?_,
            (serviced_singleton _).append (serviced_singleton _), rfl, fun _ => nofun⟩
          show (p.trace ++ [_]) ++ [_] = _
          rw [List.append_assoc]
          rfl

/-- **Handing a message to the retry service** is a step of the service alone, and returns nil only with
    the message stored. -/
theorem mysqlRetryMessage_appends (env : RetryEnv H E) (msg : Message) (h : H) (retError : MultiErr E)
    (p : Progress Backend H E (RetryEvent H E)) :
    ∃ es, (mysqlRetryMessage env msg h retError p).2.trace = p.trace ++ es ∧ Serviced es ∧ es ≠ [] ∧
      ((mysqlRetryMessage env msg h retError p).1 = none →
        ∃ retryType, records es = [⟨retryType, msg.uuid, msg.payload⟩]) := by
  obtain ⟨es, htr, hserv, hrec, hne⟩ := ensureRetryService_appends env p
  unfold mysqlRetryMessage
  cases hens : ensureRetryService env p with
  | mk err q =>
      rw [hens] at htr hne
      cases err with
      | some err => exact ⟨es, htr, hserv, hne nofun, nofun⟩
      | none =>
          have hq : q.trace = p.trace ++ es := htr
          have htwo : ∀ x y, ((q.log (.backend x)).log (.backend y)).trace =
              p.trace ++ (es ++ [.backend x, .backend y]) := by
            intro x y
            rw [Progress.log_trace, Progress.log_trace, hq]
            simp
          have hserv' : ∀ x y, Serviced (es ++ [.backend x, .backend y]) :=
            fun x y => hserv.append ((serviced_singleton x).append (serviced_singleton y))
          dsimp only
          split
          · exact ⟨_, htwo _ _, hserv' _ _, by simp, nofun⟩
          · next hdo =>
              refine ⟨_, htwo _ _, hserv' _ _, by simp, fun _ => ⟨q.backend.consumerGroup, ?_⟩⟩
              rw [records_append, hrec, hdo]
              rfl

theorem mysqlRetryMessage_quiet (env : RetryEnv H E) (msg : Message) (h : H) (retError : MultiErr E)
    (p : Progress Backend H E (RetryEvent H E)) : Quiet p (mysqlRetryMessage env msg h retError p).2 := by
  obtain ⟨es, htr, hserv, _, _⟩ := mysqlRetryMessage_appends env msg h retError p
  exact ⟨es, htr, hserv.invocations⟩

theorem dispatch_law (cv : Conv V) : DispatchLaw RetryEnv.toEnv (getDataFromMsg cv)
    (dispatchMessages cv : Chan H E → _) := by
  intro g env topic msg hs retries messageId messageData p hset
  obtain ⟨handlers, hm, hget⟩ := hset.registered
  obtain ⟨msg', hdec, rfl, rfl⟩ := hset.decoded
  have hdisp := handleAll_dispatches env.toEnv msg' (mysqlRetryMessage env msg')
    (mysqlRetryMessage_quiet env msg') g.retryTimes g.errorHandler hs none p _ (.ack _ msg'.ptr)
  rw [hset.toNat_retryTimes] at hdisp
  exact ⟨_, dispatchMessages_eq hm hget hdec env p, hdisp⟩

end Mysqlchannel

/-- From `p` to `p'`, exactly the handler calls `cs` were made. -/
def Makes (cs : List (Invocation H E)) (p p' : Progress B H E X) : Prop :=
  invocations p'.trace = invocations p.trace ++ cs

theorem Dispatches.makes {env : Env H E X} {retries : ℕ} {messageId messageData : GoString} {hs : List H}
    {p p' : Progress B H E X} (hd : Dispatches env retries messageId messageData hs p p') :
    ∃ seg, Dispatched env retries messageId messageData p.trace hs seg ∧ Makes (invocations seg) p p' := by
  obtain ⟨seg, htr, hseg⟩ := hd
  refine ⟨seg, hseg, ?_⟩
  rw [Makes, htr, invocations_append]

/-- Wherever the three Channels have the same handlers, retries and message, and the handlers answer as
    `o` does, the three make the same calls. -/
def SameCalls (H E : Type) {V : Type} (cv : Conv V) : Prop :=
  ∀ (o : List (Invocation H E) → H → GoString → GoString → Option E) hs retries messageId messageData
    (g₁ : Gochannel.Chan H E) env₁ topic₁ msg₁ p₁ (g₂ : Grpcchannel.Chan H E) env₂ topic₂ msg₂ p₂
    (g₃ : Mysqlchannel.Chan H E) env₃ topic₃ msg₃ p₃,
    Setting some g₁ topic₁ msg₁ hs retries messageId messageData →
    Setting some g₂ topic₂ msg₂ hs retries messageId messageData →
    Setting (getDataFromMsg cv) g₃ topic₃ msg₃ hs retries messageId messageData →
    Follows o env₁ p₁.trace → Follows o env₂ p₂.trace → Follows o env₃.toEnv p₃.trace →
    ∃ cs p₁' p₂' p₃',
      Gochannel.dispatchMessages g₁ env₁ topic₁ msg₁ p₁ = .ok p₁' ∧ Makes cs p₁ p₁' ∧
      Grpcchannel.dispatchMessages g₂ env₂ topic₂ msg₂ p₂ = .ok p₂' ∧ Makes cs p₂ p₂' ∧
      Mysqlchannel.dispatchMessages cv g₃ env₃ topic₃ msg₃ p₃ = .ok p₃' ∧ Makes cs p₃ p₃'

theorem sameCalls {V : Type} (cv : Conv V) : SameCalls H E cv := by
  intro o hs retries messageId messageData g₁ env₁ topic₁ msg₁ p₁ g₂ env₂ topic₂ msg₂ p₂ g₃ env₃ topic₃ msg₃
    p₃ hset₁ hset₂ hset₃ hf₁ hf₂ hf₃
  obtain ⟨p₁', hok₁, hd₁⟩ := Gochannel.dispatch_law g₁ env₁ topic₁ msg₁ hs retries messageId messageData p₁ hset₁
  obtain ⟨p₂', hok₂, hd₂⟩ := Grpcchannel.dispatch_law g₂ env₂ topic₂ msg₂ hs retries messageId messageData p₂ hset₂
  obtain ⟨p₃', hok₃, hd₃⟩ :=
    Mysqlchannel.dispatch_law cv g₃ env₃ topic₃ msg₃ hs retries messageId messageData p₃ hset₃
  obtain ⟨seg₁, hseg₁, hm₁⟩ := hd₁.makes
  obtain ⟨seg₂, hseg₂, hm₂⟩ := hd₂.makes
  obtain ⟨seg₃, hseg₃, hm₃⟩ := hd₃.makes
  have h₁₂ := hseg₁.invocations_eq hseg₂ (hf₁.agrees hf₂)
  have h₁₃ := hseg₁.invocations_eq hseg₃ (hf₁.agrees hf₃)
  rw [← h₁₂] at hm₂
  rw [← h₁₃] at hm₃
  exact ⟨invocations seg₁, p₁', p₂', p₃', hok₁, hm₁, hok₂, hm₂, hok₃, hm₃⟩

theorem inRegistrationOrder_of_effect {L : Type} {Step : Channel B S H E X → L → Channel B S H E X → Prop}
    {label : L → Act H × Option (GoErr E)} {decode : Message → Option Message} {g₀ : Channel B S H E X}
    (hfresh : Fresh g₀) (heff : ∀ ls g, Run Step g₀ ls g → Run (Effect decode) g₀ (ls.map label) g) :
    InRegistrationOrder Step label g₀ := by
  intro ls g hrun
  exact (run_registered hfresh (heff ls g hrun)).handlers

/-- **Dispatch semantics** of the three Channels: in every history the registry keeps the order of
    registration; a dispatch gives each registered handler, in that order, one call and its retries up to
    the first success; and for the same outcomes the three make the same calls. -/
theorem dispatch_semantics {V : Type} (cv : Conv V) :
    (DispatchLaw (X := Empty) id some (Gochannel.dispatchMessages : Gochannel.Chan H E → _) ∧
      InRegistrationOrder Gochannel.Step Gochannel.label (Gochannel.newWithMap : Gochannel.Chan H E)) ∧
    (DispatchLaw (X := Empty) id some (Grpcchannel.dispatchMessages : Grpcchannel.Chan H E → _) ∧
      ∀ cfg (g₀ : Grpcchannel.Chan H E), Grpcchannel.new cfg = .ok g₀ →
        InRegistrationOrder Grpcchannel.Step Grpcchannel.label g₀) ∧
    (DispatchLaw Mysqlchannel.RetryEnv.toEnv (getDataFromMsg cv)
        (Mysqlchannel.dispatchMessages cv : Mysqlchannel.Chan H E → _) ∧
      ∀ conf openDB ping (g₀ : Mysqlchannel.Chan H E), Mysqlchannel.new conf openDB ping = .ok g₀ →
        InRegistrationOrder (Mysqlchannel.Step cv) Mysqlchannel.label (Mysqlchannel.withMap g₀)) ∧
    SameCalls H E cv := by
  refine ⟨⟨Gochannel.dispatch_law, ?_⟩, ⟨Grpcchannel.dispatch_law, ?_⟩,
    ⟨Mysqlchannel.dispatch_law cv, ?_⟩, sameCalls cv⟩
  · exact inRegistrationOrder_of_effect Gochannel.newWithMap_fresh (fun _ _ => Gochannel.run_effect)
  · intro cfg g₀ hnew
    have hfresh := (Grpcchannel.new_spec hnew).2
    exact inRegistrationOrder_of_effect hfresh
      (fun _ _ hrun => (Grpcchannel.run_effect (Grpcchannel.allDispatch_of_fresh hfresh) hrun).2)
  · intro conf openDB ping g₀ hnew
    exact inRegistrationOrder_of_effect (Mysqlchannel.new_bare hnew).withMap_fresh
      (fun _ _ => Mysqlchannel.run_effect)

/-- Handler 0 fails at the first call, handler 1 always. -/
def failing (cs : List (Invocation ℕ Unit)) (h : ℕ) (_ _ : GoString) : Option Unit :=
  if h = 0 ∧ cs ≠ [] then none else some ()

def failingEnv (X : Type) : Env ℕ Unit X where
  handler tr := failing (invocations tr)
  errorHandler _ _ _ := none

def failingRetryEnv : Mysqlchannel.RetryEnv ℕ Unit where
  toEnv := failingEnv _
  newMysqlRetry _ := none
  doAsync _ := none

theorem failingEnv_follows (X : Type) : Follows failing (failingEnv X) [] := fun _ _ _ _ => rfl

/-- Both handlers registered, two retries. -/
def twoHandlers (backend : B) : Channel B S ℕ Unit X where
  backend := backend
  handlers := some (ConcurrentMap.new.set (str "order") [0, 1])
  retryTimes := 2
  errorHandler := none
  loops := []

theorem twoHandlers_setting {decode : Message → Option Message} {msg : Message} (backend : B)
    (hdec : ∃ msg', decode msg = some msg' ∧ msg'.uuid = str "1" ∧ msg'.payload = str "created") :
    Setting decode (twoHandlers backend : Channel B S ℕ Unit X) (str "order") msg [0, 1] 2 (str "1")
      (str "created") :=
  ⟨⟨_, rfl, rfl⟩, rfl, hdec⟩

def created : Message := ⟨0, str "1", str "created"⟩

/-- The same message as `Publish` of `mysqlchannel` stores it. -/
def createdStored : Message :=
  { created with payload := Mysqlchannel.encodePayload Mysqlchannel.plainConv (str "order") (str "created") }

def noClients : Gochannel.Backend := ⟨none, [], 0, [], [], []⟩

def noServer : Grpcchannel.Backend := ⟨[], false, [], false, [], []⟩

theorem dispatch_semantics_twoHandlers : ∃ cs p₁ p₂ p₃,
    Gochannel.dispatchMessages (twoHandlers noClients) (failingEnv Empty) (str "order") created
      ⟨noClients, []⟩ = .ok p₁ ∧ Makes cs ⟨noClients, []⟩ p₁ ∧
    Grpcchannel.dispatchMessages (twoHandlers noServer) (failingEnv Empty) (str "order") created
      ⟨noServer, []⟩ = .ok p₂ ∧ Makes cs ⟨noServer, []⟩ p₂ ∧
    Mysqlchannel.dispatchMessages Mysqlchannel.plainConv (twoHandlers Mysqlchannel.zeroBackend)
      failingRetryEnv (str "order") createdStored ⟨Mysqlchannel.zeroBackend, []⟩ = .ok p₃ ∧
    Makes cs ⟨Mysqlchannel.zeroBackend, []⟩ p₃ ∧
    cs.map (fun c => (c.handler, c.err)) =
      [(0, some ()), (0, none), (1, some ()), (1, some ()), (1, some ())] := by
  obtain ⟨_, _, _, hsame⟩ := dispatch_semantics (H := ℕ) (E := Unit) Mysqlchannel.plainConv
  obtain ⟨cs, p₁, p₂, p₃, hok₁, hm₁, hok₂, hm₂, hok₃, hm₃⟩ := hsame failing [0, 1] 2 (str "1") (str "created")
    (twoHandlers noClients) (failingEnv Empty) (str "order") created ⟨noClients, []⟩
    (twoHandlers noServer) (failingEnv Empty) (str "order") created ⟨noServer, []⟩
    (twoHandlers Mysqlchannel.zeroBackend) failingRetryEnv (str "order") createdStored
    ⟨Mysqlchannel.zeroBackend, []⟩ (twoHandlers_setting _ ⟨_, rfl, rfl, rfl⟩)
    (twoHandlers_setting _ ⟨_, rfl, rfl, rfl⟩) (twoHandlers_setting _ ⟨_, rfl, rfl, rfl⟩)
    (failingEnv_follows _) (failingEnv_follows _) (failingEnv_follows _)
  refine ⟨cs, p₁, p₂, p₃, hok₁, hm₁, hok₂, hm₂, hok₃, hm₃, ?_⟩
  obtain rfl := Except.ok.inj hok₁
  have hcs : invocations _ = cs := hm₁
  rw [← hcs]
  rfl

end Watermill
end ServiceKit
