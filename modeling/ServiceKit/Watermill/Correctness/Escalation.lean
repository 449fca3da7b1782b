import ServiceKit.Watermill.Correctness.DurableRetry
import ServiceKit.Watermill.Correctness.Dispatch

/-!
# `Correctness.Escalation` — what becomes of a handler's last failure

When every attempt of a handler failed, the error handler is to be asked, then (in `mysqlchannel`) the retry
service; and only what one of them took is to be missing from the errors of the dispatch. With retries that
is what `retryMessage` does. Without retries it returns at once: the only attempt is reported, and nobody is
asked.
-/

namespace ServiceKit
namespace Watermill

open Lib
open Mysqlchannel (Conv getDataFromMsg)

variable {B S H E X : Type}

/-! ## The turns of a dispatch -/

/-- One handler's turn in a dispatch: where it began and ended, and the errors it came back with. -/
structure Turn (B H E X : Type) where
  handler : H
  start : Progress B H E X
  result : Option (MultiErr E)
  finish : Progress B H E X

/-- The calls of the error handler in a trace, with their results. -/
def errorCalls (tr : Trace H E X) : List (ℕ × Message × Option E) :=
  tr.filterMap (fun e => match e with
    | .errorHandler eh msg err => some (eh, msg, err)
    | _ => none)

@[simp] theorem errorCalls_append (tr tr' : Trace H E X) :
    errorCalls (tr ++ tr') = errorCalls tr ++ errorCalls tr' := List.filterMap_append

theorem errorCalls_calls (env : Env H E X) (h : H) (messageId messageData : GoString) (tr : Trace H E X)
    (n : ℕ) : errorCalls (calls env h messageId messageData tr n) = [] := by
  induction n generalizing tr with
  | zero => rfl
  | succ n ih => exact ih _

section Turns

variable (retryMessage : H → MultiErr E → Progress B H E X → Option (MultiErr E) × Progress B H E X)
  (env : Env H E X) (msg : Message)

/-- The turns that the loop over the handlers takes. -/
def turnsOf : List H → Progress B H E X → List (Turn B H E X)
  | [], _ => []
  | h :: hs, p =>
      let (result, finish) := turn env msg retryMessage h p
      ⟨h, p, result, finish⟩ :: turnsOf hs finish

/-- Where the last turn ended. -/
def lastOf (p : Progress B H E X) : List (Turn B H E X) → Progress B H E X
  | [] => p
  | t :: ts => lastOf t.finish ts

/-- The errors that a dispatch collects from its turns. -/
def reportOf (retError : Option (MultiErr E)) : List (Turn B H E X) → Option (MultiErr E)
  | [] => retError
  | t :: ts =>
      match t.result with
      | none => reportOf retError ts
      | some err => reportOf (appendErr retError err) ts

/-- **The loop over the handlers is its turns.** -/
theorem handleAll_turns (hs : List H) (retError : Option (MultiErr E)) (p : Progress B H E X) :
    handleAll retryMessage env msg hs retError p =
      (reportOf retError (turnsOf retryMessage env msg hs p), lastOf p (turnsOf retryMessage env msg hs p)) := by
  induction hs generalizing retError p with
  | nil => rfl
  | cons h hs ih =>
      rw [handleAll_cons, turnsOf]
      cases hturn : turn env msg retryMessage h p with
      | mk result finish =>
          cases result with
          | none => exact ih retError finish
          | some err => exact ih (appendErr retError err) finish

/-- The errors that came back from `t` are among those of `retError`. -/
def Reports (retError : Option (MultiErr E)) (t : Turn B H E X) : Prop :=
  ∃ err all, t.result = some err ∧ retError = some all ∧ err <:+: all

theorem reportOf_infix {all : MultiErr E} (ts : List (Turn B H E X)) :
    ∃ all', reportOf (some all) ts = some all' ∧ all <:+: all' := by
  induction ts generalizing all with
  | nil => exact ⟨all, rfl, List.infix_rfl⟩
  | cons t ts ih =>
      rw [reportOf]
      cases t.result with
      | none => exact ih
      | some err =>
          obtain ⟨all', heq, hin⟩ := @ih (all ++ err)
          exact ⟨all', heq, (List.infix_append [] all err).trans hin⟩

/-- Nothing that comes back from a turn is lost on the way. -/
theorem reports_of_result {ts : List (Turn B H E X)} {t : Turn B H E X} {err : MultiErr E} (ht : t ∈ ts)
    (hres : t.result = some err) (retError : Option (MultiErr E)) : Reports (reportOf retError ts) t := by
  induction ts generalizing retError with
  | nil => exact absurd ht nofun
  | cons t' ts ih =>
      rw [reportOf]
      rcases List.mem_cons.mp ht with rfl | ht
      · rw [hres]
        obtain ⟨all, heq, hin⟩ := reportOf_infix ts
        exact ⟨err, all, hres, heq, (List.suffix_append _ err).isInfix.trans hin⟩
      · cases t'.result with
        | none => exact ih ht retError
        | some err' => exact ih ht _

end Turns

/-! ## Escalation -/

/-- The handler failed on all its attempts. -/
def FailedAll (env : Env H E X) (msg : Message) (retryTimes : ℤ) (t : Turn B H E X) : Prop :=
  Fails (outcomes env t.handler msg.uuid msg.payload t.start.trace) (retryTimes.toNat + 1)

/-- **The failure of `t` is escalated.** `handedOver` and `stored` say that the retry service was given the
    message in `t`, and that it took it; `retError` is what the dispatch reports. -/
structure Escalated (errorHandler : Option ℕ) (msg : Message) (handedOver stored : Turn B H E X → Prop)
    (retError : Option (MultiErr E)) (t : Turn B H E X) : Prop where
  once : ∀ eh, errorHandler = some eh →
    ∃ err, errorCalls t.finish.trace = errorCalls t.start.trace ++ [(eh, msg, err)]
  handedOver : errorHandler = none ∨
    (∃ eh err, errorCalls t.finish.trace = errorCalls t.start.trace ++ [(eh, msg, some err)]) → handedOver t
  reported : ¬ Reports retError t →
    (∃ eh, errorCalls t.finish.trace = errorCalls t.start.trace ++ [(eh, msg, none)]) ∨ stored t

/-- Every failure of a dispatch is escalated. -/
def EscalatesAll (env : Env H E X) (retryTimes : ℤ) (errorHandler : Option ℕ) (msg : Message)
    (handedOver stored : Turn B H E X → Prop)
    (retryMessage : H → MultiErr E → Progress B H E X → Option (MultiErr E) × Progress B H E X) (hs : List H)
    (p : Progress B H E X) : Prop :=
  ∀ t ∈ turnsOf retryMessage env msg hs p, FailedAll env msg retryTimes t →
    Escalated errorHandler msg handedOver stored (handleAll retryMessage env msg hs none p).1 t

/-- Every handler succeeds when it is called once. -/
def AllSucceed (env : Env H E X) (msg : Message) : List H → Trace H E X → Prop
  | [], _ => True
  | h :: hs, tr =>
      env.handler tr h msg.uuid msg.payload = none ∧
        AllSucceed env msg hs (tr ++ [call env h msg.uuid msg.payload tr])

/-- Between `p` and `q` the retry service was not touched. -/
def Untouched (p q : Progress B H E X) : Prop :=
  ∃ es, q.trace = p.trace ++ es ∧ ∀ e ∈ es, ∀ x, e ≠ .backend x

theorem calls_not_backend {env : Env H E X} {h : H} {messageId messageData : GoString} {tr : Trace H E X}
    {n : ℕ} : ∀ e ∈ calls env h messageId messageData tr n, ∀ x, e ≠ .backend x := by
  induction n generalizing tr with
  | zero => exact fun _ he => absurd he nofun
  | succ n ih =>
      intro e he
      rcases List.mem_cons.mp he with rfl | he
      · exact fun x => nofun
      · exact ih e he

theorem called_untouched (env : Env H E X) (msg : Message) (retryTimes : ℤ) (h : H)
    (p : Progress B H E X) : Untouched p (called env msg retryTimes h p) := ⟨_, rfl, calls_not_backend⟩

theorem Untouched.log_errorHandler {p q : Progress B H E X} (hu : Untouched p q) (eh : ℕ) (msg : Message)
    (err : Option E) : Untouched p (q.log (.errorHandler eh msg err)) := by
  obtain ⟨es, htr, hes⟩ := hu
  refine ⟨es ++ [.errorHandler eh msg err], by rw [Progress.log_trace, htr, List.append_assoc], ?_⟩
  intro e he
  rcases List.mem_append.mp he with he | he
  · exact hes e he
  · rw [List.mem_singleton.mp he]
    exact fun x => nofun

/-- What `handedOver` and `stored` must be for the last line of a `retryMessage`: giving up calls no error
    handler, hands the message over, and returns nil only when the retry service took it. -/
structure GivesUp (giveUp : H → MultiErr E → Progress B H E X → Option (MultiErr E) × Progress B H E X)
    (handedOver stored : Turn B H E X → Prop) : Prop where
  errorCalls : ∀ h err q, errorCalls (giveUp h err q).2.trace = errorCalls q.trace
  handedOver : ∀ h err start q, Untouched start q →
    handedOver ⟨h, start, (giveUp h err q).1, (giveUp h err q).2⟩
  stored : ∀ h err start q, Untouched start q → (giveUp h err q).1 = none →
    stored ⟨h, start, (giveUp h err q).1, (giveUp h err q).2⟩

section Laws

variable {env : Env H E X} {msg : Message} {retryTimes : ℤ} {errorHandler : Option ℕ}
  {giveUp : H → MultiErr E → Progress B H E X → Option (MultiErr E) × Progress B H E X}
  {handedOver stored : Turn B H E X → Prop} {retError : Option (MultiErr E)}

theorem errorCalls_called (h : H) (p : Progress B H E X) :
    errorCalls (called env msg retryTimes h p).trace = errorCalls p.trace := by
  rw [called, Progress.logAll_trace, errorCalls_append, errorCalls_calls, List.append_nil]

/-- With retries, the errors of the last attempts are escalated. -/
theorem escalate_escalated (hgive : GivesUp giveUp handedOver stored) {t : Turn B H E X} {err : MultiErr E}
    (hrep : ∀ err, t.result = some err → Reports retError t)
    (ht : (t.result, t.finish) =
      escalate env msg (giveUp t.handler) errorHandler err (called env msg retryTimes t.handler t.start)) :
    Escalated errorHandler msg handedOver stored retError t := by
  obtain ⟨h, start, result, finish⟩ := t
  dsimp only at ht
  have hcalled := called_untouched env msg retryTimes h start
  have hnone : ¬ Reports retError ⟨h, start, result, finish⟩ → result = none := by
    intro hn
    cases result with
    | none => rfl
    | some err => exact absurd (hrep err rfl) hn
  have hcalls : errorCalls (called env msg retryTimes h start).trace = errorCalls start.trace :=
    errorCalls_called h start
  cases errorHandler with
  | none =>
      obtain rfl : result = _ := congrArg Prod.fst ht
      obtain rfl : finish = _ := congrArg Prod.snd ht
      refine ⟨nofun, fun _ => hgive.handedOver h err start _ hcalled, ?_⟩
      intro hn
      exact Or.inr (hgive.stored h err start _ hcalled (hnone hn))
  | some eh =>
      cases hask : env.errorHandler (called env msg retryTimes h start).trace eh msg with
      | none =>
          simp only [escalate, hask] at ht
          obtain rfl : result = _ := congrArg Prod.fst ht
          obtain rfl : finish = _ := congrArg Prod.snd ht
          have honce : errorCalls ((called env msg retryTimes h start).log (.errorHandler eh msg none)).trace =
              errorCalls start.trace ++ [(eh, msg, none)] := by
            rw [Progress.log_trace, errorCalls_append, hcalls]
            rfl
          refine ⟨?_, ?_, fun _ => Or.inl ⟨eh, honce⟩⟩
          · intro eh' heh
            obtain rfl := Option.some.inj heh
            exact ⟨none, honce⟩
          · rintro (hno | ⟨eh', err', hfailed⟩)
            · exact absurd hno nofun
            · exact absurd (List.append_cancel_left (honce.symm.trans hfailed)) (by simp)
      | some err' =>
          simp only [escalate, hask] at ht
          have hafter := hcalled.log_errorHandler eh msg (some err')
          obtain rfl : result = _ := congrArg Prod.fst ht
          obtain rfl : finish = _ := congrArg Prod.snd ht
          refine ⟨?_, fun _ => hgive.handedOver h err start _ hafter, ?_⟩
          · intro eh' heh
            obtain rfl := Option.some.inj heh
            refine ⟨some err', ?_⟩
            show errorCalls (giveUp h err _).2.trace = _
            rw [hgive.errorCalls, Progress.log_trace, errorCalls_append, hcalls]
            rfl
          · intro hn
            exact Or.inr (hgive.stored h err start _ hafter (hnone hn))

/-- **A turn with retries** escalates the failure of its handler. -/
theorem escalated_of_pos (hgive : GivesUp giveUp handedOver stored) (hpos : 0 < retryTimes)
    {t : Turn B H E X} (hrep : ∀ err, t.result = some err → Reports retError t)
    (ht : (t.result, t.finish) = turn env msg (retrying giveUp retryTimes errorHandler env msg) t.handler t.start)
    (hf : FailedAll env msg retryTimes t) : Escalated errorHandler msg handedOver stored retError t := by
  have hturn := turn_turned env msg retryTimes errorHandler t.handler t.start giveUp
  rw [← ht] at hturn
  generalize hr : (t.result, t.finish) = r at hturn
  cases hturn with
  | success hs => exact absurd hf hs
  | unretried hle _ => omega
  | escalated _ _ => exact escalate_escalated hgive hrep hr

theorem mem_turnsOf_turn {retryMessage : H → MultiErr E → Progress B H E X →
      Option (MultiErr E) × Progress B H E X} {hs : List H} {p : Progress B H E X} {t : Turn B H E X}
    (ht : t ∈ turnsOf retryMessage env msg hs p) :
    (t.result, t.finish) = turn env msg retryMessage t.handler t.start := by
  induction hs generalizing p with
  | nil => exact absurd ht nofun
  | cons h hs ih =>
      rcases List.mem_cons.mp ht with rfl | ht
      · rfl
      · exact ih ht

/-- **With retries**, every failure is escalated. -/
theorem escalatesAll_of_pos (hgive : GivesUp giveUp handedOver stored) (hpos : 0 < retryTimes)
    (hs : List H) (p : Progress B H E X) :
    EscalatesAll env retryTimes errorHandler msg handedOver stored
      (retrying giveUp retryTimes errorHandler env msg) hs p := by
  intro t ht hf
  rw [handleAll_turns]
  exact escalated_of_pos hgive hpos (fun err hres => reports_of_result ht hres none) (mem_turnsOf_turn ht) hf

theorem not_fails_of_success {h : H} {tr : Trace H E X} {n : ℕ}
    (hok : env.handler tr h msg.uuid msg.payload = none) :
    ¬ Fails (outcomes env h msg.uuid msg.payload tr) (n + 1) := fun hf => hf 0 n.succ_pos hok

theorem turn_success {h : H} {p : Progress B H E X}
    (hok : env.handler p.trace h msg.uuid msg.payload = none) :
    turn env msg (retrying giveUp retryTimes errorHandler env msg) h p =
      (none, p.log (call env h msg.uuid msg.payload p.trace)) := by
  rw [turn, invoke, call, hok]

/-- Without a failure there is nothing to escalate. -/
theorem not_failedAll_of_allSucceed {hs : List H} {p : Progress B H E X}
    (hall : AllSucceed env msg hs p.trace) :
    ∀ t ∈ turnsOf (retrying giveUp retryTimes errorHandler env msg) env msg hs p,
      ¬ FailedAll env msg retryTimes t := by
  induction hs generalizing p with
  | nil => exact fun t ht => absurd ht nofun
  | cons h hs ih =>
      intro t ht
      rw [turnsOf, turn_success hall.1] at ht
      rcases List.mem_cons.mp ht with rfl | ht
      · exact not_fails_of_success hall.1
      · exact ih hall.2 t ht

/-- **Without retries** a handler fails as soon as one call does. -/
theorem allSucceed_of_not_failedAll (hle : retryTimes ≤ 0) {hs : List H} {p : Progress B H E X}
    (hnone : ∀ t ∈ turnsOf (retrying giveUp retryTimes errorHandler env msg) env msg hs p,
      ¬ FailedAll env msg retryTimes t) : AllSucceed env msg hs p.trace := by
  induction hs generalizing p with
  | nil => trivial
  | cons h hs ih =>
      have hok : env.handler p.trace h msg.uuid msg.payload = none := by
        by_contra hfail
        apply hnone _ List.mem_cons_self
        show Fails (outcomes env h msg.uuid msg.payload p.trace) (retryTimes.toNat + 1)
        rw [Int.toNat_eq_zero.mpr hle, fails_succ_iff]
        exact ⟨hfail, fails_zero _⟩
      refine ⟨hok, ih (p := p.log (call env h msg.uuid msg.payload p.trace)) ?_⟩
      intro t ht
      apply hnone t
      rw [turnsOf, turn_success hok]
      exact List.mem_cons_of_mem _ ht

/-- **Without retries** the failure is returned, and that is all. -/
theorem unretried_of_failedAll (hle : retryTimes ≤ 0) {hs : List H} {p : Progress B H E X}
    {t : Turn B H E X} (ht : t ∈ turnsOf (retrying giveUp retryTimes errorHandler env msg) env msg hs p)
    (hf : FailedAll env msg retryTimes t) :
    ∃ err, t.result = some err ∧ t.finish = called env msg retryTimes t.handler t.start := by
  have hturn := turn_turned env msg retryTimes errorHandler t.handler t.start giveUp
  rw [← mem_turnsOf_turn ht] at hturn
  generalize hr : (t.result, t.finish) = r at hturn
  cases hturn with
  | success hs => exact absurd hf hs
  | @unretried err _ _ => exact ⟨err, congrArg Prod.fst hr, congrArg Prod.snd hr⟩
  | escalated hpos _ => omega

/-- Without retries, the error handler is not asked. -/
theorem not_escalated_of_errorHandler (hle : retryTimes ≤ 0) (heh : errorHandler ≠ none) {hs : List H}
    {p : Progress B H E X} {t : Turn B H E X}
    (ht : t ∈ turnsOf (retrying giveUp retryTimes errorHandler env msg) env msg hs p)
    (hf : FailedAll env msg retryTimes t) : ¬ Escalated errorHandler msg handedOver stored retError t := by
  intro hesc
  obtain ⟨eh, heq⟩ := Option.ne_none_iff_exists'.mp heh
  obtain ⟨err, _, hfin⟩ := unretried_of_failedAll hle ht hf
  obtain ⟨err', honce⟩ := hesc.once eh heq
  rw [hfin, errorCalls_called] at honce
  exact absurd (List.self_eq_append_right.mp honce) (by simp)

end Laws

/-! ## The three Channels -/

section Channels

variable {env : Env H E X} {msg : Message} {retryTimes : ℤ} {errorHandler : Option ℕ}

/-- `gochannel` and `grpcchannel` give up by returning the errors. They have no retry service. -/
theorem localGivesUp : GivesUp (fun _ retError p => (some retError, p) :
      H → MultiErr E → Progress B H E X → Option (MultiErr E) × Progress B H E X)
    (fun _ => True) (fun _ => False) where
  errorCalls _ _ _ := rfl
  handedOver _ _ _ _ _ := trivial
  stored _ _ _ _ _ h := nomatch h

theorem escalatesAll_local_iff (hs : List H) (p : Progress B H E X) :
    EscalatesAll env retryTimes errorHandler msg (fun _ => True) (fun _ => False)
        (retrying (fun _ retError p => (some retError, p)) retryTimes errorHandler env msg) hs p ↔
      0 < retryTimes ∨ errorHandler = none ∨ AllSucceed env msg hs p.trace := by
  constructor
  · intro hall
    rcases Int.lt_or_le 0 retryTimes with hpos | hle
    · exact Or.inl hpos
    · rcases eq_or_ne errorHandler none with heh | heh
      · exact Or.inr (Or.inl heh)
      · right; right
        apply allSucceed_of_not_failedAll hle
        intro t ht hf
        exact not_escalated_of_errorHandler hle heh ht hf (hall t ht hf)
  · rintro (hpos | heh | hall) t ht hf
    · exact escalatesAll_of_pos localGivesUp hpos hs p t ht hf
    · rcases Int.lt_or_le 0 retryTimes with hpos | hle
      · exact escalatesAll_of_pos localGivesUp hpos hs p t ht hf
      · -- nobody is to be asked, and the error is reported
        obtain ⟨err, hres, _⟩ := unretried_of_failedAll hle ht hf
        refine ⟨fun eh heq => absurd (heh.symm.trans heq) nofun, fun _ => trivial, ?_⟩
        intro hnot
        rw [handleAll_turns] at hnot
        exact absurd (reports_of_result ht hres none) hnot
    · exact absurd hf (not_failedAll_of_allSucceed hall t ht)

end Channels

namespace Mysqlchannel

variable {msg : Message}

/-- The turn ends in a call of `mysqlRetryMessage`. -/
def HandedOver (env : RetryEnv H E) (msg : Message) (t : Turn Backend H E (RetryEvent H E)) : Prop :=
  ∃ q retError, Untouched t.start q ∧ (t.result, t.finish) = mysqlRetryMessage env msg t.handler retError q

/-- The retry service took the message in this turn. -/
def Stored (msg : Message) (t : Turn Backend H E (RetryEvent H E)) : Prop :=
  ∃ retryType, records t.finish.trace = records t.start.trace ++ [⟨retryType, msg.uuid, msg.payload⟩]

theorem records_of_untouched {p q : Progress Backend H E (RetryEvent H E)} (hu : Untouched p q) :
    records q.trace = records p.trace := by
  obtain ⟨es, htr, hes⟩ := hu
  have hnil : records es = [] := by
    apply List.filterMap_eq_nil_iff.mpr
    intro e he
    cases e with
    | backend x => exact absurd rfl (hes _ he x)
    | _ => rfl
  rw [htr, records_append, hnil, List.append_nil]

theorem givesUp (env : RetryEnv H E) (msg : Message) :
    GivesUp (mysqlRetryMessage env msg) (HandedOver env msg) (Stored msg) where
  errorCalls h err q := by
    obtain ⟨es, htr, hserv, _, _⟩ := mysqlRetryMessage_appends env msg h err q
    have hnil : errorCalls es = [] := by
      apply List.filterMap_eq_nil_iff.mpr
      intro e he
      obtain ⟨x, rfl⟩ := hserv e he
      rfl
    rw [htr, errorCalls_append, hnil, List.append_nil]
  handedOver h err start q hu := ⟨q, err, hu, rfl⟩
  stored h err start q hu hres := by
    obtain ⟨es, htr, _, _, hstored⟩ := mysqlRetryMessage_appends env msg h err q
    obtain ⟨retryType, hrec⟩ := hstored hres
    refine ⟨retryType, ?_⟩
    show records (mysqlRetryMessage env msg h err q).2.trace = _
    rw [htr, records_append, hrec, records_of_untouched hu]

/-- A turn that was handed over leaves an event of the retry service. -/
theorem HandedOver.touched {env : RetryEnv H E} {t : Turn Backend H E (RetryEvent H E)}
    (h : HandedOver env msg t) : ¬ Untouched t.start t.finish := by
  obtain ⟨q, retError, ⟨es, hq, _⟩, heq⟩ := h
  obtain ⟨es', htr, hserv, hne, _⟩ := mysqlRetryMessage_appends env msg t.handler retError q
  rintro ⟨seg, hseg, huntouched⟩
  rw [← heq] at htr
  have happ : seg = es ++ es' := by
    apply List.append_cancel_left
    rw [← hseg, htr, hq, List.append_assoc]
  obtain ⟨e, he⟩ := List.exists_mem_of_ne_nil es' hne
  obtain ⟨x, rfl⟩ := hserv e he
  exact huntouched _ (happ ▸ List.mem_append_right _ he) x rfl

/-- Without retries, a failure is not escalated at all. -/
theorem not_escalated {env : RetryEnv H E} {retryTimes : ℤ} {errorHandler : Option ℕ}
    {retError : Option (MultiErr E)} (hle : retryTimes ≤ 0) {hs : List H}
    {p : Progress Backend H E (RetryEvent H E)} {t : Turn Backend H E (RetryEvent H E)}
    (ht : t ∈ turnsOf (retrying (mysqlRetryMessage env msg) retryTimes errorHandler env.toEnv msg) env.toEnv
      msg hs p) (hf : FailedAll env.toEnv msg retryTimes t) :
    ¬ Escalated errorHandler msg (HandedOver env msg) (Stored msg) retError t := by
  intro hesc
  cases errorHandler with
  | some eh => exact not_escalated_of_errorHandler hle (Option.some_ne_none eh) ht hf hesc
  | none =>
      obtain ⟨err, _, hfin⟩ := unretried_of_failedAll hle ht hf
      apply (hesc.handedOver (Or.inl rfl)).touched
      rw [hfin]
      exact called_untouched env.toEnv msg retryTimes t.handler t.start

theorem escalatesAll_iff {env : RetryEnv H E} {retryTimes : ℤ} {errorHandler : Option ℕ} (hs : List H)
    (p : Progress Backend H E (RetryEvent H E)) :
    EscalatesAll env.toEnv retryTimes errorHandler msg (HandedOver env msg) (Stored msg)
        (retrying (mysqlRetryMessage env msg) retryTimes errorHandler env.toEnv msg) hs p ↔
      0 < retryTimes ∨ AllSucceed env.toEnv msg hs p.trace := by
  constructor
  · intro hall
    rcases Int.lt_or_le 0 retryTimes with hpos | hle
    · exact Or.inl hpos
    · right
      apply allSucceed_of_not_failedAll hle
      intro t ht hf
      exact not_escalated hle ht hf (hall t ht hf)
  · rintro (hpos | hall) t ht hf
    · exact escalatesAll_of_pos (givesUp env msg) hpos hs p t ht hf
    · exact absurd hf (not_failedAll_of_allSucceed hall t ht)

end Mysqlchannel

/-- A dispatch is its turns and then the `Ack`, and it escalates every failure exactly when `holds`. -/
def EscalationLaw {V : Type} (toEnv : V → Env H E X) (decode : Message → Option Message)
    (dispatchMessages : Channel B S H E X → V → GoString → Message → Progress B H E X →
      Except Stop (Progress B H E X))
    (retryMessage : Channel B S H E X → V → Message → H → MultiErr E → Progress B H E X →
      Option (MultiErr E) × Progress B H E X)
    (handedOver : V → Message → Turn B H E X → Prop) (stored : Message → Turn B H E X → Prop)
    (holds : Channel B S H E X → V → Message → List H → Progress B H E X → Prop) : Prop :=
  ∀ g env topic msg msg' hs p,
    (∃ handlers, g.handlers = some handlers ∧ handlers.get topic = some hs) → decode msg = some msg' →
    dispatchMessages g env topic msg p = .ok ((lastOf p (turnsOf (retryMessage g env msg') (toEnv env) msg'
      hs p)).log (.ack msg'.ptr)) ∧
    (EscalatesAll (toEnv env) g.retryTimes g.errorHandler msg' (handedOver env msg') (stored msg')
      (retryMessage g env msg') hs p ↔ holds g env msg' hs p)

/-- **Failures are escalated** exactly where there are retries, or no handler fails; `gochannel` and
    `grpcchannel` have nobody to ask without an error handler either. -/
theorem escalation_iff {V : Type} (cv : Conv V) :
    EscalationLaw (X := Empty) id some (Gochannel.dispatchMessages : Gochannel.Chan H E → _)
      Gochannel.retryMessage (fun _ _ _ => True) (fun _ _ => False)
      (fun g env msg hs p => 0 < g.retryTimes ∨ g.errorHandler = none ∨ AllSucceed env msg hs p.trace) ∧
    EscalationLaw (X := Empty) id some (Grpcchannel.dispatchMessages : Grpcchannel.Chan H E → _)
      Grpcchannel.retryMessage (fun _ _ _ => True) (fun _ _ => False)
      (fun g env msg hs p => 0 < g.retryTimes ∨ g.errorHandler = none ∨ AllSucceed env msg hs p.trace) ∧
    EscalationLaw Mysqlchannel.RetryEnv.toEnv (getDataFromMsg cv)
      (Mysqlchannel.dispatchMessages cv : Mysqlchannel.Chan H E → _) Mysqlchannel.retryMessage
      Mysqlchannel.HandedOver Mysqlchannel.Stored
      (fun g env msg hs p => 0 < g.retryTimes ∨ AllSucceed env.toEnv msg hs p.trace) := by
  refine ⟨?_, ?_, ?_⟩
  · intro g env topic msg msg' hs p ⟨handlers, hm, hget⟩ hdec
    obtain rfl : msg = msg' := Option.some.inj hdec
    refine ⟨?_, escalatesAll_local_iff hs p⟩
    rw [Gochannel.dispatchMessages_eq hm hget, handleAll_turns]
    rfl
  · intro g env topic msg msg' hs p ⟨handlers, hm, hget⟩ hdec
    obtain rfl : msg = msg' := Option.some.inj hdec
    refine ⟨?_, escalatesAll_local_iff hs p⟩
    rw [Grpcchannel.dispatchMessages_eq hm hget, handleAll_turns]
    rfl
  · intro g env topic msg msg' hs p ⟨handlers, hm, hget⟩ hdec
    refine ⟨?_, Mysqlchannel.escalatesAll_iff hs p⟩
    rw [Mysqlchannel.dispatchMessages_eq hm hget hdec, handleAll_turns]

/-- One handler, which always fails. -/
def failingChannel (backend : B) (retryTimes : ℤ) (errorHandler : Option ℕ) : Channel B S Unit Unit X where
  backend := backend
  handlers := some (ConcurrentMap.new.set (str "order") [()])
  retryTimes := retryTimes
  errorHandler := errorHandler
  loops := []

def alwaysFails (X : Type) : Env Unit Unit X where
  handler _ _ _ _ := some ()
  errorHandler _ _ _ := none

def alwaysFailsRetry : Mysqlchannel.RetryEnv Unit Unit where
  toEnv := alwaysFails _
  newMysqlRetry _ := none
  doAsync _ := none

/-- With one retry, `mysqlchannel` hands the message over. -/
theorem escalation_iff_oneRetry :
    EscalatesAll (alwaysFails _) 1 none created (Mysqlchannel.HandedOver alwaysFailsRetry created)
      (Mysqlchannel.Stored created)
      (Mysqlchannel.retryMessage (failingChannel Mysqlchannel.zeroBackend 1 none) alwaysFailsRetry created)
      [()] ⟨Mysqlchannel.zeroBackend, []⟩ := by
  obtain ⟨_, _, hmysql⟩ := escalation_iff (H := Unit) (E := Unit) Mysqlchannel.plainConv
  have hlaw := hmysql (failingChannel Mysqlchannel.zeroBackend 1 none) alwaysFailsRetry (str "order")
    createdStored created [()] ⟨Mysqlchannel.zeroBackend, []⟩ ⟨_, rfl, rfl⟩ rfl
  exact hlaw.2.mpr (Or.inl Int.one_pos)

/-- **Without retries** the failure is acknowledged and nobody hears of it: neither an error handler nor
    the retry service. -/
theorem not_escalatesAll_noRetries :
    ¬ EscalatesAll (alwaysFails Empty) 0 (some 7) created (fun _ => True) (fun _ => False)
        (Gochannel.retryMessage (failingChannel noClients 0 (some 7)) (alwaysFails Empty) created) [()]
        ⟨noClients, []⟩ ∧
    ¬ EscalatesAll (alwaysFails _) 0 none created (Mysqlchannel.HandedOver alwaysFailsRetry created)
        (Mysqlchannel.Stored created)
        (Mysqlchannel.retryMessage (failingChannel Mysqlchannel.zeroBackend 0 none) alwaysFailsRetry created)
        [()] ⟨Mysqlchannel.zeroBackend, []⟩ := by
  constructor
  · intro hall
    rcases (escalatesAll_local_iff _ _).mp hall with hpos | hnone | hok
    · exact absurd hpos (by decide)
    · exact absurd hnone nofun
    · exact absurd hok.1 nofun
  · intro hall
    rcases (Mysqlchannel.escalatesAll_iff _ _).mp hall with hpos | hok
    · exact absurd hpos (by decide)
    · exact absurd hok.1 nofun

end Watermill
end ServiceKit
