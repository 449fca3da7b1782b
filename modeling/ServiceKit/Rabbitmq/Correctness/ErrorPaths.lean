import ServiceKit.Rabbitmq.Producer

/-!
# `Correctness.ErrorPaths` — what becomes of a channel when the broker refuses

Both functions defer the close of the channel that they open, and both do so before they know that they have one: where
the broker gives no channel, `Close` is called on nil. With a channel every way out closes it, or hands it to the
consumer that runs on (`errorPaths_iff`).
-/

namespace ServiceKit
namespace Rabbitmq

open Lib

variable {E : Type}

/-- The replies of the broker, one for each call. -/
abbrev Outcomes (E : Type) := (c : Call) → Reply E c

/-! ## Calls -/

/-- The channel that a method is called on, where it is nil. -/
def Call.onNil : Call → Bool
  | .channel => false
  | .qos ch .. => ch.isNone
  | .exchangeDeclare ch .. => ch.isNone
  | .queueDeclare ch .. => ch.isNone
  | .publish ch .. => ch.isNone
  | .close ch => ch.isNone

/-- A step of the broker that failed; a close is none. -/
def Outcomes.fails (env : Outcomes E) : Call → Bool
  | .channel => (env .channel).isOk = false
  | .close _ => false
  | .qos ch count size isGlobal => (env (.qos ch count size isGlobal)).isSome
  | .exchangeDeclare ch name kind d a i n => (env (.exchangeDeclare ch name kind d a i n)).isSome
  | .queueDeclare ch name d a x n => (env (.queueDeclare ch name d a x n)).isSome
  | .publish ch exchange key m i msg => (env (.publish ch exchange key m i msg)).isSome

/-! ## Ends -/

/-- The error that was returned, if anything was. -/
def Started.err : Started E → Option (Option (GoErr E))
  | .panicked => none
  | .failed _ err => some (some err)
  | .running _ _ => some none

def Pushed.err : Pushed E → Option (Option (GoErr E))
  | .panicked => none
  | .returned _ err => some err

/-- The channel that a consumer runs on. -/
def Started.consumer : Started E → Option ℕ
  | .running ch _ => some ch
  | _ => none

/-- The error paths of a function that made `calls`, returned `err` and left a consumer running. -/
structure ErrorPathsRight (env : Outcomes E) (calls : List Call) (err : Option (Option (GoErr E)))
    (consumer : Option ℕ) : Prop where
  /-- It returns, with an error exactly when a step that it made failed. -/
  returns : ∃ e, err = some e ∧ (e.isSome = true ↔ ∃ c ∈ calls, env.fails c = true)
  /-- A channel that it opened is closed, unless a consumer runs on it. -/
  closed : ∀ ch, .channel ∈ calls → env .channel = .ok ch → (.close (some ch) ∈ calls ↔ consumer ≠ some ch)
  notNil : ∀ c ∈ calls, c.onNil = false

/-- The broker gives a channel. -/
def Outcomes.Opens (env : Outcomes E) : Prop := ∃ ch, env .channel = .ok ch

variable (env : Outcomes E)

/-- The error paths of a function that pushes. -/
def PushRight (p : Calls E (Pushed E)) : Prop :=
  ErrorPathsRight env (p.answered env).1 (p.answered env).2.err none

def StartRight (p : Calls E (Started E)) : Prop :=
  ErrorPathsRight env (p.answered env).1 (p.answered env).2.err (p.answered env).2.consumer

/-! ## Pushing -/

section Push

variable {env}

/-- A way out past the deferred close, after the channel was opened and `calls` were made on it. -/
theorem closing_right {ch : ℕ} (hopen : env .channel = .ok ch) (calls : List Call) {messageId : GoString}
    {err : Option (GoErr E)} (hnil : ∀ c ∈ calls, c.onNil = false)
    (herr : err.isSome = true ↔ ∃ c ∈ calls, env.fails c = true) :
    ErrorPathsRight env (.channel :: calls ++ [.close (some ch)]) (Pushed.returned messageId err).err none := by
  have hchannel : env.fails .channel = false := by simp [Outcomes.fails, hopen, Except.isOk, Except.toBool]
  constructor
  · have hclose : env.fails (.close (some ch)) = false := by simp [Outcomes.fails]
    refine ⟨err, by simp [Pushed.err], herr.trans ?_⟩
    simp [hchannel, hclose]
  · intro ch' _ hch'
    cases hopen.symm.trans hch'
    simp
  · intro c hc
    simp only [List.cons_append, List.mem_cons, List.mem_append, List.not_mem_nil, or_false] at hc
    rcases hc with rfl | hc | rfl
    · simp [Call.onNil]
    · exact hnil c hc
    · simp [Call.onNil]

theorem answered_closing (ch : ℕ) (ret : Pushed E) :
    (RabbitClient.closing (some ch) ret).answered env = ([.close (some ch)], ret) := by
  simp [RabbitClient.closing]

/-- The one call that declares, and what it returned. -/
theorem answered_declare (env : Outcomes E) (ch : ℕ) (opt : ProducerOption) (f : Option E → Calls E (Pushed E)) :
    ∃ c err, c.onNil = false ∧ env.fails c = err.isSome ∧
      (RabbitClient.declare (some ch) opt >>= f).answered env =
        (c :: ((f err).answered env).1, ((f err).answered env).2) := by
  unfold RabbitClient.declare
  split
  · let c : Call := .exchangeDeclare (some ch) opt.exchange opt.kind true false false false
    exact ⟨c, env c, by simp [c, Call.onNil], by simp [c, Outcomes.fails], by simp [c]⟩
  · let c : Call := .queueDeclare (some ch) opt.queueName true false false false
    exact ⟨c, env c, by simp [c, Call.onNil], by simp [c, Outcomes.fails], by simp [c]⟩

/-- The one call that publishes, and what is returned. -/
theorem answered_publishOn (env : Outcomes E) (isJson : GoString → Bool) (newUUID : GoString) (opt : ProducerOption)
    (ch : ℕ) :
    ∃ c messageId err, c.onNil = false ∧ (err.isSome = true ↔ env.fails c = true) ∧
      (RabbitClient.publishOn isJson newUUID opt (some ch)).answered env =
        ([c, .close (some ch)], .returned messageId err) := by
  unfold RabbitClient.publishOn
  simp only [Program.perform_bind, Program.answered_call]
  refine ⟨.publish (some ch) opt.exchange opt.queueName false false (RabbitClient.publishing isJson newUUID opt), ?_⟩
  cases hpublish : env (.publish (some ch) opt.exchange opt.queueName false false
      (RabbitClient.publishing isJson newUUID opt)) with
  | some err => exact ⟨[], some (.external err), by simp [Call.onNil], by simp [Outcomes.fails, hpublish], by
      simp [answered_closing]⟩
  | none => exact ⟨(RabbitClient.publishing isJson newUUID opt).messageId, none, by simp [Call.onNil], by
      simp [Outcomes.fails, hpublish], by simp [answered_closing]⟩

/-- **With a channel,** every way out closes it. -/
theorem pushOn_right (isJson : GoString → Bool) (newUUID : GoString) (opt : ProducerOption) {ch : ℕ}
    (hopen : env .channel = .ok ch) :
    ErrorPathsRight env (.channel :: ((RabbitClient.pushOn isJson newUUID opt (some ch)).answered env).1)
      ((RabbitClient.pushOn isJson newUUID opt (some ch)).answered env).2.err none := by
  unfold RabbitClient.pushOn
  obtain ⟨c, err, hnil, hfails, hrun⟩ := answered_declare env ch opt fun err =>
    RabbitClient.declared isJson newUUID opt (some ch) err
  rw [hrun]
  cases err with
  | some err =>
      simp only [RabbitClient.declared, answered_closing]
      exact closing_right hopen [c] (by simpa using hnil) (by simpa using hfails)
  | none =>
      obtain ⟨c', messageId, err', hnil', herr, hpublish⟩ :=
        answered_publishOn env isJson newUUID opt ch
      simp only [RabbitClient.declared, hpublish]
      have hboth : ∀ d ∈ [c, c'], d.onNil = false := by
        simp [hnil, hnil']
      exact closing_right hopen [c, c'] hboth (by simpa [hfails] using herr)

/-- Pushing a message with a queue and a content, on a connected client. -/
theorem commPushMessage_right_iff (isJson : GoString → Bool) (newUUID : GoString) {opt : ProducerOption}
    (hqueue : opt.queueName ≠ []) (hcontent : opt.content ≠ []) :
    PushRight env (RabbitClient.commPushMessage isJson newUUID true opt) ↔ env.Opens := by
  have hpush : RabbitClient.commPushMessage (E := E) isJson newUUID true opt =
      .call .channel fun
        | .error err => RabbitClient.closing none (.returned [] (some (.external err)))
        | .ok ch => RabbitClient.pushOn isJson newUUID opt (some ch) := by
    simp [RabbitClient.commPushMessage, hqueue, hcontent]
    rfl
  rw [PushRight, hpush, Program.answered_call]
  cases hopen : env .channel with
  | error err =>
      -- the deferred call is made on the nil channel
      refine iff_of_false ?_ (by simp [Outcomes.Opens, hopen])
      rintro ⟨-, -, hnil⟩
      have hclose := hnil (.close none) (by simp [RabbitClient.closing])
      simp [Call.onNil] at hclose
  | ok ch => exact iff_of_true (pushOn_right isJson newUUID opt hopen) ⟨ch, hopen⟩

end Push

/-! ## Starting a consumer -/

/-- The calls of `StartConsumer` end as `startConsumer` says. -/
theorem answered_startConsumerCalls :
    ((RabbitClient.startConsumerCalls : Calls E (Started E)).answered env).2 =
      RabbitClient.startConsumer (env .channel) (match env .channel with
        | .error _ => none
        | .ok ch => env (.qos (some ch) prefetchCount 0 false)) := by
  simp only [RabbitClient.startConsumerCalls, Program.perform_bind, Program.answered_call, RabbitClient.startConsumer]
  cases env .channel with
  | error err => simp
  | ok ch =>
      simp only [Program.answered_call]
      cases env (.qos (some ch) prefetchCount 0 false) with
      | some err => simp
      | none => simp

theorem startConsumer_right_iff :
    StartRight env (RabbitClient.startConsumerCalls : Calls E (Started E)) ↔ env.Opens := by
  rw [StartRight]
  simp only [RabbitClient.startConsumerCalls, Program.perform_bind, Program.answered_call]
  cases hopen : env .channel with
  | error err =>
      refine iff_of_false ?_ (by simp [Outcomes.Opens, hopen])
      rintro ⟨-, -, hnil⟩
      have hclose := hnil (.close none) (by simp)
      simp [Call.onNil] at hclose
  | ok ch =>
      refine iff_of_true ?_ ⟨ch, hopen⟩
      simp only [Program.answered_call]
      cases hqos : env (.qos (some ch) prefetchCount 0 false) with
      | some err =>
          constructor
          · exact ⟨_, Eq.refl _, by simp [Outcomes.fails, hqos]⟩
          · intro ch' _ hch'
            cases hopen.symm.trans hch'
            simp [Started.consumer]
          · simp [Call.onNil]
      | none =>
          constructor
          · exact ⟨_, Eq.refl _, by simp [Outcomes.fails, hqos, hopen, Except.isOk, Except.toBool]⟩
          · intro ch' _ hch'
            cases hopen.symm.trans hch'
            simp [Started.consumer]
          · simp [Call.onNil]

/-- **Error paths.** Each of the three functions is right exactly when the broker gives it a channel. -/
theorem errorPaths_iff (isJson : GoString → Bool) (newUUID : GoString) (opt : ProducerOption)
    (hqueue : opt.queueName ≠ []) (hcontent : opt.content ≠ []) :
    (StartRight env RabbitClient.startConsumerCalls ↔ env.Opens) ∧
      (PushRight env (RabbitClient.produceMessage isJson newUUID true (some opt)) ↔ env.Opens) ∧
      (PushRight env (RabbitClient.produceMessageWithExchange isJson newUUID true (some opt)) ↔ env.Opens) := by
  refine ⟨startConsumer_right_iff env, ?_, ?_⟩
  · exact commPushMessage_right_iff isJson newUUID hqueue hcontent
  · apply commPushMessage_right_iff isJson newUUID
    · split
      · exact hqueue
      · exact hqueue
    · split
      · exact hcontent
      · exact hcontent

/-- An order. -/
def order : ProducerOption := ⟨str "orders", [], str "first", [], []⟩

/-- A broker that refuses what `refuses` says, with its only error, and gives channel 0. -/
def brokerRefusing (refuses : Call → Bool) : Outcomes Unit
  | .channel => if refuses .channel then .error () else .ok 0
  | .qos ch count size isGlobal => if refuses (.qos ch count size isGlobal) then some () else none
  | .exchangeDeclare ch name kind d a i n => if refuses (.exchangeDeclare ch name kind d a i n) then some () else none
  | .queueDeclare ch name d a x n => if refuses (.queueDeclare ch name d a x n) then some () else none
  | .publish ch exchange key m i msg => if refuses (.publish ch exchange key m i msg) then some () else none
  | .close _ => none

/-- The queue is refused: the error is returned and the channel closed. -/
theorem errorPaths_order :
    PushRight (brokerRefusing fun c => c = .queueDeclare (some 0) (str "orders") true false false false)
      (RabbitClient.produceMessage (fun _ => false) (str "id") true (some order)) := by
  have hopen : Outcomes.Opens
      (brokerRefusing fun c => c = .queueDeclare (some 0) (str "orders") true false false false) := ⟨0, by decide⟩
  exact (errorPaths_iff _ (fun _ => false) (str "id") order (by decide) (by decide)).2.1.mpr hopen

/-- **No channel.** All three functions call `Close` on nil. -/
theorem errorPaths_order_fails :
    ¬StartRight (brokerRefusing fun c => c = .channel) RabbitClient.startConsumerCalls ∧
      ¬PushRight (brokerRefusing fun c => c = .channel)
        (RabbitClient.produceMessage (fun _ => false) (str "id") true (some order)) ∧
      ¬PushRight (brokerRefusing fun c => c = .channel)
        (RabbitClient.produceMessageWithExchange (fun _ => false) (str "id") true (some order)) := by
  refine ⟨?_, ?_, ?_⟩
  · rintro ⟨-, -, hnil⟩
    exact absurd (hnil (.close none) (by decide)) (by decide)
  · rintro ⟨-, -, hnil⟩
    exact absurd (hnil (.close none) (by decide)) (by decide)
  · rintro ⟨-, -, hnil⟩
    exact absurd (hnil (.close none) (by decide)) (by decide)

end Rabbitmq
end ServiceKit
