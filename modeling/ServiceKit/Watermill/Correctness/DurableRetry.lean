import ServiceKit.Watermill.Mysqlchannel

/-!
# `Correctness.DurableRetry` — what the retry service replays

`mysqlRetryMessage` stores a record per failure, but every failure of a consumer group registers its
callback under the same namespace and type, and the callback holds the handler and the message of its own
failure. The service keeps one callback per key, the first or the last (`Keep`). So a replay serves a
record with its own handler and message exactly when the failure kept has the same ones
(`replay_own_iff`).
-/

namespace ServiceKit
namespace Watermill
namespace Mysqlchannel

open Lib

variable {H E : Type}

/-! ## The service -/

/-- Which of the callbacks registered under one key the service keeps. -/
inductive Keep where
  | first
  | last
  deriving DecidableEq

def Keep.pick {α : Type} : Keep → List α → Option α
  | .first, l => l.head?
  | .last, l => l.getLast?

theorem Keep.pick_map {α β : Type} (keep : Keep) (f : α → β) (l : List α) :
    keep.pick (l.map f) = (keep.pick l).map f := by
  cases keep with
  | first => exact List.head?_map
  | last => exact List.getLast?_map

/-- The callbacks registered under one key, in order. -/
def registrations (nameSpace retryType : GoString) (tr : MTrace H E) : List (Callback H) :=
  tr.filterMap (fun e => match e with
    | .backend (.register ns ty cb) => if ns = nameSpace ∧ ty = retryType then some cb else none
    | _ => none)

/-- The records stored. -/
def records (tr : MTrace H E) : List RetryRecord :=
  tr.filterMap (fun e => match e with
    | .backend (.doAsync rec none) => some rec
    | _ => none)

/-- Replay a record: the handler call made, if any. `nameSpace` is the one the service looks its type up
    in. -/
def replay (keep : Keep) (nameSpace : GoString) (tr : MTrace H E) (rec : RetryRecord) :
    Option (H × GoString × GoString) :=
  (keep.pick (registrations nameSpace rec.retryType tr)).bind (fun cb => cb.call rec.msgId rec.msgData)

/-! ## Runs of failures -/

/-- A failure handed to `mysqlRetryMessage`, with the errors of `NewMysqlRetry` and `DoAsync`. -/
structure Failure (H E : Type) where
  msg : Message
  handler : H
  retError : MultiErr E
  newMysqlRetry : Option E
  doAsync : Option E
  deriving DecidableEq

namespace Failure

def env (f : Failure H E) : RetryEnv H E :=
  { handler := fun _ _ _ _ => none
    errorHandler := fun _ _ _ => none
    newMysqlRetry := fun _ => f.newMysqlRetry
    doAsync := fun _ => f.doAsync }

def callback (f : Failure H E) : Callback H := ⟨f.handler, f.msg⟩

def record (consumerGroup : GoString) (f : Failure H E) : RetryRecord :=
  ⟨consumerGroup, f.msg.uuid, f.msg.payload⟩

end Failure

/-- Where the Channel stands, and the records stored so far, each with the failure it was stored for. -/
structure RetryRun (H E : Type) where
  progress : Progress Backend H E (RetryEvent H E)
  stored : List (Failure H E × RetryRecord)

def RetryRun.handOver (r : RetryRun H E) (f : Failure H E) : RetryRun H E :=
  let p := (mysqlRetryMessage f.env f.msg f.handler f.retError r.progress).2
  { progress := p
    stored := r.stored ++ (records (p.trace.drop r.progress.trace.length)).map (fun rec => (f, rec)) }

/-- Hand over the failures one by one, on a Channel that has no retry service yet. -/
def retryRun (b : Backend) (fs : List (Failure H E)) : RetryRun H E :=
  fs.foldl RetryRun.handOver ⟨⟨{ b with retryService := none }, []⟩, []⟩

/-- The failures that get to `Register`: all from the first whose `NewMysqlRetry` succeeds. -/
def registering (fs : List (Failure H E)) : List (Failure H E) :=
  fs.dropWhile (fun f => f.newMysqlRetry.isSome)

theorem registering_concat (fs : List (Failure H E)) (f : Failure H E) :
    registering (fs ++ [f]) =
      if registering fs = [] ∧ f.newMysqlRetry.isSome then [] else registering fs ++ [f] := by
  unfold registering
  rw [List.dropWhile_append]
  cases hfs : fs.dropWhile (fun f => f.newMysqlRetry.isSome) with
  | nil =>
      cases hf : f.newMysqlRetry with
      | none => simp [hf]
      | some err => simp [hf]
  | cons g gs => simp

/-! ## One failure -/

/-- Whatever the outcomes depend on, a call of `mysqlRetryMessage` meets two of them, so it is the hand-over
    of a failure. -/
theorem mysqlRetryMessage_failure (env : RetryEnv H E) (msg : Message) (h : H) (err : MultiErr E)
    (p : Progress Backend H E (RetryEvent H E)) :
    ∃ f : Failure H E, f.msg = msg ∧ f.handler = h ∧ f.retError = err ∧
      mysqlRetryMessage env msg h err p = mysqlRetryMessage f.env f.msg f.handler f.retError p := by
  have hens : ∀ doAsync, ensureRetryService
      (Failure.env ⟨msg, h, err, env.newMysqlRetry p.trace, doAsync⟩) p = ensureRetryService env p := by
    intro doAsync
    unfold ensureRetryService Failure.env
    rfl
  cases hres : ensureRetryService env p with
  | mk r p' =>
      -- the trace at which `DoAsync` is called
      let tr := (p'.log (.backend (.register p'.backend.nameSpace p'.backend.consumerGroup ⟨h, msg⟩))).trace
      refine ⟨⟨msg, h, err, env.newMysqlRetry p.trace, env.doAsync tr⟩, rfl, rfl, rfl, ?_⟩
      unfold mysqlRetryMessage
      rw [hens, hres]
      cases r with
      | some e => rfl
      | none => rfl

section Step

variable (f : Failure H E) (p : Progress Backend H E (RetryEvent H E))

/-- The events of a failure that gets to `Register`. -/
def Failure.events (nameSpace consumerGroup : GoString) (f : Failure H E) : MTrace H E :=
  [.backend (.register nameSpace consumerGroup f.callback),
    .backend (.doAsync (f.record consumerGroup) f.doAsync)]

/-- Without a service, and when none can be made, nothing is registered and nothing stored. -/
theorem mysqlRetryMessage_none (hno : p.backend.retryService = none) (hf : f.newMysqlRetry.isSome) :
    (mysqlRetryMessage f.env f.msg f.handler f.retError p).2
      = p.log (.backend (.newMysqlRetry (retryConfig p.backend) f.newMysqlRetry)) := by
  obtain ⟨err, herr⟩ := Option.isSome_iff_exists.mp hf
  have hens : ensureRetryService f.env p
      = (some err, p.log (.backend (.newMysqlRetry (retryConfig p.backend) f.newMysqlRetry))) := by
    unfold ensureRetryService
    simp only [hno, Failure.env, herr]
  rw [mysqlRetryMessage, hens]

/-- The rest of the function: register the callback, then store the record. -/
theorem mysqlRetryMessage_of_ensure {p' : Progress Backend H E (RetryEvent H E)}
    (hens : ensureRetryService f.env p = (none, p')) :
    (mysqlRetryMessage f.env f.msg f.handler f.retError p).2
      = ⟨p'.backend, p'.trace ++ f.events p'.backend.nameSpace p'.backend.consumerGroup⟩ := by
  rw [mysqlRetryMessage, hens]
  have hdo : ∀ tr, f.env.doAsync tr = f.doAsync := fun _ => rfl
  simp only [hdo]
  cases hres : f.doAsync with
  | none => simp [Failure.events, Failure.callback, Failure.record, Progress.log, hres]
  | some err => simp [Failure.events, Failure.callback, Failure.record, Progress.log, hres]

/-- With a service, or when one can be made, the failure does both. -/
theorem mysqlRetryMessage_some (h : p.backend.retryService ≠ none ∨ f.newMysqlRetry = none) :
    ∃ conf pre, (mysqlRetryMessage f.env f.msg f.handler f.retError p).2 =
        ⟨{ p.backend with retryService := some conf },
          p.trace ++ (pre ++ f.events p.backend.nameSpace p.backend.consumerGroup)⟩ ∧
      records pre = [] ∧ ∀ nameSpace retryType, registrations nameSpace retryType pre = [] := by
  cases hserv : p.backend.retryService with
  | some conf =>
      have hens : ensureRetryService f.env p = (none, p) := by
        unfold ensureRetryService
        rw [hserv]
      refine ⟨conf, [], ?_, rfl, fun _ _ => rfl⟩
      rw [mysqlRetryMessage_of_ensure f p hens, ← hserv]
      rfl
  | none =>
      have hnew : f.newMysqlRetry = none := h.resolve_left (fun hne => hne hserv)
      have hens : ensureRetryService f.env p = (none,
          ⟨{ p.backend with retryService := some (retryConfig p.backend) },
            p.trace ++ [.backend (.newMysqlRetry (retryConfig p.backend) none), .backend .start]⟩) := by
        unfold ensureRetryService
        simp only [hserv, Failure.env, hnew]
        simp [Progress.log]
      refine ⟨retryConfig p.backend, [.backend (.newMysqlRetry (retryConfig p.backend) none),
        .backend .start], ?_, rfl, fun _ _ => rfl⟩
      rw [mysqlRetryMessage_of_ensure f p hens, List.append_assoc]

end Step

theorem registrations_events (nameSpace consumerGroup : GoString) (f : Failure H E)
    (ns retryType : GoString) :
    registrations ns retryType (f.events nameSpace consumerGroup)
      = if nameSpace = ns ∧ consumerGroup = retryType then [f.callback] else [] := by
  unfold registrations Failure.events
  split
  · next h => simp [h]
  · next h => simp [h]

theorem records_events (nameSpace consumerGroup : GoString) (f : Failure H E) :
    records (f.events nameSpace consumerGroup)
      = if f.doAsync = none then [f.record consumerGroup] else [] := by
  unfold records Failure.events
  cases f.doAsync with
  | none => rfl
  | some err => rfl

theorem registrations_append (ns retryType : GoString) (tr tr' : MTrace H E) :
    registrations ns retryType (tr ++ tr')
      = registrations ns retryType tr ++ registrations ns retryType tr' :=
  List.filterMap_append

theorem records_append (tr tr' : MTrace H E) : records (tr ++ tr') = records tr ++ records tr' :=
  List.filterMap_append

/-! ## Runs -/

/-- **What a run leaves behind**: under the one key of the Channel, the callbacks of the failures that got
    to `Register`; and a record for each of them whose `DoAsync` succeeded. -/
structure RunSpec (b : Backend) (fs : List (Failure H E)) (r : RetryRun H E) : Prop where
  nameSpace : r.progress.backend.nameSpace = b.nameSpace
  consumerGroup : r.progress.backend.consumerGroup = b.consumerGroup
  service : r.progress.backend.retryService = none ↔ registering fs = []
  registrations : ∀ ns retryType, registrations ns retryType r.progress.trace =
    if b.nameSpace = ns ∧ b.consumerGroup = retryType then (registering fs).map Failure.callback else []
  stored : r.stored = ((registering fs).filter (fun f => f.doAsync.isNone)).map
    (fun f => (f, f.record b.consumerGroup))

theorem RunSpec.handOver {b : Backend} {fs : List (Failure H E)} {r : RetryRun H E}
    (h : RunSpec b fs r) (f : Failure H E) : RunSpec b (fs ++ [f]) (r.handOver f) := by
  by_cases hno : registering fs = [] ∧ f.newMysqlRetry.isSome
  · -- the service cannot be made: the failure leaves no trace but the attempt
    have hreg : registering (fs ++ [f]) = registering fs := by
      rw [registering_concat, if_pos hno, hno.1]
    have hp := mysqlRetryMessage_none f r.progress (h.service.mpr hno.1) hno.2
    have hrecords : records ((r.handOver f).progress.trace.drop r.progress.trace.length) = [] := by
      rw [RetryRun.handOver, hp, Progress.log_trace, List.drop_left]
      rfl
    refine ⟨?_, ?_, ?_, ?_, ?_⟩
    · rw [RetryRun.handOver, hp]; exact h.nameSpace
    · rw [RetryRun.handOver, hp]; exact h.consumerGroup
    · rw [RetryRun.handOver, hp, hreg]; exact h.service
    · intro ns retryType
      rw [RetryRun.handOver, hp, hreg, Progress.log_trace, registrations_append, h.registrations]
      exact List.append_nil _
    · show r.stored ++ (records ((r.handOver f).progress.trace.drop _)).map _ = _
      rw [hrecords, hreg, List.map_nil, List.append_nil]
      exact h.stored
  · -- the failure registers and stores
    have hreg : registering (fs ++ [f]) = registering fs ++ [f] := by
      rw [registering_concat, if_neg hno]
    have hsome : r.progress.backend.retryService ≠ none ∨ f.newMysqlRetry = none := by
      rw [ne_eq, h.service]
      cases hf : f.newMysqlRetry with
      | none => exact Or.inr rfl
      | some err => exact Or.inl (fun hnil => hno ⟨hnil, by rw [hf]; rfl⟩)
    obtain ⟨conf, pre, hp, hpre, hpre'⟩ := mysqlRetryMessage_some f r.progress hsome
    rw [h.nameSpace, h.consumerGroup] at hp
    have hrecords : records ((r.handOver f).progress.trace.drop r.progress.trace.length)
        = if f.doAsync = none then [f.record b.consumerGroup] else [] := by
      rw [RetryRun.handOver, hp, List.drop_left, records_append, hpre, records_events]
      rfl
    refine ⟨?_, ?_, ?_, ?_, ?_⟩
    · rw [RetryRun.handOver, hp]; exact h.nameSpace
    · rw [RetryRun.handOver, hp]; exact h.consumerGroup
    · rw [RetryRun.handOver, hp, hreg]; simp
    · intro ns retryType
      rw [RetryRun.handOver, hp, hreg, registrations_append, registrations_append, h.registrations,
        hpre', registrations_events]
      split
      · simp
      · rfl
    · show r.stored ++ (records ((r.handOver f).progress.trace.drop _)).map _ = _
      rw [hrecords, hreg, List.filter_append, List.map_append, h.stored]
      cases hdo : f.doAsync with
      | none => simp [hdo]
      | some err => simp [hdo]

theorem retryRun_spec (b : Backend) (fs : List (Failure H E)) : RunSpec b fs (retryRun b fs) := by
  induction fs using List.reverseRec with
  | nil =>
      refine ⟨rfl, rfl, by simp [retryRun, registering], ?_, rfl⟩
      intro ns retryType
      simp [retryRun, registering, Mysqlchannel.registrations]
  | append_singleton fs f ih =>
      rw [retryRun, List.foldl_concat]
      exact ih.handOver f

/-- Running a callback makes the call of `f` exactly when it holds the handler and message of `f`, and
    neither the id nor the payload is empty. -/
theorem call_eq_iff (cb : Callback H) (h : H) (msgId msgData : GoString) :
    cb.call msgId msgData = some (h, msgId, msgData) ↔
      msgId ≠ [] ∧ msgData ≠ [] ∧ cb.handler = h ∧ cb.msg.uuid = msgId ∧ cb.msg.payload = msgData := by
  unfold Callback.call
  split
  · next hne => simp [hne]
  · next hne =>
      constructor
      · nofun
      · rintro ⟨h₁, h₂, _⟩
        exact absurd ⟨h₁, h₂⟩ hne

/-- **When replays are right.** After any sequence of failures, every stored record is replayed to the
    handler that failed on it, with its own id and payload, exactly when the service looks it up where the
    Channel registered, and the failure whose callback is kept has the same handler, id and payload, the
    last two not empty. -/
theorem replay_own_iff (keep : Keep) (nameSpace : GoString) (b : Backend) (fs : List (Failure H E)) :
    (∀ f rec, (f, rec) ∈ (retryRun b fs).stored →
      replay keep nameSpace (retryRun b fs).progress.trace rec = some (f.handler, rec.msgId, rec.msgData)) ↔
    ∀ f ∈ registering fs, f.doAsync = none →
      nameSpace = b.nameSpace ∧ f.msg.uuid ≠ [] ∧ f.msg.payload ≠ [] ∧
      ∃ kept, keep.pick (registering fs) = some kept ∧ kept.handler = f.handler ∧
        kept.msg.uuid = f.msg.uuid ∧ kept.msg.payload = f.msg.payload := by
  have hspec := retryRun_spec b fs
  have hreplay : ∀ f : Failure H E, replay keep nameSpace (retryRun b fs).progress.trace
        (f.record b.consumerGroup) = some (f.handler, f.msg.uuid, f.msg.payload) ↔
      nameSpace = b.nameSpace ∧ f.msg.uuid ≠ [] ∧ f.msg.payload ≠ [] ∧
      ∃ kept, keep.pick (registering fs) = some kept ∧ kept.handler = f.handler ∧
        kept.msg.uuid = f.msg.uuid ∧ kept.msg.payload = f.msg.payload := by
    intro f
    unfold replay
    rw [hspec.registrations]
    -- the service finds the Channel's callbacks, or none
    by_cases hns : b.nameSpace = nameSpace
    · rw [if_pos ⟨hns, rfl⟩, Keep.pick_map]
      cases hkept : keep.pick (registering fs) with
      | none => simp
      | some kept =>
          have hcall := call_eq_iff kept.callback f.handler f.msg.uuid f.msg.payload
          simp only [Failure.callback] at hcall
          simp [Failure.record, Failure.callback, hcall, hns]
    · rw [if_neg (fun h => hns h.1)]
      constructor
      · intro h
        cases keep <;> exact absurd h nofun
      · rintro ⟨h, _⟩
        exact absurd h.symm hns
  constructor
  · -- a failure whose `DoAsync` succeeded has a record
    intro hall f hf hdo
    have hmem : (f, f.record b.consumerGroup) ∈ (retryRun b fs).stored := by
      rw [hspec.stored]
      exact List.mem_map.mpr ⟨f, List.mem_filter.mpr ⟨hf, by rw [hdo]; rfl⟩, rfl⟩
    exact (hreplay f).mp (hall f _ hmem)
  · intro hall f rec hmem
    rw [hspec.stored] at hmem
    obtain ⟨f', hf', heq⟩ := List.mem_map.mp hmem
    obtain ⟨rfl, rfl⟩ := Prod.mk.inj heq
    obtain ⟨hreg, hdo⟩ := List.mem_filter.mp hf'
    exact (hreplay f').mpr (hall f' hreg (Option.isNone_iff_eq_none.mp hdo))

/-- A Channel of namespace `onlyone` and consumer group `default`. -/
def onlyone : Backend :=
  { zeroBackend with sqlDb := true, nameSpace := str "onlyone", consumerGroup := str "default" }

/-- Two failures, of two messages and two handlers. -/
def twoFailures : List (Failure ℕ Unit) :=
  [⟨⟨0, str "axeee", str "hello aaaa"⟩, 0, [()], none, none⟩,
    ⟨⟨1, str "bxeee", str "hello bbbb"⟩, 1, [()], none, none⟩]

/-- Whichever callback is kept, one of two records is replayed to the wrong handler. -/
theorem replay_not_own :
    (¬ ∀ f rec, (f, rec) ∈ (retryRun onlyone twoFailures).stored →
      replay .first (str "onlyone") (retryRun onlyone twoFailures).progress.trace rec
        = some (f.handler, rec.msgId, rec.msgData)) ∧
    (¬ ∀ f rec, (f, rec) ∈ (retryRun onlyone twoFailures).stored →
      replay .last (str "onlyone") (retryRun onlyone twoFailures).progress.trace rec
        = some (f.handler, rec.msgId, rec.msgData)) := by
  constructor
  · intro h
    have hsecond := h ⟨⟨1, str "bxeee", str "hello bbbb"⟩, 1, [()], none, none⟩
      ⟨str "default", str "bxeee", str "hello bbbb"⟩ (by decide)
    exact absurd hsecond (by decide)
  · intro h
    have hfirst := h ⟨⟨0, str "axeee", str "hello aaaa"⟩, 0, [()], none, none⟩
      ⟨str "default", str "axeee", str "hello aaaa"⟩ (by decide)
    exact absurd hfirst (by decide)

end Mysqlchannel
end Watermill
end ServiceKit
