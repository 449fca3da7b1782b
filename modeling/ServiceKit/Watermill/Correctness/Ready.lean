import ServiceKit.Watermill.Correctness.Steps

/-!
# `Correctness.Ready` — a Channel whose maps exist keeps them

`Ready P g`: the registry map of `g` exists, and its backend meets `P` (the backend's own map exists, the
address is set, the database is open). Every step keeps it; and the only stops left are the `log.Fatalf`
of `grpcchannel` and, in `mysqlchannel`, a `Close` before the publisher was made (`step_ready`). From such
a state a `Subscribe` whose external calls succeed returns nil (`subscribe_ok`).
-/

namespace ServiceKit
namespace Watermill

open Lib

variable {B S H E X : Type}

/-- The registry map exists and the backend meets `P`. -/
structure Ready (P : B → Prop) (g : Channel B S H E X) : Prop where
  handlers : ∃ m, g.handlers = some m
  backend : P g.backend

/-! ## What handling a message does to the backend -/

section Bodies

variable {P : B → Prop} (env : Env H E X) (msg : Message)

theorem retryLoop_backend (h : H) (i : ℕ) (retError : Option (MultiErr E)) (p : Progress B H E X) :
    (retryLoop env h msg i retError p).2.backend = p.backend := by
  induction i generalizing retError p with
  | zero => rfl
  | succ i ih =>
      rw [retryLoop, invoke]
      cases env.handler p.trace h msg.uuid msg.payload with
      | none => rfl
      | some err => exact ih _ _

variable {giveUp : MultiErr E → Progress B H E X → Option (MultiErr E) × Progress B H E X}

theorem retryMessageWith_keeps (hgive : ∀ err p, P p.backend → P (giveUp err p).2.backend)
    (retryTimes : ℤ) (errorHandler : Option ℕ) (h : H) (oldError : MultiErr E) (p : Progress B H E X)
    (hp : P p.backend) :
    P (retryMessageWith giveUp retryTimes errorHandler env msg h oldError p).2.backend := by
  unfold retryMessageWith
  split
  · exact hp
  · have hloop := retryLoop_backend env msg h retryTimes.toNat none p
    cases hres : retryLoop env h msg retryTimes.toNat none p with
    | mk r p' =>
        have hp' : P p'.backend := by
          rw [hres] at hloop
          rw [hloop]
          exact hp
        rcases r with _ | _ | retError
        · exact hp'
        · exact hp'
        · cases errorHandler with
          | none => exact hgive _ _ hp'
          | some eh =>
              dsimp only
              split
              · exact hp'
              · exact hgive _ _ hp'

variable {retryMessage : H → MultiErr E → Progress B H E X → Option (MultiErr E) × Progress B H E X}

theorem handleAll_keeps (hretry : ∀ h err p, P p.backend → P (retryMessage h err p).2.backend)
    (hs : List H) (retError : Option (MultiErr E)) (p : Progress B H E X) (hp : P p.backend) :
    P (handleAll retryMessage env msg hs retError p).2.backend := by
  -- over the handlers: each call is logged, which leaves the backend alone, or retried
  induction hs generalizing retError p with
  | nil => exact hp
  | cons h hs ih =>
      rw [handleAll, invoke]
      cases env.handler p.trace h msg.uuid msg.payload with
      | none => exact ih _ _ hp
      | some err =>
          have hr := hretry h [err] (p.log (.handle h msg.uuid msg.payload (some err))) hp
          dsimp only
          cases hres : retryMessage h [err] (p.log (.handle h msg.uuid msg.payload (some err))) with
          | mk r p' =>
              rw [hres] at hr
              cases r with
              | none => exact ih _ _ hr
              | some err' => exact ih _ _ hr

theorem handleNew_keeps (hretry : ∀ h err p, P p.backend → P (retryMessage h err p).2.backend) (h : H)
    (p : Progress B H E X) (hp : P p.backend) : P (handleNew retryMessage env msg h p).backend := by
  rw [handleNew, invoke]
  cases env.handler p.trace h msg.uuid msg.payload with
  | none => exact hp
  | some err =>
      have hr := hretry h [err] (p.log (.handle h msg.uuid msg.payload (some err))) hp
      dsimp only
      cases hres : retryMessage h [err] (p.log (.handle h msg.uuid msg.payload (some err))) with
      | mk r p' =>
          rw [hres] at hr
          cases r with
          | none => exact hr
          | some err' => exact hr

end Bodies

/-! ## The shared operations -/

section Shared

variable {P : B → Prop} {R : Stop → Prop} {g : Channel B S H E X}
  {openSource : B → Except Stop (Except (GoErr E) S × B)} {topic : GoString} {h : H}

theorem subscribeWith_ready (hr : Ready P g)
    (hopen : Ends (fun r => P r.2) R (openSource g.backend)) :
    Ends (fun r => Ready P r.2) R (g.subscribeWith openSource topic h) := by
  obtain ⟨m, hm⟩ := hr.handlers
  have hmap : Ends (fun _ => True) R (useMap g.handlers) := by
    rw [hm]
    trivial
  unfold Channel.subscribeWith
  apply hmap.bind
  intro handlers _
  cases handlers.get topic with
  | some old => exact ⟨⟨_, rfl⟩, hr.backend⟩
  | none =>
      apply hopen.bind
      rintro ⟨messages, backend⟩ hb
      cases messages with
      | error err => exact ⟨⟨m, hm⟩, hb⟩
      | ok source => exact ⟨⟨_, rfl⟩, hb⟩

theorem subscribeNewWith_ready (hr : Ready P g)
    (hopen : Ends (fun r => P r.2) R (openSource g.backend)) :
    Ends (fun r => Ready P r.2) R (g.subscribeNewWith openSource topic h) := by
  unfold Channel.subscribeNewWith
  apply hopen.bind
  rintro ⟨messages, backend⟩ hb
  cases messages with
  | error err => exact ⟨hr.handlers, hb⟩
  | ok source => exact ⟨hr.handlers, hb⟩

theorem deliverWith_ready (hr : Ready P g) {l : ℕ} {msg : Message}
    {body : Channel B S H E X → Loop S H E X → Progress B H E X → Except Stop (Progress B H E X)}
    (hbody : ∀ loop p, P p.backend → Ends (fun p' => P p'.backend) R (body g loop p)) :
    Ends (Ready P) R (g.deliverWith body l msg) := by
  unfold Channel.deliverWith
  cases g.loops[l]? with
  | none => exact hr
  | some loop =>
      apply (hbody loop _ hr.backend).bind
      intro p hp
      exact ⟨hr.handlers, hp⟩

/-- Once the subscription can be opened, `Subscribe` returns nil. -/
theorem subscribeWith_ok (hr : Ready P g) {source : S} {backend : B}
    (hopen : openSource g.backend = .ok (.ok source, backend)) :
    ∃ g', g.subscribeWith openSource topic h = .ok (none, g') := by
  obtain ⟨m, hm⟩ := hr.handlers
  unfold Channel.subscribeWith
  rw [hm, useMap_some, hopen]
  simp only [bind, Except.bind]
  cases m.get topic with
  | some old => exact ⟨_, rfl⟩
  | none => exact ⟨_, rfl⟩

end Shared

/-! ## gochannel -/

namespace Gochannel

theorem defaultNamespace_eq (g : Backend) : defaultNamespace g =
    { g with nameSpace := if g.nameSpace = [] then str "default" else g.nameSpace } := by
  unfold defaultNamespace
  split
  · rfl
  · rfl

theorem defaultBuffer_eq (g : Backend) : defaultBuffer g =
    { g with outputChannelBuffer := if g.outputChannelBuffer ≤ 0 then 100 else g.outputChannelBuffer } := by
  unfold defaultBuffer
  split
  · rfl
  · rfl

/-- The key under which `getClient` looks its client up. -/
def clientKey (ns : GoString) (g : Backend) : GoString := if ns = [] then g.consumerGroup else ns

/-- What `getClient` does when the map exists: it finds the client of its key, or makes one. -/
structure GotClient (ns : GoString) (g : Backend) (m : ConcurrentMap GoString ℕ) (client : ℕ)
    (g' : Backend) : Prop where
  nameSpace : g'.nameSpace = if g.nameSpace = [] then str "default" else g.nameSpace
  consumerGroup : g'.consumerGroup = g.consumerGroup
  returned : g'.returned = g.returned ++ [client]
  found : (m.get (clientKey ns g) = some client ∧ g'.clientMap = some m ∧ g'.clients = g.clients) ∨
    (m.get (clientKey ns g) = none ∧ client = g.clients.length ∧
      g'.clientMap = some (m.set (clientKey ns g) client) ∧ g'.clients.length = g.clients.length + 1)

theorem getClient_spec (ns : GoString) {g : Backend} {m : ConcurrentMap GoString ℕ}
    (hm : g.clientMap = some m) :
    ∃ client g', getClient ns g = .ok (client, g') ∧ GotClient ns g m client g' := by
  unfold getClient
  rw [defaultNamespace_eq]
  dsimp only
  rw [hm, useMap_some]
  simp only [bind, Except.bind, defaultBuffer_eq]
  cases hget : m.get (if ns = [] then g.consumerGroup else ns) with
  | some client => exact ⟨client, _, rfl, rfl, rfl, rfl, Or.inl ⟨hget, rfl, rfl⟩⟩
  | none => exact ⟨_, _, rfl, rfl, rfl, rfl, Or.inr ⟨hget, rfl, rfl, by simp⟩⟩

/-- The client map exists. -/
def HasClientMap (g : Backend) : Prop := ∃ m, g.clientMap = some m

theorem getClient_ready {ns : GoString} {g : Backend} (hg : HasClientMap g) (R : Stop → Prop) :
    Ends (fun r => HasClientMap r.2) R (getClient ns g) := by
  obtain ⟨m, hm⟩ := hg
  obtain ⟨client, g', hres, hgot⟩ := getClient_spec ns hm
  rw [hres]
  rcases hgot.found with ⟨_, hm', _⟩ | ⟨_, _, hm', _⟩
  · exact ⟨_, hm'⟩
  · exact ⟨_, hm'⟩

theorem openSource_ready {g : Backend} (hg : HasClientMap g) (fault : Option E) (R : Stop → Prop) :
    Ends (fun r => HasClientMap r.2) R (openSource fault g) := by
  apply (getClient_ready hg R).bind
  rintro ⟨client, g'⟩ hg'
  cases fault with
  | some err => exact hg'
  | none => exact hg'

theorem retryMessage_keeps {P : Backend → Prop} (g : Chan H E) (env : Env H E Empty) (msg : Message) (h : H)
    (err : MultiErr E) (p : Progress Backend H E Empty) (hp : P p.backend) :
    P (retryMessage g env msg h err p).2.backend :=
  retryMessageWith_keeps env msg (fun _ _ hp => hp) _ _ h err p hp

theorem loopBody_keeps {env : Env H E Empty} {msg : Message} {g : Chan H E}
    (hh : ∃ m, g.handlers = some m) {P : Backend → Prop} (loop : Loop ℕ H E Empty)
    (p : Progress Backend H E Empty) (hp : P p.backend) (R : Stop → Prop) :
    Ends (fun p' => P p'.backend) R (loopBody env msg g loop p) := by
  obtain ⟨m, hm⟩ := hh
  unfold loopBody
  cases loop.handler with
  | some h => exact handleNew_keeps env msg (retryMessage_keeps (P := P) g env msg) h p hp
  | none =>
      dsimp only
      unfold dispatchMessages
      rw [hm, useMap_some]
      simp only [bind, Except.bind]
      cases m.get loop.topic with
      | none => exact hp
      | some hs => exact handleAll_keeps env msg (retryMessage_keeps (P := P) g env msg) hs none p hp

/-- **Every call on a Channel with its maps returns**, and leaves the maps in place. -/
theorem step_ready {g : Chan H E} (hr : Ready HasClientMap g) (op : Op H E) :
    Ends (fun r => Ready HasClientMap r.2) (fun _ => False) (step g op) := by
  have hret : ∀ {x : Except Stop (Option (GoErr E) × Chan H E)},
      Ends (fun r => Ready HasClientMap r.2) (fun _ => False) x →
      Ends (fun r => Ready HasClientMap r.2) (fun _ => False)
        (x >>= fun r => pure (Ret.ofErr r.1, r.2)) := fun hx => hx.bind (fun _ hg => hg)
  cases op with
  | withNamespace ns => exact ⟨hr.handlers, hr.backend⟩
  | withChannelBuffer n => exact ⟨hr.handlers, hr.backend⟩
  | withRetryTimes n => exact ⟨hr.handlers, hr.backend⟩
  | withErrorHandler eh => exact ⟨hr.handlers, hr.backend⟩
  | publish topic msg newUUID fault =>
      cases msg with
      | none => exact hr
      | some msg =>
          apply (getClient_ready hr.backend _).bind
          rintro ⟨client, backend⟩ hb
          cases fault with
          | some err => exact ⟨hr.handlers, hb⟩
          | none => exact ⟨hr.handlers, hb⟩
  | subscribe topic h fault => exact hret (subscribeWith_ready hr (openSource_ready hr.backend fault _))
  | subscribeNew topic h fault => exact hret (subscribeNewWith_ready hr (openSource_ready hr.backend fault _))
  | close =>
      obtain ⟨m, hm⟩ := hr.backend
      show Ends _ _ ((useMap g.backend.clientMap >>= _) >>= _)
      rw [hm]
      exact hr
  | deliver l msg env =>
      apply (deliverWith_ready hr (fun loop p hp => loopBody_keeps hr.handlers loop p hp _)).bind
      exact fun _ hg => hg

/-- A `Subscribe` whose external calls succeed returns nil. -/
theorem subscribe_ok {g : Chan H E} (hr : Ready HasClientMap g) (topic : GoString) (h : H) :
    ∃ g', subscribe topic h none g = .ok (none, g') := by
  obtain ⟨m, hm⟩ := hr.backend
  obtain ⟨client, b, hres, _⟩ := getClient_spec g.backend.nameSpace hm
  have hopen : openSource (none : Option E) g.backend = .ok (.ok client, b) := by
    rw [openSource, hres]
    rfl
  exact subscribeWith_ok hr hopen

theorem step_keeps_ready {g g' : Chan H E} {l : Op H E × Ret E} (hr : Ready HasClientMap g)
    (hs : Step g l g') : Ready HasClientMap g' :=
  (step_ready hr l.1).ok hs

end Gochannel

/-! ## grpcchannel -/

namespace Grpcchannel

/-- The server's address is set. -/
def HasServerAddress (g : Backend) : Prop := g.serverAddress ≠ []

theorem getClient_ready {fault : Option E} {g : Backend} (hg : HasServerAddress g) :
    Ends (fun r => r.1 = .ok () ∧ HasServerAddress r.2) (fun stop => stop = .fatal) (getClient fault g) := by
  unfold getClient getConnServer
  rw [if_neg hg]
  split
  · exact ⟨rfl, hg⟩
  · cases fault with
    | some err => rfl
    | none => exact ⟨rfl, hg⟩

theorem openSource_ready {g : Backend} (hg : HasServerAddress g) (topic : GoString)
    (faults : SubscribeFaults E) :
    Ends (fun r => HasServerAddress r.2) (fun stop => stop = .fatal) (openSource topic faults g) := by
  apply (getClient_ready hg).bind
  rintro ⟨client, g'⟩ ⟨rfl, hg'⟩
  dsimp only
  cases faults.subscribe with
  | some err => exact hg'
  | none =>
      cases faults.send with
      | some err => exact hg'
      | none => exact hg'

theorem retryMessage_keeps {P : Backend → Prop} (g : Chan H E) (env : Env H E Empty) (msg : Message) (h : H)
    (err : MultiErr E) (p : Progress Backend H E Empty) (hp : P p.backend) :
    P (retryMessage g env msg h err p).2.backend :=
  retryMessageWith_keeps env msg (fun _ _ hp => hp) _ _ h err p hp

theorem loopBody_keeps {env : Env H E Empty} {msg : Message} {g : Chan H E}
    (hh : ∃ m, g.handlers = some m) {P : Backend → Prop} (loop : Loop ℕ H E Empty)
    (p : Progress Backend H E Empty) (hp : P p.backend) (R : Stop → Prop) :
    Ends (fun p' => P p'.backend) R (loopBody env msg g loop p) := by
  obtain ⟨m, hm⟩ := hh
  unfold loopBody dispatchMessages
  rw [hm, useMap_some]
  simp only [bind, Except.bind]
  cases m.get loop.topic with
  | none => exact hp
  | some hs =>
      have hkeep := handleAll_keeps env msg (retryMessage_keeps (P := P) g env msg) hs none p hp
      cases hres : handleAll (retryMessage g env msg) env msg hs none p with
      | mk retError p' =>
          rw [hres] at hkeep
          simp only [hres]
          cases retError with
          | some err => exact hkeep
          | none => exact hkeep

/-- **A call on a Channel with an address returns, or the process exits** on `log.Fatalf`. -/
theorem step_ready {g : Chan H E} (hr : Ready HasServerAddress g) (op : Op H E) :
    Ends (fun r => Ready HasServerAddress r.2) (fun stop => stop = .fatal) (step g op) := by
  cases op with
  | withRetryTimes n => exact ⟨hr.handlers, hr.backend⟩
  | withNamespace ns => exact ⟨hr.handlers, hr.backend⟩
  | withErrorHandler eh => exact ⟨hr.handlers, hr.backend⟩
  | startServe fault =>
      have hserve : Ends (fun r => Ready HasServerAddress r.2) (fun stop => stop = .fatal)
          (startServe fault g) := by
        unfold startServe
        split
        · exact hr
        · split
          · exact hr
          · cases fault with
            | some err => rfl
            | none => exact ⟨hr.handlers, hr.backend⟩
      exact hserve.bind (fun _ hg => hg)
  | publish topic msg newUUID newClient fault =>
      cases msg with
      | none => exact hr
      | some msg =>
          apply (getClient_ready hr.backend).bind
          rintro ⟨client, backend⟩ ⟨rfl, hb⟩
          dsimp only
          split
          · cases fault with
            | some err => exact ⟨hr.handlers, hb⟩
            | none => exact ⟨hr.handlers, hb⟩
          · exact ⟨hr.handlers, hb⟩
  | subscribe topic h faults =>
      exact (subscribeWith_ready hr (openSource_ready hr.backend topic faults)).bind (fun _ hg => hg)
  | close => exact hr
  | deliver l msg env =>
      apply (deliverWith_ready hr (fun loop p hp => loopBody_keeps hr.handlers loop p hp _)).bind
      exact fun _ hg => hg

/-- A `Subscribe` whose external calls succeed returns nil. -/
theorem subscribe_ok {g : Chan H E} (hr : Ready HasServerAddress g) (topic : GoString) (h : H) :
    ∃ g', subscribe topic h (.ok : SubscribeFaults E) g = .ok (none, g') := by
  have hopen : ∃ stream b, openSource topic (.ok : SubscribeFaults E) g.backend = .ok (.ok stream, b) := by
    unfold openSource getClient getConnServer SubscribeFaults.ok
    rw [if_neg hr.backend]
    split
    · exact ⟨_, _, rfl⟩
    · exact ⟨_, _, rfl⟩
  obtain ⟨stream, b, hopen⟩ := hopen
  exact subscribeWith_ok hr hopen

theorem step_keeps_ready {g g' : Chan H E} {l : Op H E × Ret E} (hr : Ready HasServerAddress g)
    (hs : Step g l g') : Ready HasServerAddress g' :=
  (step_ready hr l.1).ok hs

end Grpcchannel

/-! ## mysqlchannel -/

namespace Mysqlchannel

variable {V : Type}

/-- The database is open and the subscriber map exists. -/
structure HasSubscriberMap (g : Backend) : Prop where
  sqlDb : g.sqlDb = true
  subscriberMap : ∃ m, g.subscriberMap = some m

theorem HasSubscriberMap.congr {g g' : Backend} (h : HasSubscriberMap g) (hdb : g'.sqlDb = g.sqlDb)
    (hm : g'.subscriberMap = g.subscriberMap) : HasSubscriberMap g' where
  sqlDb := hdb.trans h.sqlDb
  subscriberMap := hm ▸ h.subscriberMap

theorem defaultNamespace_frame (g : Backend) :
    (defaultNamespace g).sqlDb = g.sqlDb ∧ (defaultNamespace g).subscriberMap = g.subscriberMap := by
  unfold defaultNamespace
  split
  · exact ⟨rfl, rfl⟩
  · exact ⟨rfl, rfl⟩

theorem getPublisher_frame (fault : Option E) (g : Backend) :
    (getPublisher fault g).2.sqlDb = g.sqlDb ∧ (getPublisher fault g).2.subscriberMap = g.subscriberMap := by
  unfold getPublisher
  split
  · exact ⟨rfl, rfl⟩
  · split
    · exact ⟨rfl, rfl⟩
    · cases fault with
      | some err => exact ⟨rfl, rfl⟩
      | none => exact ⟨rfl, rfl⟩

/-- `Publish` leaves the database and the subscriber map alone. -/
theorem publish_backend (cv : Conv V) (topic : GoString) (msg : Option Message) (newUUID : GoString)
    (newPublisher fault : Option E) (g : Chan H E) :
    (publish cv topic msg newUUID newPublisher fault g).2.backend.sqlDb = g.backend.sqlDb ∧
      (publish cv topic msg newUUID newPublisher fault g).2.backend.subscriberMap
        = g.backend.subscriberMap := by
  cases msg with
  | none => exact ⟨rfl, rfl⟩
  | some msg =>
      obtain ⟨hp₁, hp₂⟩ := getPublisher_frame newPublisher g.backend
      obtain ⟨ht₁, ht₂⟩ := defaultNamespace_frame (getPublisher newPublisher g.backend).2
      unfold publish getTableFromNamespace
      dsimp only
      split
      · exact ⟨hp₁, hp₂⟩
      · cases fault with
        | some err => exact ⟨ht₁.trans hp₁, ht₂.trans hp₂⟩
        | none => exact ⟨ht₁.trans hp₁, ht₂.trans hp₂⟩

theorem getSubscriber_ready {g : Backend} (hg : HasSubscriberMap g) (consumerGroup : GoString)
    (fault : Option E) (R : Stop → Prop) :
    Ends (fun r => HasSubscriberMap r.2 ∧ (fault = none → ∃ subscriber, r.1 = .ok subscriber)) R
      (getSubscriber consumerGroup fault g) := by
  obtain ⟨m, hm⟩ := hg.subscriberMap
  unfold getSubscriber
  rw [if_neg (by rw [hg.sqlDb]; nofun)]
  have hsame : ∀ g₁, g₁ = (if g.consumerGroup = [] then { g with consumerGroup := str "default" } else g) →
      g₁.sqlDb = true ∧ g₁.subscriberMap = some m := by
    rintro g₁ rfl
    split
    · exact ⟨hg.sqlDb, hm⟩
    · exact ⟨hg.sqlDb, hm⟩
  generalize (if g.consumerGroup = [] then { g with consumerGroup := str "default" } else g) = g₁ at hsame ⊢
  obtain ⟨hdb, hm₁⟩ := hsame g₁ rfl
  dsimp only
  rw [hm₁, useMap_some]
  simp only [bind, Except.bind]
  cases m.get (if consumerGroup = [] then g₁.consumerGroup else consumerGroup) with
  | some sub => exact ⟨⟨hdb, m, hm₁⟩, fun _ => ⟨sub, rfl⟩⟩
  | none =>
      cases fault with
      | some err => exact ⟨⟨hdb, m, hm₁⟩, nofun⟩
      | none => exact ⟨⟨hdb, _, rfl⟩, fun _ => ⟨_, rfl⟩⟩

theorem openSource_ready {g : Backend} (hg : HasSubscriberMap g) (topic consumerGroup : GoString)
    (faults : SubscribeFaults E) (R : Stop → Prop) :
    Ends (fun r => HasSubscriberMap r.2 ∧
        (faults.newSubscriber = none → faults.subscribe = none → ∃ source, r.1 = .ok source)) R
      (openSource topic consumerGroup faults g) := by
  apply (getSubscriber_ready hg consumerGroup faults.newSubscriber R).bind
  rintro ⟨sub, g'⟩ ⟨hg', hok⟩
  cases sub with
  | error err => exact ⟨hg', fun hnone _ => absurd (hok hnone) nofun⟩
  | ok sub =>
      obtain ⟨h₁, h₁'⟩ := defaultNamespace_frame g'
      obtain ⟨h₂, h₂'⟩ := defaultNamespace_frame (defaultNamespace g')
      have hg'' : HasSubscriberMap (defaultNamespace (defaultNamespace g')) :=
        hg'.congr (h₂.trans h₁) (h₂'.trans h₁')
      dsimp only [getTableFromNamespace, getOffsetsTableFromNamespace]
      cases faults.subscribe with
      | some err => exact ⟨hg'', nofun⟩
      | none => exact ⟨hg'', fun _ _ => ⟨_, rfl⟩⟩

theorem mysqlRetryMessage_keeps (env : RetryEnv H E) (msg : Message) (h : H) (err : MultiErr E)
    (p : Progress Backend H E (RetryEvent H E)) (hp : HasSubscriberMap p.backend) :
    HasSubscriberMap (mysqlRetryMessage env msg h err p).2.backend := by
  have hens : HasSubscriberMap (ensureRetryService env p).2.backend := by
    unfold ensureRetryService
    split
    · exact hp
    · dsimp only
      split
      · exact hp
      · exact hp.congr rfl rfl
  unfold mysqlRetryMessage
  cases hres : ensureRetryService env p with
  | mk r p' =>
      rw [hres] at hens
      cases r with
      | some e => exact hens
      | none =>
          dsimp only
          split
          · exact hens
          · exact hens

theorem retryMessage_keeps (g : Chan H E) (env : RetryEnv H E) (msg : Message) (h : H)
    (err : MultiErr E) (p : Progress Backend H E (RetryEvent H E)) (hp : HasSubscriberMap p.backend) :
    HasSubscriberMap (retryMessage g env msg h err p).2.backend :=
  retryMessageWith_keeps env.toEnv msg (fun err p hp => mysqlRetryMessage_keeps env msg h err p hp) _ _
    h err p hp

theorem loopBody_ready {cv : Conv V} {env : RetryEnv H E} {msg : Message} {g : Chan H E}
    (hr : Ready HasSubscriberMap g) (loop : Loop Source H E (RetryEvent H E))
    (p : Progress Backend H E (RetryEvent H E)) (hp : HasSubscriberMap p.backend) (R : Stop → Prop) :
    Ends (fun p' => HasSubscriberMap p'.backend) R (loopBody cv env msg g loop p) := by
  obtain ⟨m, hm⟩ := hr.handlers
  unfold loopBody
  cases loop.handler with
  | some h =>
      dsimp only
      cases getDataFromMsg cv msg with
      | none => exact hp
      | some msg => exact handleNew_keeps env.toEnv msg (retryMessage_keeps g env msg) h p hp
  | none =>
      dsimp only
      unfold dispatchMessages
      rw [hm, useMap_some]
      simp only [bind, Except.bind]
      cases m.get loop.topic with
      | none => exact hp
      | some hs =>
          cases getDataFromMsg cv msg with
          | none => exact hp
          | some msg =>
              have hkeep := handleAll_keeps env.toEnv msg (retryMessage_keeps g env msg) hs none p hp
              cases hres : handleAll (retryMessage g env msg) env.toEnv msg hs none p with
              | mk retError p' =>
                  rw [hres] at hkeep
                  simp only [hres]
                  cases retError with
                  | some err => exact hkeep
                  | none => exact hkeep

/-- **A call on a Channel with its maps returns**, but for a `Close` on the nil publisher. -/
theorem step_ready (cv : Conv V) {g : Chan H E} (hr : Ready HasSubscriberMap g) (op : Op H E) :
    Ends (fun r => Ready HasSubscriberMap r.2) (fun stop => stop = .nilPublisher) (step cv g op) := by
  cases op with
  | withRetryTimes n => exact ⟨hr.handlers, hr.backend⟩
  | withNamespace ns => exact ⟨hr.handlers, hr.backend.congr rfl rfl⟩
  | withConsumerGroup cg => exact ⟨hr.handlers, hr.backend.congr rfl rfl⟩
  | withErrorHandler eh => exact ⟨hr.handlers, hr.backend⟩
  | publish topic msg newUUID newPublisher fault =>
      obtain ⟨hdb, hm⟩ := publish_backend cv topic msg newUUID newPublisher fault g
      refine ⟨?_, hr.backend.congr hdb hm⟩
      cases hres : publish cv topic msg newUUID newPublisher fault g with
      | mk ret g' => exact (publish_frame hres).1 ▸ hr.handlers
  | subscribe topic h faults =>
      have hopen := openSource_ready hr.backend topic g.backend.consumerGroup faults
        (fun stop => stop = .nilPublisher)
      exact (subscribeWith_ready hr (hopen.mono (fun _ hb => hb.1))).bind (fun _ hg => hg)
  | subscribeNew topic consumerGroup h faults =>
      have hopen := openSource_ready hr.backend topic consumerGroup faults (fun stop => stop = .nilPublisher)
      exact (subscribeNewWith_ready hr (hopen.mono (fun _ hb => hb.1))).bind (fun _ hg => hg)
  | close =>
      obtain ⟨m, hm⟩ := hr.backend.subscriberMap
      have hclose : Ends (Ready HasSubscriberMap) (fun stop => stop = .nilPublisher) (close g) := by
        unfold close
        rw [hm, useMap_some]
        simp only [bind, Except.bind]
        split
        · exact hr
        · rfl
      exact hclose.bind (fun _ hg => hg)
  | deliver l msg env =>
      apply (deliverWith_ready hr (fun loop p hp => loopBody_ready hr loop p hp _)).bind
      exact fun _ hg => hg

/-- A `Subscribe` whose external calls succeed returns nil. -/
theorem subscribe_ok {g : Chan H E} (hr : Ready HasSubscriberMap g) (topic : GoString) (h : H) :
    ∃ g', subscribe topic h (.ok : SubscribeFaults E) g = .ok (none, g') := by
  have hopen := openSource_ready hr.backend topic g.backend.consumerGroup (.ok : SubscribeFaults E)
    (fun _ => False)
  cases hres : openSource topic g.backend.consumerGroup (.ok : SubscribeFaults E) g.backend with
  | error stop => rw [hres] at hopen; exact hopen.elim
  | ok r =>
      rw [hres] at hopen
      obtain ⟨source, hsource⟩ := hopen.2 rfl rfl
      have hres' : openSource topic g.backend.consumerGroup (.ok : SubscribeFaults E) g.backend
          = .ok (.ok source, r.2) := by
        rw [hres, ← hsource]
      show ∃ g', g.subscribeWith (fun b => openSource topic b.consumerGroup .ok b) topic h = _
      exact subscribeWith_ok hr hres'

theorem step_keeps_ready {cv : Conv V} {g g' : Chan H E} {l : Op H E × Ret E}
    (hr : Ready HasSubscriberMap g) (hs : Step cv g l g') : Ready HasSubscriberMap g' :=
  (step_ready cv hr l.1).ok hs

end Mysqlchannel

end Watermill
end ServiceKit
