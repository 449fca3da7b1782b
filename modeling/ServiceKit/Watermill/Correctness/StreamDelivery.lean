import ServiceKit.Watermill.Correctness.StreamLifecycle

/-!
# `Correctness.StreamDelivery` — which publications reach a `grpcchannel` handler

While the stream of a topic is open, a publication reaches the handlers of the topic exactly when it enters
the server after the topic's subscribe request was handled (`publish_reaches_iff`). With the coverage of
the topics this settles whole runs (`subscription_kept_iff`): nothing goes wrong in a run without failures
of subscribed streams, and in no other.
-/

namespace ServiceKit
namespace Watermill
namespace Grpcchannel

open Lib PubSubServer

variable {H E O : Type} [DecidableEq O]

namespace Network

/-! ## Receiving -/

omit [DecidableEq O] in
theorem mem_serverLabels {l : World.Label (ℕ ⊕ O)} {ls : List (Label H E O)} :
    l ∈ ls.flatMap serverLabels ↔ .serve l ∈ ls := by
  rw [List.mem_flatMap]
  constructor
  · rintro ⟨l', hl', hmem⟩
    cases l' with
    | serve l'' => rw [List.mem_singleton.mp hmem]; exact hl'
    | subscribe _ _ _ _ => exact absurd hmem nofun
    | recv _ _ _ _ => exact absurd hmem nofun
    | recvErr _ => exact absurd hmem nofun
    | fail _ => exact absurd hmem nofun
  · intro h
    exact ⟨_, h, List.mem_singleton.mpr rfl⟩

theorem run_inbox {net net' : Network H E O} {ls : List (Label H E O)} (h : Run Step net ls net') (s : ℕ) :
    net.inbox s <+: net'.inbox s :=
  Run.preserves (P := fun net' => net.inbox s <+: net'.inbox s) (List.prefix_refl _)
    (fun _ _ _ hpre hs => hpre.trans (step_inbox hs s)) h

theorem step_recv {net net' : Network H E O} {i n : ℕ} {msg : Message} {env : Env H E Empty}
    (hs : Step net (.recv i n msg env) net') :
    Grpcchannel.Step net.client (.deliver i msg env, .ofErr none) net'.client := by
  cases hs with
  | recv _ _ hdeliver => exact hdeliver

/-- A dispatch always returns. -/
theorem deliver_ok {g : Chan H E} (hh : ∃ m, g.handlers = some m) (i : ℕ) (msg : Message)
    (env : Env H E Empty) : ∃ g', Grpcchannel.Step g (.deliver i msg env, .ofErr none) g' := by
  have hready : Ready (fun _ => True) g := ⟨hh, trivial⟩
  have hends : Ends (Ready fun _ => True) (fun _ => False) (g.deliverWith (loopBody env msg) i msg) :=
    deliverWith_ready hready (fun loop p hp => loopBody_keeps hh (P := fun _ => True) loop p hp _)
  cases hres : g.deliverWith (loopBody env msg) i msg with
  | error stop => rw [hres] at hends; exact absurd hends not_false
  | ok g' =>
      refine ⟨g', ?_⟩
      show (g.deliverWith (loopBody env msg) i msg >>= _) = _
      rw [hres]
      rfl

/-- **The receive loop takes what waits for it.** -/
theorem recv_enabled {net : Network H E O} (hh : ∃ m, net.client.handlers = some m) {i : ℕ}
    {loop : Loop ℕ H E Empty} {x : PubSubServer.Send (ℕ ⊕ O)} (hloop : net.client.loops[i]? = some loop)
    (hnext : (net.inbox loop.source)[net.taken loop.source]? = some x) (ptr : ℕ) (env : Env H E Empty) :
    ∃ net', Step net (.recv i (net.taken loop.source) (recvMessage ptr x.msg) env) net' := by
  obtain ⟨client, hdeliver⟩ := deliver_ok hh i (recvMessage ptr x.msg) env
  exact ⟨_, .recv hloop hnext hdeliver⟩

/-! ## Publications -/

/-- A `Subscribe` of `h` on `topic` returned nil. -/
def Accepts (ls : List (Label H E O)) (topic : GoString) (h : H) : Prop :=
  ∃ faults, .subscribe topic h faults none ∈ ls

/-- The server has handled the Channel's subscribe request for the topic. -/
def ServerSubscribed (ls : List (Label H E O)) (nameSpace topic : GoString) : Prop :=
  ∃ s, .serve (.request (.inl s) ⟨nameSpace, topic⟩) ∈ ls ∧
    .serve (.subscribe (.inl s) (getCacheKey nameSpace topic)) ∈ ls

/-- Publication number `seq` is message `n` of the open stream that loop `i` reads. Whenever it is the next
    one the loop can take it, and when the loop does, it calls `h` with it. -/
structure OnItsWay (net : Network H E O) (seq : ℕ) (msg : PbMessage) (h : H) (i : ℕ)
    (loop : Loop ℕ H E Empty) (n : ℕ) : Prop where
  started : net.client.loops[i]? = some loop
  topic : loop.topic = msg.topic
  notFailed : loop.source ∉ net.failed
  arrives : ∃ x, (net.inbox loop.source)[n]? = some x ∧ x.seq = seq ∧ x.msg = msg
  waits : net.taken loop.source ≤ n
  next : ∀ ls net₁ ptr env, Run Step net ls net₁ → net₁.taken loop.source = n →
    ∃ net₂, Step net₁ (.recv i n (recvMessage ptr msg) env) net₂
  handed : ∀ ls net₁ ptr env net₂, Run Step net ls net₁ →
    Step net₁ (.recv i n (recvMessage ptr msg) env) net₂ →
    HandedTo net₁.client net₂.client i (recvMessage ptr msg) h msg.messageId msg.messageContent

/-- The publication is not missed by `h`. -/
def Reaches (net : Network H E O) (seq : ℕ) (msg : PbMessage) (h : H) : Prop :=
  ∃ i loop n, OnItsWay net seq msg h i loop n

/-- A message that waits on the open stream of a loop that serves `h` is on its way to `h`. -/
theorem onItsWay_of_serving {net : Network H E O} (hall : AllDispatch net.client) {h : H} {i n : ℕ}
    {loop : Loop ℕ H E Empty} {x : PubSubServer.Send (ℕ ⊕ O)} (hserv : Serving net.client x.msg.topic h i)
    (hloop : net.client.loops[i]? = some loop) (htopic : loop.topic = x.msg.topic)
    (hopen : loop.source ∉ net.failed) (hx : (net.inbox loop.source)[n]? = some x)
    (hwaits : net.taken loop.source ≤ n) : OnItsWay net x.seq x.msg h i loop n where
  started := hloop
  topic := htopic
  notFailed := hopen
  arrives := ⟨x, hx, rfl, rfl⟩
  waits := hwaits
  next := by
    intro ls net₁ ptr env hrun hn
    obtain ⟨hall₁, heff⟩ := run_effect hall (run_client hrun)
    obtain ⟨loop₁, hs, hloop₁, _, hserved, _⟩ := run_serving_mono heff hserv
    -- the loop still reads the stream, and the message still stands where it stood
    obtain ⟨trace, htrace⟩ := run_loops_mono heff hloop
    have hlt : n < (net.inbox loop.source).length := (List.getElem?_eq_some_iff.mp hx).1
    have hx₁ : (net₁.inbox loop.source)[n]? = some x := by
      obtain ⟨new, hnew⟩ := run_inbox hrun loop.source
      rw [← hnew, List.getElem?_append_left hlt]
      exact hx
    have hh : ∃ m, net₁.client.handlers = some m := by
      have hdisp : loop₁.handler = none := hall₁ loop₁ (List.mem_of_getElem? hloop₁)
      unfold Channel.served at hserved
      rw [hdisp] at hserved
      obtain ⟨m, hm, _⟩ := Option.bind_eq_some_iff.mp hserved
      exact ⟨m, hm⟩
    rw [← hn] at hx₁ ⊢
    exact recv_enabled hh htrace hx₁ ptr env
  handed := by
    intro ls net₁ ptr env net₂ hrun hs
    obtain ⟨hall₁, heff⟩ := run_effect hall (run_client hrun)
    exact effect_handed (run_serving_mono heff hserv) rfl (deliver_effect hall₁ (step_recv hs))

/-- What a publication adds to the inbox of a stream. -/
theorem inbox_publish {net net' : Network H E O} {msg : PbMessage} {ok : ℕ → Bool}
    (hs : Step net (.serve (.publish msg ok)) net') (s : ℕ) :
    net'.inbox s = net.inbox s ++
      (net.server.server.publishTo net.server.published.length msg ok).filter
        (fun x => x.stream = .inl s ∧ x.ok) := by
  cases hs with
  | serve _ hserve =>
      cases hserve with
      | publish => exact List.filter_append _ _

/-- The topic of an accepted handler has a loop that serves it, on a stream of the topic. -/
theorem serving_of_accepts {g₀ : Chan H E} (hu : Unopened g₀) {ls : List (Label H E O)}
    {net : Network H E O} (h : Run Step (start g₀) ls net) {topic : GoString} {hd : H}
    (hacc : Accepts ls topic hd) :
    ∃ i loop, Serving net.client topic hd i ∧ net.client.loops[i]? = some loop ∧ loop.topic = topic ∧
      (loop.source, topic) ∈ links net.client := by
  obtain ⟨faults, hmem⟩ := hacc
  have hop : (Op.subscribe topic hd faults, Ret.ofErr none) ∈ ls.flatMap clientOps :=
    List.mem_flatMap.mpr ⟨_, hmem, List.mem_singleton.mpr rfl⟩
  have haccepted : AcceptedIn ((ls.flatMap clientOps).map label) topic hd :=
    Or.inl (List.mem_map.mpr ⟨_, hop, rfl⟩)
  obtain ⟨i, hserv⟩ := run_serving hu.fresh (run_client_effect hu h).2 haccepted
  obtain ⟨loop, hs, hloop, htopic, hrest⟩ := hserv
  refine ⟨i, loop, ⟨loop, hs, hloop, htopic, hrest⟩, hloop, htopic, ?_⟩
  exact List.mem_map.mpr ⟨loop, List.mem_of_getElem? hloop, by rw [htopic]⟩

/-- **Delivery, exactly.** While no subscribed stream has failed, a publication reaches an accepted handler
    of its topic if and only if the server has handled the topic's subscribe request. -/
theorem publish_reaches_iff {g₀ : Chan H E} (hu : Unopened g₀) {ls : List (Label H E O)}
    {net net' : Network H E O} (h : Run Step (start g₀) ls net) (hspared : net.Spared) {msg : PbMessage}
    {ok : ℕ → Bool} (hs : Step net (.serve (.publish msg ok)) net')
    (hns : msg.nameSpace = g₀.backend.nameSpace) {hd : H} (hacc : Accepts ls msg.topic hd) :
    net'.Reaches net.server.published.length msg hd ↔ ServerSubscribed ls msg.nameSpace msg.topic := by
  have hsound := run_sound hu h
  have hreach := run_server h
  have hall := (run_client_effect hu h).1
  have hr := run_client_registered hu h
  have hclient : net'.client = net.client := by cases hs with | serve => rfl
  have hfailed : net'.failed = net.failed := by cases hs with | serve => rfl
  have htaken : net'.taken = net.taken := by cases hs with | serve => rfl
  have hns' : msg.nameSpace = net.client.backend.nameSpace := hns.trans hsound.nameSpace.symm
  constructor
  · rintro ⟨i, loop, n, hway⟩
    obtain ⟨x, hx, hseq, hmsg⟩ := hway.arrives
    have hstarted := hway.started
    rw [hclient] at hstarted
    have hlink : (loop.source, msg.topic) ∈ links net.client :=
      List.mem_map.mpr ⟨loop, List.mem_of_getElem? hstarted, by rw [hway.topic]⟩
    -- what was sent before has a smaller number
    have hnew : x ∈ net.server.server.publishTo net.server.published.length msg ok ∧
        x.stream = .inl loop.source := by
      have hmem := List.mem_of_getElem? hx
      rw [inbox_publish hs, List.mem_append] at hmem
      rcases hmem with hold | hnew
      · have hpub := (send_published hreach (List.mem_of_mem_filter hold)).1
        rw [hseq, List.getElem?_eq_none (le_refl _)] at hpub
        exact absurd hpub nofun
      · obtain ⟨hmem, hcond⟩ := List.mem_filter.mp hnew
        exact ⟨hmem, (of_decide_eq_true hcond).1⟩
    have hstream : .inl loop.source ∈ net.server.server.streams (getCacheKey msg.nameSpace msg.topic) := by
      rw [← publishTo_streams net.server.server net.server.published.length msg ok]
      exact List.mem_map.mpr ⟨x, hnew⟩
    -- so the server handled a request of the stream, and the stream carries but one
    have hsub := ((mem_streams_iff hreach).mp hstream).2
    obtain ⟨req, hreq, _⟩ := requested_of_subscribe hreach (Or.inr hsub)
    have hsent := hsound.requested _ _ (mem_serverLabels.mp hreq)
    rw [hsound.linked.source _ _ hlink, ← hns'] at hsent
    obtain rfl := List.mem_singleton.mp hsent
    exact ⟨loop.source, mem_serverLabels.mp hreq, mem_serverLabels.mp hsub⟩
  · rintro ⟨s, hreq, hsub⟩
    obtain ⟨i, loop, hserv, hloop, htopic, hlink⟩ := serving_of_accepts hu h hacc
    -- the loop reads the stream that the server subscribed
    have hsent := hsound.requested s _ hreq
    obtain ⟨topic, hlink', heq⟩ := hsound.linked.request s _ hsent
    obtain rfl : msg.topic = topic := congrArg SubscribeRequest.topic heq
    obtain rfl := link_unique hall hr hlink hlink'
    have hopen : loop.source ∉ net.failed := by
      intro hmem
      rw [hspared _ hmem] at hsent
      exact absurd hsent nofun
    have hpc : net.server.pc (.inl loop.source) ≠ .returned :=
      fun hret => hopen (hsound.gone _ (Or.inr hret))
    have hstream : .inl loop.source ∈ net.server.server.streams (getCacheKey msg.nameSpace msg.topic) :=
      (mem_streams_iff hreach).mpr ⟨hpc, mem_serverLabels.mpr hsub⟩
    rw [← publishTo_streams net.server.server net.server.published.length msg ok] at hstream
    obtain ⟨x, hx, hxs⟩ := List.mem_map.mp hstream
    obtain ⟨hseq, _, rfl⟩ := mem_publishTo hx
    have hok : x.ok = true := by
      cases hs with
      | serve hpermits _ => exact (hpermits x hx _ hxs).mpr hopen
    -- it stands behind everything that arrived before
    have hmem : x ∈ (net.server.server.publishTo net.server.published.length x.msg ok).filter
        (fun x => x.stream = .inl loop.source ∧ x.ok) :=
      List.mem_filter.mpr ⟨hx, decide_eq_true ⟨hxs, hok⟩⟩
    obtain ⟨j, hj⟩ := List.mem_iff_getElem?.mp hmem
    have hinbox : (net'.inbox loop.source)[(net.inbox loop.source).length + j]? = some x := by
      rw [inbox_publish hs, List.getElem?_append_right (Nat.le_add_right _ _), Nat.add_sub_cancel_left]
      exact hj
    have hwaits : net.taken loop.source ≤ (net.inbox loop.source).length + j :=
      le_trans (hsound.taken _) (Nat.le_add_right _ _)
    rw [← hclient] at hall hserv hloop
    rw [← hfailed] at hopen
    rw [← htaken] at hwaits
    rw [← hseq]
    exact ⟨i, loop, _, onItsWay_of_serving hall hserv hloop htopic hopen hinbox hwaits⟩

/-! ## Whole runs -/

/-- `h` was accepted for the topic after a failure. -/
def AcceptsAfterFailure (ls : List (Label H E O)) (topic : GoString) (h : H) : Prop :=
  ∃ pre failure post, ls = pre ++ .fail failure :: post ∧ Accepts post topic h

/-- Every state of the run is covered. -/
def AlwaysCovered (net₀ : Network H E O) (ls : List (Label H E O)) : Prop :=
  ∀ pre post net, ls = pre ++ post → Run Step net₀ pre net → net.Covered

/-- Every publication under the Channel's namespace reaches the handlers that were accepted for its topic
    after a failure. -/
def NoneMissed (net₀ : Network H E O) (ls : List (Label H E O)) : Prop :=
  ∀ pre msg ok post net net', ls = pre ++ .serve (.publish msg ok) :: post → Run Step net₀ pre net →
    Step net (.serve (.publish msg ok)) net' → msg.nameSpace = net.client.backend.nameSpace →
    ∀ h, AcceptsAfterFailure pre msg.topic h → net'.Reaches net.server.published.length msg h

/-- No failure hits a stream on which a subscribe request was sent. -/
def FailuresSpare (net₀ : Network H E O) (ls : List (Label H E O)) : Prop :=
  ∀ pre failure post net, ls = pre ++ .fail failure :: post → Run Step net₀ pre net →
    ∀ s ∈ failure.hits net.opened, net.client.backend.requests s = []

/-- Publications to handlers accepted after a failure enter the server after their topic's request. -/
def PublishesLate (nameSpace : GoString) (ls : List (Label H E O)) : Prop :=
  ∀ pre msg ok post, ls = pre ++ .serve (.publish msg ok) :: post → msg.nameSpace = nameSpace →
    (∃ h, AcceptsAfterFailure pre msg.topic h) → ServerSubscribed pre msg.nameSpace msg.topic

omit [DecidableEq O] in
theorem AcceptsAfterFailure.accepts {ls : List (Label H E O)} {topic : GoString} {h : H}
    (hacc : AcceptsAfterFailure ls topic h) : Accepts ls topic h := by
  obtain ⟨pre, failure, post, rfl, faults, hmem⟩ := hacc
  exact ⟨faults, List.mem_append_right _ (List.mem_cons_of_mem _ hmem)⟩

theorem FailuresSpare.initial {net₀ : Network H E O} {ls ls' : List (Label H E O)}
    (h : FailuresSpare net₀ (ls ++ ls')) : FailuresSpare net₀ ls := by
  rintro pre failure post net rfl hrun
  exact h pre failure (post ++ ls') net (by simp) hrun

theorem run_spared {g₀ : Chan H E} (hu : Unopened g₀) {ls : List (Label H E O)} {net : Network H E O}
    (h : Run Step (start g₀) ls net) (hspare : FailuresSpare (start g₀) ls) : net.Spared := by
  revert hspare
  refine Run.invariant (fun ls net => FailuresSpare (start g₀) ls → net.Spared) ?_ ?_ h
  · intro _ s hs
    exact absurd hs nofun
  · intro ls net l net' hrun ih hs hspare s hmem
    have hsound := run_sound hu hrun
    obtain ⟨m, hm, _⟩ := (run_client_registered hu hrun).handlers
    have hgrows := step_grows ⟨m, hm⟩ hs
    have hold : s ∈ net.failed → net'.client.backend.requests s = [] := by
      intro hfailed
      rw [hgrows.requests (hsound.failed s hfailed)]
      exact ih hspare.initial s hfailed
    cases hs with
    | fail hopened =>
        rcases List.mem_append.mp hmem with hnew | hfailed
        · exact hspare ls _ [] net rfl hrun s hnew
        · exact hold hfailed
    | subscribe => exact hold hmem
    | recv => exact hold hmem
    | recvErr => exact hold hmem
    | serve => exact hold hmem

/-- A run that is covered throughout spares its streams: after a failure of one, its topic is not. -/
theorem failuresSpare_of_covered {g₀ : Chan H E} (hu : Unopened g₀) {ls : List (Label H E O)}
    (hcov : AlwaysCovered (start g₀) ls) : FailuresSpare (start g₀) ls := by
  rintro pre failure post net rfl hrun s hs
  by_cases hlt : s < net.opened
  · have hopened : ∀ t ∈ failure.hits net.opened, t < net.opened := by
      cases failure with
      | stream t =>
          obtain rfl := List.mem_singleton.mp hs
          intro t' ht'
          rw [List.mem_singleton.mp ht']
          exact hlt
      | connection =>
          intro t ht
          exact List.mem_range.mp ht
    have hrun' := hrun.snoc (.fail hopened)
    have hspared := (covered_iff_spared hu hrun').mp (hcov _ post _ (by simp) hrun')
    exact hspared s (List.mem_append_left _ hs)
  · exact requests_length_le (not_lt.mp hlt)

/-- The equivalence for a run from any Channel that has not opened a stream. -/
theorem kept_iff {g₀ : Chan H E} (hu : Unopened g₀) {ls : List (Label H E O)} {net : Network H E O}
    (h : Run Step (start g₀) ls net) :
    AlwaysCovered (start g₀) ls ∧ NoneMissed (start g₀) ls ↔
      FailuresSpare (start g₀) ls ∧ PublishesLate g₀.backend.nameSpace ls := by
  constructor
  · rintro ⟨hcov, hnone⟩
    have hspare := failuresSpare_of_covered hu hcov
    refine ⟨hspare, ?_⟩
    rintro pre msg ok post rfl hns ⟨hd, hacc⟩
    obtain ⟨net₁, hpre, hpost⟩ := Run.split _ h
    obtain ⟨net₂, hs, _⟩ := Run.head hpost
    have hns₁ : msg.nameSpace = net₁.client.backend.nameSpace := hns.trans (run_sound hu hpre).nameSpace.symm
    apply (publish_reaches_iff hu hpre (run_spared hu hpre hspare.initial) hs hns hacc.accepts).mp
    exact hnone pre msg ok post net₁ net₂ rfl hpre hs hns₁ hd hacc
  · rintro ⟨hspare, hlate⟩
    refine ⟨?_, ?_⟩
    · rintro pre post net₁ rfl hpre
      exact (covered_iff_spared hu hpre).mpr (run_spared hu hpre hspare.initial)
    · rintro pre msg ok post net₁ net₂ rfl hpre hs hns₁ hd hacc
      have hns : msg.nameSpace = g₀.backend.nameSpace := hns₁.trans (run_sound hu hpre).nameSpace
      apply (publish_reaches_iff hu hpre (run_spared hu hpre hspare.initial) hs hns hacc.accepts).mpr
      exact hlate pre msg ok post rfl hns ⟨hd, hacc⟩

end Network

/-! ## From `New` on -/

open Network

/-- The calls that set a Channel up. -/
def Op.isOption : Op H E → Bool
  | .withRetryTimes _ | .withNamespace _ | .withErrorHandler _ | .startServe _ => true
  | _ => false

theorem new_unopened {cfg : NewConfig} {g : Chan H E} (h : new cfg = .ok g) : Unopened g := by
  refine ⟨(new_spec h).2, ?_⟩
  unfold new at h
  split at h
  · exact absurd h nofun
  · obtain rfl := Except.ok.inj h
    rfl

theorem step_unopened {g g' : Chan H E} {l : Op H E × Ret E} (hu : Unopened g) (hopt : l.1.isOption = true)
    (hs : Grpcchannel.Step g l g') : Unopened g' := by
  obtain ⟨op, ret⟩ := l
  cases op with
  | withRetryTimes n =>
      obtain ⟨_, rfl⟩ := ok_pair_inj hs
      exact ⟨⟨hu.fresh.handlers, hu.fresh.loops⟩, hu.streams⟩
  | withNamespace ns =>
      obtain ⟨_, rfl⟩ := ok_pair_inj hs
      exact ⟨⟨hu.fresh.handlers, hu.fresh.loops⟩, hu.streams⟩
  | withErrorHandler eh =>
      obtain ⟨_, rfl⟩ := ok_pair_inj hs
      exact ⟨⟨hu.fresh.handlers, hu.fresh.loops⟩, hu.streams⟩
  | startServe fault =>
      obtain ⟨⟨err, g₁⟩, hserve, hret⟩ := bind_ok_iff.mp hs
      obtain ⟨_, rfl⟩ := ok_pair_inj hret
      obtain ⟨hh, hl⟩ := startServe_frame hserve
      refine ⟨⟨hh.trans hu.fresh.handlers, hl.trans hu.fresh.loops⟩, ?_⟩
      unfold startServe at hserve
      split at hserve
      · obtain ⟨_, rfl⟩ := ok_pair_inj hserve; exact hu.streams
      · split at hserve
        · obtain ⟨_, rfl⟩ := ok_pair_inj hserve; exact hu.streams
        · cases fault with
          | some err => exact absurd hserve nofun
          | none => obtain ⟨_, rfl⟩ := ok_pair_inj hserve; exact hu.streams
  | publish _ _ _ _ _ => exact absurd hopt nofun
  | subscribe _ _ _ => exact absurd hopt nofun
  | close => exact absurd hopt nofun
  | deliver _ _ _ => exact absurd hopt nofun

/-- **A subscription lives as long as its stream.** On a Channel that `New` and its options made, over every
    run of `Subscribe` calls, deliveries and failures against the server: every topic of the registry is on
    an open stream in every state, or gets one with the next `Subscribe`, and no handler accepted after a
    failure misses a later publication, exactly when no failure hits a stream that carries a subscribe
    request and these publications enter the server after it handled the request of their topic. -/
theorem subscription_kept_iff {cfg : NewConfig} {g g₀ : Chan H E} {options : List (Op H E × Ret E)}
    (hnew : new cfg = .ok g) (hoptions : Run Grpcchannel.Step g options g₀)
    (hopt : ∀ l ∈ options, l.1.isOption = true) {ls : List (Network.Label H E O)} {net : Network H E O}
    (hrun : Run Network.Step (start g₀) ls net) :
    AlwaysCovered (start g₀) ls ∧ NoneMissed (start g₀) ls ↔
      FailuresSpare (start g₀) ls ∧ PublishesLate g₀.backend.nameSpace ls := by
  have hu : Unopened g₀ := by
    revert hopt
    refine Run.invariant (fun ls g => (∀ l ∈ ls, l.1.isOption = true) → Unopened g)
      (fun _ => new_unopened hnew) ?_ hoptions
    intro ls g l g' _ ih hs hopt
    exact step_unopened (ih (fun l hl => hopt l (List.mem_append_left _ hl))) (hopt l (by simp)) hs
  exact kept_iff hu hrun

def testConfig : NewConfig := ⟨str ":31106", str "127.0.0.1:31106", str "order"⟩

def helloTest : PbMessage := ⟨str "order", str "test", str "0", str "hello 0"⟩

/-- A failure of the connection before the first handler, and a publication after it. -/
def failThenSubscribe : List (Network.Label ℕ Unit Empty) :=
  [.fail .connection, .subscribe (str "test") 0 .ok none,
    .serve (.request (.inl 0) ⟨str "order", str "test"⟩), .serve (.subscribe (.inl 0) (str "order/test")),
    .serve (.publish helloTest (fun _ => true))]

theorem subscription_kept_iff_failThenSubscribe : ∃ g₀ net,
    new testConfig = .ok g₀ ∧ Run Network.Step (start g₀) failThenSubscribe net ∧
      AlwaysCovered (start g₀) failThenSubscribe ∧ NoneMissed (start g₀) failThenSubscribe := by
  obtain ⟨g₀, net, hnew, hrun⟩ : ∃ g₀ net, new testConfig = .ok g₀ ∧
      Run Network.Step (start g₀) failThenSubscribe net := by
    refine ⟨_, _, rfl, .cons (.fail nofun) (.cons (.subscribe rfl) (.cons (.serve rfl (.request rfl))
      (.cons (.serve trivial (.subscribe rfl)) (.cons (.serve ?_ .publish) .nil))))⟩
    intro x hx s _
    obtain ⟨_, hok⟩ := mem_publishTo_ok hx
    exact ⟨fun _ => nofun, fun _ => hok⟩
  refine ⟨g₀, net, hnew, hrun, (subscription_kept_iff hnew .nil nofun hrun).mpr ⟨?_, ?_⟩⟩
  · intro pre failure post net₁ hsplit hpre s _
    cases pre with
    | nil =>
        obtain rfl := Run.nil_inv hpre
        apply requests_length_le
        show g₀.backend.streams.length ≤ s
        rw [(new_unopened hnew).streams]
        exact Nat.zero_le s
    | cons l pre =>
        have hmem : .fail failure ∈ failThenSubscribe.tail := by rw [hsplit]; simp
        simp [failThenSubscribe] at hmem
  · intro pre msg ok post hsplit _ _
    -- the publication is the last step
    rcases pre with _ | ⟨_, _ | ⟨_, _ | ⟨_, _ | ⟨_, pre⟩⟩⟩⟩
    · simp [failThenSubscribe] at hsplit
    · simp [failThenSubscribe] at hsplit
    · simp [failThenSubscribe] at hsplit
    · simp [failThenSubscribe] at hsplit
    · cases pre with
      | cons l pre => simp [failThenSubscribe] at hsplit
      | nil =>
          simp only [failThenSubscribe, List.cons_append, List.nil_append, List.cons.injEq,
            Network.Label.serve.injEq, World.Label.publish.injEq] at hsplit
          obtain ⟨rfl, rfl, rfl, rfl, ⟨rfl, rfl⟩, rfl⟩ := hsplit
          have hkey : getCacheKey helloTest.nameSpace helloTest.topic = str "order/test" := rfl
          exact ⟨0, by simp [helloTest], by simp [hkey]⟩

/-- The stream of a topic fails, then a second handler is accepted for it. -/
def failThenAppend : List (Network.Label ℕ Unit Empty) :=
  [.subscribe (str "test") 0 .ok none, .serve (.request (.inl 0) ⟨str "order", str "test"⟩),
    .serve (.subscribe (.inl 0) (str "order/test")), .fail .connection, .recvErr 0,
    .serve (.recvErr (.inl 0)), .serve (.remove (.inl 0)), .subscribe (str "test") 1 .ok none]

/-- After it no stream is subscribed, and a publication reaches no one. -/
theorem publish_missed_after_failure : ∃ g₀ net net',
    new testConfig = .ok g₀ ∧ Run Network.Step (start g₀) failThenAppend net ∧
      Network.Step net (.serve (.publish helloTest (fun _ => true))) net' ∧ ¬ net.Covered ∧
      ¬ AlwaysCovered (start g₀) (failThenAppend ++ [.serve (.publish helloTest (fun _ => true))]) ∧
      ¬ NoneMissed (start g₀) (failThenAppend ++ [.serve (.publish helloTest (fun _ => true))]) := by
  obtain ⟨g₀, net, net', hnew, hrun, hs, hns, hfailed, hreqs, hsends⟩ : ∃ g₀ net net',
      new testConfig = .ok g₀ ∧ Run Network.Step (start g₀) failThenAppend net ∧
        Network.Step net (.serve (.publish helloTest (fun _ => true))) net' ∧
        net.client.backend.nameSpace = str "order" ∧ net.failed = [0] ∧
        net.client.backend.requests 0 = [⟨str "order", str "test"⟩] ∧ net'.server.sends = [] := by
    refine ⟨_, _, _, rfl, .cons (.subscribe rfl) (.cons (.serve rfl (.request rfl))
      (.cons (.serve trivial (.subscribe rfl)) (.cons (.fail ?_) (.cons (.recvErr rfl ?_)
      (.cons (.serve ?_ (.recvErr rfl)) (.cons (.serve trivial (.remove rfl (.refl _)))
      (.cons (.subscribe rfl) .nil))))))), .serve ?_ .publish, rfl, rfl, rfl, rfl⟩
    · intro s hs
      exact List.mem_range.mp hs
    · exact List.mem_append_left _ (List.mem_range.mpr Nat.one_pos)
    · exact List.mem_append_left _ (List.mem_range.mpr Nat.one_pos)
    · intro x hx
      exact absurd hx List.not_mem_nil
  have hcovered : ¬ net.Covered := by
    intro hcov
    have hspared := (covered_iff_spared (new_unopened hnew) hrun).mp hcov 0 (by rw [hfailed]; simp)
    rw [hreqs] at hspared
    exact absurd hspared nofun
  refine ⟨g₀, net, net', hnew, hrun, hs, hcovered, ?_, ?_⟩
  · intro hall
    exact hcovered (hall _ _ net rfl hrun)
  · intro hnone
    have hacc : AcceptsAfterFailure failThenAppend (str "test") 1 :=
      ⟨failThenAppend.take 3, .connection, failThenAppend.drop 4, rfl, .ok, by simp [failThenAppend]⟩
    obtain ⟨i, loop, n, hway⟩ := hnone _ _ _ [] net net' rfl hrun hs hns.symm 1 hacc
    obtain ⟨x, hx, _⟩ := hway.arrives
    have hmem := List.mem_of_mem_filter (List.mem_of_getElem? hx)
    rw [hsends] at hmem
    exact absurd hmem List.not_mem_nil

end Grpcchannel
end Watermill
end ServiceKit
