import ServiceKit.Watermill.Correctness.ServerDelivery
import ServiceKit.Watermill.Correctness.Serving
import ServiceKit.Watermill.Correctness.Subscribe
import ServiceKit.Watermill.StreamNetwork

/-!
# `Correctness.StreamLifecycle` — a `grpcchannel` subscription and the stream under it

The first handler of a topic opens a stream and sends the subscribe request on it; every later one is only
appended to the registry. The receive loop logs the error of a failed stream and calls `Recv` again. So a
topic stays subscribed exactly as long as that one stream does: after it failed nothing opens another.

`covered_iff_spared` says so of every reachable state, `publish_reaches_iff` of every publication, and
`subscription_kept_iff` puts both together for whole runs.
-/

namespace ServiceKit
namespace Watermill
namespace Grpcchannel

open Lib PubSubServer

variable {H E O : Type} [DecidableEq O]

/-! ## What `Subscribe` does to the streams -/

/-- How a Channel goes about opening a stream for a topic. -/
inductive Opens (topic : GoString) (g : Backend) : Except (GoErr E) ℕ → Backend → Prop where
  | refused {err g'} (hns : g'.nameSpace = g.nameSpace) (hstreams : g'.streams = g.streams) :
      Opens topic g (.error err) g'
  | unsent {err g'} (hns : g'.nameSpace = g.nameSpace) (hstreams : g'.streams = g.streams ++ [[]]) :
      Opens topic g (.error err) g'
  | sent {g'} (hns : g'.nameSpace = g.nameSpace)
      (hstreams : g'.streams = g.streams ++ [[⟨g.nameSpace, topic⟩]]) :
      Opens topic g (.ok g.streams.length) g'

theorem getClient_frame {fault : Option E} {g g' : Backend} {client : Except (GoErr E) Unit}
    (hs : getClient fault g = .ok (client, g')) :
    g'.nameSpace = g.nameSpace ∧ g'.streams = g.streams := by
  unfold getClient getConnServer at hs
  split at hs
  · obtain ⟨_, rfl⟩ := ok_pair_inj hs; exact ⟨rfl, rfl⟩
  · split at hs
    · obtain ⟨_, rfl⟩ := ok_pair_inj hs; exact ⟨rfl, rfl⟩
    · cases fault with
      | some err => exact absurd hs nofun
      | none => obtain ⟨_, rfl⟩ := ok_pair_inj hs; exact ⟨rfl, rfl⟩

theorem openSource_opens {topic : GoString} {faults : SubscribeFaults E} {g g' : Backend}
    {source : Except (GoErr E) ℕ} (hs : openSource topic faults g = .ok (source, g')) :
    Opens topic g source g' := by
  obtain ⟨⟨client, g₁⟩, hclient, hs⟩ := bind_ok_iff.mp hs
  obtain ⟨hns, hstreams⟩ := getClient_frame hclient
  cases client with
  | error err =>
      obtain ⟨rfl, rfl⟩ := ok_pair_inj hs
      exact .refused hns hstreams
  | ok u =>
      dsimp only at hs
      cases hsub : faults.subscribe with
      | some err =>
          rw [hsub] at hs
          obtain ⟨rfl, rfl⟩ := ok_pair_inj hs
          exact .refused hns hstreams
      | none =>
          rw [hsub] at hs
          cases hsend : faults.send with
          | some err =>
              rw [hsend] at hs
              obtain ⟨rfl, rfl⟩ := ok_pair_inj hs
              exact .unsent hns (by rw [hstreams])
          | none =>
              rw [hsend] at hs
              obtain ⟨rfl, rfl⟩ := ok_pair_inj hs
              have hnew : g₁.streams.length = g.streams.length := congrArg List.length hstreams
              rw [hnew]
              exact .sent hns (by rw [hns, hstreams])

/-- A `Subscribe` of the Channel, behind its label. -/
theorem step_subscribe {topic : GoString} {h : H} {faults : SubscribeFaults E} {err : Option (GoErr E)}
    {g g' : Chan H E} (hs : Step g (.subscribe topic h faults, .ofErr err) g') :
    Subscribed (openSource topic faults) topic h g err g' := by
  obtain ⟨⟨err', g₁⟩, hsub, hret⟩ := bind_ok_iff.mp hs
  obtain ⟨herr, rfl⟩ := ok_pair_inj hret
  obtain rfl : err' = err := congrArg Ret.err herr
  exact subscribeWith_cases hsub

/-- The streams that the loops read, each with the topic it dispatches to. -/
def links (g : Chan H E) : List (ℕ × GoString) := g.loops.map (fun loop => (loop.source, loop.topic))

/-- A delivery leaves the backend and the links alone. -/
theorem deliver_frame {g g' : Chan H E} (hh : ∃ m, g.handlers = some m) {i : ℕ} {msg : Message}
    {env : Env H E Empty} {ret : Ret E} (hs : Step g (.deliver i msg env, ret) g') :
    g'.backend = g.backend ∧ links g' = links g := by
  obtain ⟨g₁, hdel, hret⟩ := bind_ok_iff.mp hs
  obtain ⟨_, rfl⟩ := ok_pair_inj hret
  exact deliverWith_frame (fun loop p p' hp hb =>
    (loopBody_keeps hh (P := fun b => b = g.backend) loop p hp (fun _ => True)).ok hb) hdel (fun _ _ => rfl)

/-! ## Which loop reads which stream -/

theorem requests_length_le {g : Backend} {s : ℕ} (h : g.streams.length ≤ s) : g.requests s = [] := by
  rw [Backend.requests, List.getElem?_eq_none h]
  rfl

theorem lt_of_mem_requests {g : Backend} {s : ℕ} {req : SubscribeRequest} (h : req ∈ g.requests s) :
    s < g.streams.length := by
  by_contra hle
  rw [requests_length_le (not_lt.mp hle)] at h
  exact absurd h nofun

/-- The namespace stays, and the streams with what was sent on them. -/
structure Backend.Grows (g g' : Backend) : Prop where
  nameSpace : g'.nameSpace = g.nameSpace
  streams : g.streams <+: g'.streams

theorem Backend.Grows.refl (g : Backend) : g.Grows g := ⟨rfl, List.prefix_refl _⟩

theorem Backend.Grows.requests {g g' : Backend} (h : g.Grows g') {s : ℕ} (hs : s < g.streams.length) :
    g'.requests s = g.requests s := by
  obtain ⟨new, hnew⟩ := h.streams
  unfold Backend.requests
  rw [← hnew, List.getElem?_append_left hs]

theorem Opens.grows {topic : GoString} {g g' : Backend} {source : Except (GoErr E) ℕ}
    (h : Opens topic g source g') : g.Grows g' := by
  cases h with
  | refused hns hstreams => exact ⟨hns, [], by rw [hstreams, List.append_nil]⟩
  | unsent hns hstreams => exact ⟨hns, _, hstreams.symm⟩
  | sent hns hstreams => exact ⟨hns, _, hstreams.symm⟩

theorem subscribed_grows {topic : GoString} {h : H} {faults : SubscribeFaults E} {g g' : Chan H E}
    {err : Option (GoErr E)} (hs : Subscribed (openSource topic faults) topic h g err g') :
    g.backend.Grows g'.backend := by
  cases hs with
  | registered _ _ => exact .refl _
  | failed _ _ hopen => exact (openSource_opens hopen).grows
  | opened _ _ hopen => exact (openSource_opens hopen).grows

theorem mem_requests_append {g g' : Backend} {reqs : List SubscribeRequest}
    (h : g'.streams = g.streams ++ [reqs]) {s : ℕ} {req : SubscribeRequest} (hreq : req ∈ g'.requests s) :
    req ∈ g.requests s ∨ s = g.streams.length ∧ req ∈ reqs := by
  have hlt := lt_of_mem_requests hreq
  rw [h, List.length_append, List.length_singleton] at hlt
  unfold Backend.requests at hreq ⊢
  rw [h] at hreq
  rcases Nat.lt_succ_iff_lt_or_eq.mp hlt with hold | rfl
  · rw [List.getElem?_append_left hold] at hreq
    exact Or.inl hreq
  · rw [List.getElem?_concat_length] at hreq
    exact Or.inr ⟨rfl, hreq⟩

/-- Every loop reads a stream on which just the request for its topic was sent; no other stream has one. -/
structure Linked (g : Chan H E) : Prop where
  source : ∀ s topic, (s, topic) ∈ links g → g.backend.requests s = [⟨g.backend.nameSpace, topic⟩]
  request : ∀ s req, req ∈ g.backend.requests s →
    ∃ topic, (s, topic) ∈ links g ∧ req = ⟨g.backend.nameSpace, topic⟩

theorem Linked.lt {g : Chan H E} (hl : Linked g) {s : ℕ} {topic : GoString}
    (h : (s, topic) ∈ links g) : s < g.backend.streams.length := by
  apply lt_of_mem_requests
  rw [hl.source s topic h]
  exact List.mem_singleton.mpr rfl

theorem Linked.subscribed {g g' : Chan H E} {topic : GoString} {h : H} {faults : SubscribeFaults E}
    {err : Option (GoErr E)} (hl : Linked g)
    (hs : Subscribed (openSource topic faults) topic h g err g') : Linked g' := by
  have hgrows := subscribed_grows hs
  -- the streams of the loops that run already
  have hsource : ∀ s topic, (s, topic) ∈ links g →
      g'.backend.requests s = [⟨g'.backend.nameSpace, topic⟩] := by
    intro s topic hlink
    rw [hgrows.requests (hl.lt hlink), hgrows.nameSpace]
    exact hl.source s topic hlink
  have hrequest : ∀ s req, req ∈ g.backend.requests s →
      ∃ topic, (s, topic) ∈ links g ∧ req = ⟨g'.backend.nameSpace, topic⟩ := by
    rw [hgrows.nameSpace]
    exact hl.request
  cases hs with
  | registered _ _ => exact ⟨hsource, hrequest⟩
  | failed _ _ hopen =>
      refine ⟨hsource, ?_⟩
      intro s req hreq
      cases openSource_opens hopen with
      | refused hns hstreams =>
          apply hrequest s req
          unfold Backend.requests at hreq ⊢
          rwa [← hstreams]
      | unsent hns hstreams =>
          rcases mem_requests_append hstreams hreq with hold | ⟨_, hnil⟩
          · exact hrequest s req hold
          · exact absurd hnil nofun
  | @opened m source backend _ _ hopen =>
      cases openSource_opens hopen with
      | sent hns hstreams =>
          have hlinks : ∀ link ∈ links g ++ [(g.backend.streams.length, topic)],
              link ∈ links { g with
                backend := backend
                handlers := some (m.set topic [h])
                loops := g.loops ++ [⟨g.backend.streams.length, topic, none, []⟩] } := by
            intro link hlink
            simpa [links] using hlink
          refine ⟨?_, ?_⟩
          · intro s topic' hlink
            have hcases : (s, topic') ∈ links g ∨ (s, topic') = (g.backend.streams.length, topic) := by
              simpa [links] using hlink
            rcases hcases with hold | hnew
            · exact hsource s topic' hold
            · obtain ⟨rfl, rfl⟩ := Prod.mk.inj hnew
              show backend.requests _ = [⟨backend.nameSpace, topic'⟩]
              rw [Backend.requests, hstreams, List.getElem?_concat_length, hns]
              rfl
          · intro s req hreq
            rcases mem_requests_append hstreams hreq with hold | ⟨rfl, hnew⟩
            · obtain ⟨topic', hlink, hreq'⟩ := hrequest s req hold
              exact ⟨topic', hlinks _ (List.mem_append_left _ hlink), hreq'⟩
            · refine ⟨topic, hlinks _ (by simp), ?_⟩
              rw [List.mem_singleton.mp hnew]
              show _ = SubscribeRequest.mk backend.nameSpace topic
              rw [hns]

/-- One loop per topic. -/
theorem topics_nodup {g : Chan H E} {acc : List (GoString × H)} (hall : AllDispatch g)
    (hr : Registered g acc) : (g.loops.map Loop.topic).Nodup := by
  apply List.nodup_iff_count_le_one.mpr
  intro topic
  have hcount : (g.loops.map Loop.topic).count topic = g.dispatchLoops topic := by
    rw [List.count, List.countP_map]
    apply List.countP_congr
    intro loop hloop
    simp [Loop.dispatches, hall loop hloop]
  rw [hcount, hr.loops]
  split
  · exact Nat.zero_le _
  · exact le_refl _

/-- The loops of one topic read one stream. -/
theorem link_unique {g : Chan H E} {acc : List (GoString × H)} (hall : AllDispatch g)
    (hr : Registered g acc) {s s' : ℕ} {topic : GoString} (h : (s, topic) ∈ links g)
    (h' : (s', topic) ∈ links g) : s = s' := by
  obtain ⟨loop, hloop, hlink⟩ := List.mem_map.mp h
  obtain ⟨loop', hloop', hlink'⟩ := List.mem_map.mp h'
  obtain ⟨rfl, rfl⟩ := Prod.mk.inj hlink
  obtain ⟨rfl, htopic⟩ := Prod.mk.inj hlink'
  rw [List.inj_on_of_nodup_map (topics_nodup hall hr) hloop hloop' htopic.symm]

/-- A topic has handlers exactly when a loop dispatches to it. -/
theorem linked_iff_handlers {g : Chan H E} {acc : List (GoString × H)} (hall : AllDispatch g)
    (hr : Registered g acc) (topic : GoString) :
    (∃ s, (s, topic) ∈ links g) ↔ handlersOf acc topic ≠ none := by
  have hloops : (∃ s, (s, topic) ∈ links g) ↔ 0 < g.dispatchLoops topic := by
    unfold Channel.dispatchLoops links
    rw [List.countP_pos_iff]
    constructor
    · rintro ⟨s, hlink⟩
      obtain ⟨loop, hloop, heq⟩ := List.mem_map.mp hlink
      exact ⟨loop, hloop, by simp [Loop.dispatches, hall loop hloop, (Prod.mk.inj heq).2]⟩
    · rintro ⟨loop, hloop, hdisp⟩
      rw [Loop.dispatches, Bool.and_eq_true, decide_eq_true_eq] at hdisp
      exact ⟨loop.source, List.mem_map.mpr ⟨loop, hloop, by rw [hdisp.2]⟩⟩
  rw [hloops, hr.loops]
  by_cases hnone : handlersOf acc topic = none
  · simp [hnone]
  · simp [hnone]

/-! ## Runs of the network -/

namespace Network

/-- The client's part of a step. -/
def clientOps : Label H E O → List (Op H E × Ret E)
  | .subscribe topic h faults err => [(.subscribe topic h faults, .ofErr err)]
  | .recv i _ msg env => [(.deliver i msg env, .ofErr none)]
  | _ => []

/-- The server's part. -/
def serverLabels : Label H E O → List (World.Label (ℕ ⊕ O))
  | .serve l => [l]
  | _ => []

theorem run_client {net net' : Network H E O} {ls : List (Label H E O)} (h : Run Step net ls net') :
    Run Grpcchannel.Step net.client (ls.flatMap clientOps) net'.client := by
  have hstep : ∀ (net : Network H E O) g l net', net.client = g → Step net l net' →
      ∃ g', Run Grpcchannel.Step g (clientOps l) g' ∧ net'.client = g' := by
    rintro net g l net' rfl hs
    cases hs with
    | subscribe hcall => exact ⟨_, .single hcall, rfl⟩
    | recv _ _ hdeliver => exact ⟨_, .single hdeliver, rfl⟩
    | recvErr => exact ⟨_, .nil, rfl⟩
    | serve => exact ⟨_, .nil, rfl⟩
    | fail => exact ⟨_, .nil, rfl⟩
  obtain ⟨g, hrun, rfl⟩ :=
    Run.simulates (R := fun (net : Network H E O) g => net.client = g) clientOps rfl hstep h
  exact hrun

theorem run_server {g₀ : Chan H E} {net : Network H E O} {ls : List (Label H E O)}
    (h : Run Step (start g₀) ls net) : World.Reach (ls.flatMap serverLabels) net.server := by
  have hstep : ∀ (net : Network H E O) w l net', net.server = w → Step net l net' →
      ∃ w', Run World.Step w (serverLabels l) w' ∧ net'.server = w' := by
    rintro net w l net' rfl hs
    cases hs with
    | subscribe => exact ⟨_, .nil, rfl⟩
    | recv => exact ⟨_, .nil, rfl⟩
    | recvErr => exact ⟨_, .nil, rfl⟩
    | serve _ hserve => exact ⟨_, .single hserve, rfl⟩
    | fail => exact ⟨_, .nil, rfl⟩
  obtain ⟨w, hrun, rfl⟩ :=
    Run.simulates (R := fun (net : Network H E O) w => net.server = w) serverLabels rfl hstep h
  exact hrun

/-- A Channel without handlers, goroutines and streams. -/
structure Unopened (g : Chan H E) : Prop where
  fresh : Fresh g
  streams : g.backend.streams = []

theorem run_client_effect {g₀ : Chan H E} (hu : Unopened g₀) {net : Network H E O}
    {ls : List (Label H E O)} (h : Run Step (start g₀) ls net) :
    AllDispatch net.client ∧ Run (Effect some) g₀ ((ls.flatMap clientOps).map label) net.client :=
  run_effect (allDispatch_of_fresh hu.fresh) (run_client h)

theorem run_client_registered {g₀ : Chan H E} (hu : Unopened g₀) {net : Network H E O}
    {ls : List (Label H E O)} (h : Run Step (start g₀) ls net) :
    Registered net.client (accepted ((ls.flatMap clientOps).map label)) :=
  run_registered hu.fresh (run_client_effect hu h).2

/-- No step closes a stream or takes back what was sent on it. -/
theorem step_grows {net net' : Network H E O} {l : Label H E O} (hh : ∃ m, net.client.handlers = some m)
    (hs : Step net l net') : net.client.backend.Grows net'.client.backend := by
  cases hs with
  | subscribe hcall => exact subscribed_grows (step_subscribe hcall)
  | recv _ _ hdeliver => rw [(deliver_frame hh hdeliver).1]; exact .refl _
  | recvErr => exact .refl _
  | serve => exact .refl _
  | fail => exact .refl _

theorem step_linked {net net' : Network H E O} {l : Label H E O} (hh : ∃ m, net.client.handlers = some m)
    (hl : Linked net.client) (hs : Step net l net') : Linked net'.client := by
  cases hs with
  | subscribe hcall => exact hl.subscribed (step_subscribe hcall)
  | recv _ _ hdeliver =>
      obtain ⟨hbackend, hlinks⟩ := deliver_frame hh hdeliver
      refine ⟨?_, ?_⟩
      · rw [hbackend, hlinks]; exact hl.source
      · rw [hbackend, hlinks]; exact hl.request
  | recvErr => exact hl
  | serve => exact hl
  | fail => exact hl

theorem step_inbox {net net' : Network H E O} {l : Label H E O} (hs : Step net l net') (s : ℕ) :
    net.inbox s <+: net'.inbox s := by
  cases hs with
  | serve _ hserve =>
      cases hserve with
      | publish =>
          show List.filter _ _ <+: List.filter _ (net.server.sends ++ _)
          rw [List.filter_append]
          exact List.prefix_append _ _
      | request => exact List.prefix_refl _
      | subscribe => exact List.prefix_refl _
      | recvErr => exact List.prefix_refl _
      | remove => exact List.prefix_refl _
  | subscribe => exact List.prefix_refl _
  | recv => exact List.prefix_refl _
  | recvErr => exact List.prefix_refl _
  | fail => exact List.prefix_refl _

theorem step_failed {net net' : Network H E O} {l : Label H E O} (hs : Step net l net') :
    net.failed ⊆ net'.failed := by
  cases hs with
  | fail => exact List.subset_append_right _ _
  | subscribe => exact List.Subset.refl _
  | recv => exact List.Subset.refl _
  | recvErr => exact List.Subset.refl _
  | serve => exact List.Subset.refl _

/-- The server's goroutine of `s` has seen the error of its stream. -/
def Gone (w : World (ℕ ⊕ O)) (s : ℕ) : Prop := w.pc (.inl s) = .removing ∨ w.pc (.inl s) = .returned

/-- Only an error from `Recv` ends the goroutine of a stream. -/
theorem serve_gone {w w' : World (ℕ ⊕ O)} {l : World.Label (ℕ ⊕ O)} (hs : World.Step w l w') {s : ℕ}
    (hgone : Gone w' s) : Gone w s ∨ l = .recvErr (.inl s) := by
  unfold Gone at hgone ⊢
  rcases step_pc hs (.inl s) with hsame | ⟨_, _, hreq⟩ | ⟨_, _, hrecv⟩ | ⟨rfl, _⟩ | ⟨_, hremoving, _⟩
  · rw [hsame] at hgone
    exact Or.inl hgone
  · rw [hreq] at hgone
    exact absurd hgone (by simp)
  · rw [hrecv] at hgone
    exact absurd hgone (by simp)
  · exact Or.inr rfl
  · exact Or.inl (Or.inl hremoving)

/-- What holds after the steps `ls`, when the Channel started as `g₀`. -/
structure Sound (g₀ : Chan H E) (ls : List (Label H E O)) (net : Network H E O) : Prop where
  nameSpace : net.client.backend.nameSpace = g₀.backend.nameSpace
  linked : Linked net.client
  failed : ∀ s ∈ net.failed, s < net.opened
  gone : ∀ s, Gone net.server s → s ∈ net.failed
  requested : ∀ s req, .serve (.request (.inl s) req) ∈ ls → req ∈ net.client.backend.requests s
  taken : ∀ s, net.taken s ≤ (net.inbox s).length

theorem start_sound {g₀ : Chan H E} (hu : Unopened g₀) : Sound g₀ [] (start g₀ : Network H E O) where
  nameSpace := rfl
  linked := by
    refine ⟨?_, ?_⟩
    · intro s topic hlink
      rw [links, start, hu.fresh.loops] at hlink
      exact absurd hlink nofun
    · intro s req hreq
      rw [start, Backend.requests, hu.streams] at hreq
      exact absurd hreq nofun
  failed := nofun
  gone s hgone := by simp [Gone, start, World.init] at hgone
  requested := nofun
  taken s := Nat.zero_le _

/-- **Step lemma.** -/
theorem step_sound {g₀ : Chan H E} {ls : List (Label H E O)} {net net' : Network H E O} {l : Label H E O}
    (hh : ∃ m, net.client.handlers = some m) (hsound : Sound g₀ ls net) (hs : Step net l net') :
    Sound g₀ (ls ++ [l]) net' where
  nameSpace := (step_grows hh hs).nameSpace.trans hsound.nameSpace
  linked := step_linked hh hsound.linked hs
  failed := by
    intro s hmem
    have hopened : net.opened ≤ net'.opened := (step_grows hh hs).streams.length_le
    refine lt_of_lt_of_le ?_ hopened
    cases hs with
    | fail hhits =>
        rcases List.mem_append.mp hmem with hnew | hold
        · exact hhits s hnew
        · exact hsound.failed s hold
    | subscribe => exact hsound.failed s hmem
    | recv => exact hsound.failed s hmem
    | recvErr => exact hsound.failed s hmem
    | serve => exact hsound.failed s hmem
  gone := by
    intro s hgone
    apply step_failed hs
    cases hs with
    | serve hpermits hserve =>
        rcases serve_gone hserve hgone with hold | rfl
        · exact hsound.gone s hold
        · exact hpermits
    | subscribe => exact hsound.gone s hgone
    | recv => exact hsound.gone s hgone
    | recvErr => exact hsound.gone s hgone
    | fail => exact hsound.gone s hgone
  requested := by
    intro s req hmem
    have hold : req ∈ net.client.backend.requests s := by
      rcases List.mem_append.mp hmem with hold | hnew
      · exact hsound.requested s req hold
      · obtain rfl := List.mem_singleton.mp hnew
        cases hs with
        | serve hpermits _ => exact List.mem_of_getElem? hpermits
    rw [(step_grows hh hs).requests (lt_of_mem_requests hold)]
    exact hold
  taken := by
    intro s
    refine le_trans ?_ (step_inbox hs s).length_le
    cases hs with
    | @recv _ loop x ptr env client hloop hnext hdeliver =>
        show Function.update net.taken loop.source _ s ≤ _
        by_cases hsource : s = loop.source
        · subst hsource
          rw [Function.update_self]
          exact (List.getElem?_eq_some_iff.mp hnext).1
        · rw [Function.update_of_ne hsource]
          exact hsound.taken s
    | subscribe => exact hsound.taken s
    | recvErr => exact hsound.taken s
    | serve => exact hsound.taken s
    | fail => exact hsound.taken s

/-- **Run lemma.** -/
theorem run_sound {g₀ : Chan H E} (hu : Unopened g₀) {ls : List (Label H E O)} {net : Network H E O}
    (h : Run Step (start g₀) ls net) : Sound g₀ ls net := by
  -- that the map of handlers exists is known of the client's own run
  refine Run.invariant (Sound g₀) (start_sound hu) ?_ h
  intro ls net l net' hrun hsound hs
  obtain ⟨m, hm, _⟩ := (run_client_registered hu hrun).handlers
  exact step_sound ⟨m, hm⟩ hsound hs

/-! ## Coverage -/

/-- A subscribe request for the topic was sent on a stream that is open. -/
def OnOpenStream (net : Network H E O) (topic : GoString) : Prop :=
  ∃ s, s ∉ net.failed ∧ ⟨net.client.backend.nameSpace, topic⟩ ∈ net.client.backend.requests s

/-- The next `Subscribe` on the topic opens a stream and sends the request on it. -/
def NextSubscribeOpens (net : Network H E O) (topic : GoString) : Prop :=
  ∀ h client, Grpcchannel.Step net.client (.subscribe topic h .ok, .ofErr none) client →
    ∃ s, net.opened ≤ s ∧ ⟨net.client.backend.nameSpace, topic⟩ ∈ client.backend.requests s

/-- Every topic of the registry is on an open stream, or will be with the next `Subscribe`. -/
def Covered (net : Network H E O) : Prop :=
  ∀ m, net.client.handlers = some m → ∀ topic hs, m.get topic = some hs →
    net.OnOpenStream topic ∨ net.NextSubscribeOpens topic

/-- No stream that carries a subscribe request has failed. -/
def Spared (net : Network H E O) : Prop := ∀ s ∈ net.failed, net.client.backend.requests s = []

/-- **Coverage, exactly.** In every reachable state. -/
theorem covered_iff_spared {g₀ : Chan H E} (hu : Unopened g₀) {ls : List (Label H E O)}
    {net : Network H E O} (h : Run Step (start g₀) ls net) : net.Covered ↔ net.Spared := by
  have hall := (run_client_effect hu h).1
  have hr := run_client_registered hu h
  have hsound := run_sound hu h
  obtain ⟨m, hm, hget⟩ := hr.handlers
  constructor
  · intro hcov s hs
    by_contra hne
    obtain ⟨req, hreq⟩ := List.exists_mem_of_ne_nil _ hne
    obtain ⟨topic, hlink, -⟩ := hsound.linked.request s req hreq
    have hsome : handlersOf (accepted ((ls.flatMap clientOps).map label)) topic ≠ none :=
      (linked_iff_handlers hall hr topic).mp ⟨s, hlink⟩
    obtain ⟨hs', hhs'⟩ := Option.ne_none_iff_exists'.mp hsome
    rw [← hget] at hhs'
    rcases hcov m hm topic hs' hhs' with ⟨s', hopen, hreq'⟩ | hnext
    · -- the request is on one stream only, and that one failed
      obtain ⟨topic', hlink', heq⟩ := hsound.linked.request s' _ hreq'
      obtain rfl : topic = topic' := congrArg SubscribeRequest.topic heq
      rw [← link_unique hall hr hlink hlink'] at hopen
      exact hopen hs
    · -- the topic has a handler, so `Subscribe` only appends to the registry
      obtain ⟨h', -⟩ : ∃ h', h' ∈ hs' := List.exists_mem_of_ne_nil hs' (by
        rintro rfl
        rw [hget, handlersOf] at hhs'
        split at hhs'
        · cases hhs'
        · cases hhs')
      have hstep : Grpcchannel.Step net.client (.subscribe topic h' .ok, .ofErr none)
          { net.client with handlers := some (m.set topic (hs' ++ [h'])) } := by
        show (subscribe topic h' _ net.client >>= _) = _
        unfold subscribe Channel.subscribeWith
        simp only [hm, useMap_some, hhs', bind, Except.bind]
        rfl
      obtain ⟨s', hle, hreq'⟩ := hnext h' _ hstep
      exact absurd (lt_of_mem_requests hreq') (not_lt.mpr hle)
  · intro hspared m' hm' topic hs hhs
    obtain rfl := Option.some.inj (hm'.symm.trans hm)
    have hsome : handlersOf (accepted ((ls.flatMap clientOps).map label)) topic ≠ none := by
      rw [← hget, hhs]
      exact Option.some_ne_none hs
    obtain ⟨s, hlink⟩ := (linked_iff_handlers hall hr topic).mpr hsome
    have hreqs := hsound.linked.source s topic hlink
    refine Or.inl ⟨s, ?_, by rw [hreqs]; exact List.mem_singleton.mpr rfl⟩
    intro hfailed
    rw [hspared s hfailed] at hreqs
    cases hreqs

end Network

end Grpcchannel
end Watermill
end ServiceKit
