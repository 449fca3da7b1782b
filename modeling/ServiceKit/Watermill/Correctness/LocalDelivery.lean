import ServiceKit.Watermill.Correctness.Serving
import ServiceKit.Watermill.Correctness.Subscribe

/-!
# `Correctness.LocalDelivery` — which `GoChannel` a call on `gochannel` uses

`getClient` gets `g.namespace` as it was before the call and sets it to `default` when it is empty. So on
a Channel without a namespace the first call uses the client of the empty key, and every later one the
client of `default`: what one publishes the other does not see. With a namespace, or with at most one
call that needs the client, all calls use one client and every publication reaches the handlers accepted
for its topic (`one_client_iff`).
-/

namespace ServiceKit
namespace Watermill
namespace Gochannel

open Lib

variable {H E : Type}

/-! ## What a step does with the client -/

/-- The call gets the client, when `acc` are the handlers accepted so far: a `Subscribe` does on the first
    handler of its topic. -/
def Op.usesClient (acc : List (GoString × H)) : Op H E → Bool
  | .publish _ (some _) _ _ | .subscribeNew _ _ _ => true
  | .subscribe topic _ _ => (handlersOf acc topic).isNone
  | _ => false

def Op.setsNamespace : Op H E → Bool
  | .withNamespace _ => true
  | _ => false

/-- The step leaves the clients alone. -/
structure Idle (g : Chan H E) (l : Op H E × Ret E) (g' : Chan H E) : Prop where
  clientMap : g'.backend.clientMap = g.backend.clientMap
  clients : g'.backend.clients = g.backend.clients
  returned : g'.backend.returned = g.backend.returned
  consumerGroup : g'.backend.consumerGroup = g.backend.consumerGroup
  nameSpace : l.1.setsNamespace = false → g'.backend.nameSpace = g.backend.nameSpace
  sent : l.2.sent = none
  sources : g'.loops.map Loop.source = g.loops.map Loop.source

/-- The step gets `client`, and uses no other. -/
structure Uses (g : Chan H E) (m : ConcurrentMap GoString ℕ) (client : ℕ) (l : Op H E × Ret E)
    (g' : Chan H E) : Prop where
  got : GotClient g.backend.nameSpace g.backend m client g'.backend
  sent : ∀ publication, l.2.sent = some publication → publication.1 = client
  sources : ∀ source ∈ g'.loops.map Loop.source, source ∈ g.loops.map Loop.source ∨ source = client

theorem Idle.of_backend {g g' : Chan H E} {l : Op H E × Ret E} (hbackend : g'.backend = g.backend)
    (hsent : l.2.sent = none) (hsources : g'.loops.map Loop.source = g.loops.map Loop.source) :
    Idle g l g' where
  clientMap := by rw [hbackend]
  clients := by rw [hbackend]
  returned := by rw [hbackend]
  consumerGroup := by rw [hbackend]
  nameSpace _ := by rw [hbackend]
  sent := hsent
  sources := hsources

theorem deliver_idle {g g' : Chan H E} (hr : Ready HasClientMap g) {l : ℕ} {msg : Message}
    {env : Env H E Empty} {ret : Ret E} (hs : Step g (.deliver l msg env, ret) g') :
    Idle g (.deliver l msg env, ret) g' := by
  obtain ⟨g₁, hdel, hret⟩ := bind_ok_iff.mp hs
  obtain ⟨rfl, rfl⟩ := ok_pair_inj hret
  obtain ⟨hbackend, hsources⟩ := deliverWith_frame (f := Loop.source) (fun loop p p' hp hb =>
    (loopBody_keeps hr.handlers (P := fun b => b = g.backend) loop p hp (fun _ => True)).ok hb) hdel
    (fun _ _ => rfl)
  exact .of_backend hbackend rfl hsources

/-- A call that does not get the client leaves the clients alone. -/
theorem step_idle {g g' : Chan H E} {acc : List (GoString × H)} {l : Op H E × Ret E}
    (hr : Ready HasClientMap g) (hreg : Registered g acc) (hno : l.1.usesClient acc = false)
    (hs : Step g l g') : Idle g l g' := by
  obtain ⟨op, ret⟩ := l
  cases op with
  | withNamespace ns =>
      obtain ⟨rfl, rfl⟩ := ok_pair_inj hs
      exact ⟨rfl, rfl, rfl, rfl, nofun, rfl, rfl⟩
  | withChannelBuffer n =>
      obtain ⟨rfl, rfl⟩ := ok_pair_inj hs
      exact ⟨rfl, rfl, rfl, rfl, fun _ => rfl, rfl, rfl⟩
  | withRetryTimes n =>
      obtain ⟨rfl, rfl⟩ := ok_pair_inj hs
      exact .of_backend rfl rfl rfl
  | withErrorHandler eh =>
      obtain ⟨rfl, rfl⟩ := ok_pair_inj hs
      exact .of_backend rfl rfl rfl
  | publish topic msg newUUID fault =>
      cases msg with
      | none =>
          obtain ⟨rfl, rfl⟩ := ok_pair_inj hs
          exact .of_backend rfl rfl rfl
      | some msg => exact absurd hno nofun
  | subscribe topic h fault =>
      -- the topic has handlers already
      obtain ⟨m, hm, hget⟩ := hreg.handlers
      obtain ⟨old, hold⟩ := Option.isSome_iff_exists.mp (Option.isNone_eq_false_iff.mp hno)
      obtain ⟨⟨err, g₁⟩, hsub, hret⟩ := bind_ok_iff.mp hs
      obtain ⟨rfl, rfl⟩ := ok_pair_inj hret
      have hregistered : ∀ m', g.handlers = some m' → m'.get topic ≠ none := by
        intro m' hm'
        rw [← Option.some.inj (hm.symm.trans hm'), hget, hold]
        nofun
      cases subscribeWith_cases hsub with
      | registered _ _ => exact .of_backend rfl rfl rfl
      | failed hm' hnone _ => exact absurd hnone (hregistered _ hm')
      | opened hm' hnone _ => exact absurd hnone (hregistered _ hm')
  | subscribeNew topic h fault => exact absurd hno nofun
  | close =>
      obtain ⟨g₁, hclose, hret⟩ := bind_ok_iff.mp hs
      obtain ⟨m, _, hg⟩ := bind_ok_iff.mp hclose
      obtain rfl := Except.ok.inj hg
      obtain ⟨rfl, rfl⟩ := ok_pair_inj hret
      exact .of_backend rfl rfl rfl
  | deliver l msg env => exact deliver_idle hr hs

/-- Opening a subscription gets the client, and reads from it. -/
theorem openSource_spec {g b : Backend} {m : ConcurrentMap GoString ℕ} (hm : g.clientMap = some m)
    {fault : Option E} {source : Except (GoErr E) ℕ} (hopen : openSource fault g = .ok (source, b)) :
    ∃ client, GotClient g.nameSpace g m client b ∧ ∀ s, source = .ok s → s = client := by
  obtain ⟨client, b', hget, hgot⟩ := getClient_spec g.nameSpace hm
  rw [openSource, hget] at hopen
  cases fault with
  | some err =>
      obtain ⟨rfl, rfl⟩ := ok_pair_inj hopen
      refine ⟨client, hgot, ?_⟩
      intro s hs
      cases hs
  | none =>
      obtain ⟨rfl, rfl⟩ := ok_pair_inj hopen
      exact ⟨client, hgot, fun s hs => (Except.ok.inj hs).symm⟩

/-- A call that gets the client. -/
theorem step_uses {g g' : Chan H E} {acc : List (GoString × H)} {l : Op H E × Ret E}
    {m : ConcurrentMap GoString ℕ} (hm : g.backend.clientMap = some m) (hreg : Registered g acc)
    (hyes : l.1.usesClient acc = true) (hs : Step g l g') : ∃ client, Uses g m client l g' := by
  obtain ⟨op, ret⟩ := l
  cases op with
  | withNamespace ns => exact absurd hyes nofun
  | withChannelBuffer n => exact absurd hyes nofun
  | withRetryTimes n => exact absurd hyes nofun
  | withErrorHandler eh => exact absurd hyes nofun
  | publish topic msg newUUID fault =>
      cases msg with
      | none => exact absurd hyes nofun
      | some msg =>
          obtain ⟨client, b, hget, hgot⟩ := getClient_spec g.backend.nameSpace hm
          have hpub : publish topic (some msg) newUUID fault g = .ok (ret, g') := hs
          unfold publish at hpub
          rw [hget] at hpub
          cases fault with
          | some err =>
              obtain ⟨rfl, rfl⟩ := ok_pair_inj hpub
              exact ⟨client, hgot, nofun, fun _ hmem => Or.inl hmem⟩
          | none =>
              obtain ⟨rfl, rfl⟩ := ok_pair_inj hpub
              refine ⟨client, hgot, ?_, fun _ hmem => Or.inl hmem⟩
              intro publication hsent
              rw [← Option.some.inj hsent]
  | subscribe topic h fault =>
      obtain ⟨m', hm', hget⟩ := hreg.handlers
      have hnone : handlersOf acc topic = none := Option.isNone_iff_eq_none.mp hyes
      obtain ⟨⟨err, g₁⟩, hsub, hret⟩ := bind_ok_iff.mp hs
      obtain ⟨rfl, rfl⟩ := ok_pair_inj hret
      cases subscribeWith_cases hsub with
      | registered hm'' hold =>
          obtain rfl := Option.some.inj (hm'.symm.trans hm'')
          rw [hget, hnone] at hold
          exact absurd hold nofun
      | failed _ _ hopen =>
          obtain ⟨client, hgot, _⟩ := openSource_spec hm hopen
          exact ⟨client, hgot, nofun, fun _ hmem => Or.inl hmem⟩
      | @opened _ source _ _ _ hopen =>
          obtain ⟨client, hgot, hsource⟩ := openSource_spec hm hopen
          obtain rfl := hsource source rfl
          exact ⟨source, hgot, nofun, fun _ hmem => by simpa [List.map_append] using hmem⟩
  | subscribeNew topic h fault =>
      obtain ⟨⟨err, g₁⟩, hsub, hret⟩ := bind_ok_iff.mp hs
      obtain ⟨rfl, rfl⟩ := ok_pair_inj hret
      obtain ⟨⟨source, b⟩, hopen, hsub⟩ := bind_ok_iff.mp hsub
      obtain ⟨client, hgot, hsource⟩ := openSource_spec hm hopen
      cases source with
      | error e =>
          obtain ⟨rfl, rfl⟩ := ok_pair_inj hsub
          exact ⟨client, hgot, nofun, fun _ hmem => Or.inl hmem⟩
      | ok s =>
          obtain rfl := hsource s rfl
          obtain ⟨rfl, rfl⟩ := ok_pair_inj hsub
          exact ⟨s, hgot, nofun, fun _ hmem => by simpa [List.map_append] using hmem⟩
  | close => exact absurd hyes nofun
  | deliver l msg env => exact absurd hyes nofun

/-! ## Counting the uses -/

/-- How many of the calls get the client, when `acc` were accepted before. -/
def clientUses (acc : List (GoString × H)) : List (Op H E × Ret E) → ℕ
  | [] => 0
  | l :: ls => (l.1.usesClient acc).toNat + clientUses (acc ++ (accept (label l)).toList) ls

theorem clientUses_append (acc : List (GoString × H)) (ls ls' : List (Op H E × Ret E)) :
    clientUses acc (ls ++ ls')
      = clientUses acc ls + clientUses (acc ++ accepted (ls.map label)) ls' := by
  induction ls generalizing acc with
  | nil => simp [clientUses, accepted]
  | cons l ls ih =>
      have hacc : accepted ((l :: ls).map label) = (accept (label l)).toList ++ accepted (ls.map label) := by
        rw [List.map_cons, accepted, List.filterMap_cons]
        cases accept (label l) with
        | none => rfl
        | some p => rfl
      rw [List.cons_append, clientUses, clientUses, ih, hacc, List.append_assoc, Nat.add_assoc]

theorem clientUses_concat (acc : List (GoString × H)) (ls : List (Op H E × Ret E)) (l : Op H E × Ret E) :
    clientUses acc (ls ++ [l])
      = clientUses acc ls + (l.1.usesClient (acc ++ accepted (ls.map label))).toNat := by
  rw [clientUses_append]
  rfl

/-! ## Invariants of the calls -/

/-- A Channel as `New` and `With*` options leave it: no client was asked for yet. -/
structure Unused (g : Chan H E) : Prop where
  clientMap : g.backend.clientMap = some .new
  clients : g.backend.clients = []
  returned : g.backend.returned = []
  consumerGroup : g.backend.consumerGroup = []
  fresh : Fresh g

theorem Unused.ready {g : Chan H E} (h : Unused g) : Ready HasClientMap g :=
  ⟨⟨_, h.fresh.handlers⟩, _, h.clientMap⟩

theorem newWithMap_unused : Unused (newWithMap : Chan H E) := ⟨rfl, rfl, rfl, rfl, newWithMap_fresh⟩

/-- A call that skips the client map keeps a Channel unused. -/
theorem step_unused {g g' : Chan H E} {l : Op H E × Ret E} (hu : Unused g)
    (hskip : l.1.skipsClientMap = true) (hs : Step g l g') : Unused g' := by
  have hno : l.1.usesClient [] = false := by
    obtain ⟨op, ret⟩ := l
    cases op with
    | publish topic msg newUUID fault =>
        cases msg with
        | none => rfl
        | some msg => exact absurd hskip nofun
    | subscribe topic h fault => exact absurd hskip nofun
    | subscribeNew topic h fault => exact absurd hskip nofun
    | _ => rfl
  have hidle := step_idle hu.ready hu.fresh.registered hno hs
  have hfresh : g'.handlers = g.handlers ∧ g'.loops = g.loops := by
    have he := step_effect hs
    obtain ⟨op, ret⟩ := l
    cases op with
    | subscribe topic h fault => exact absurd hskip nofun
    | subscribeNew topic h fault => exact absurd hskip nofun
    | _ => exact effect_fresh hu.fresh.loops (by simp [Op.act]) (by simp [Op.act]) he
  exact ⟨hidle.clientMap.trans hu.clientMap, hidle.clients.trans hu.clients,
    hidle.returned.trans hu.returned, hidle.consumerGroup.trans hu.consumerGroup,
    hfresh.1.trans hu.fresh.handlers, hfresh.2.trans hu.fresh.loops⟩

/-- What every run of calls keeps: the maps, and the number of clients returned. -/
structure Counted (g₀ : Chan H E) (ls : List (Op H E × Ret E)) (g : Chan H E) : Prop where
  ready : Ready HasClientMap g
  registered : Registered g (accepted (ls.map label))
  count : g.backend.returned.length = clientUses [] ls
  noLoops : g.backend.returned = [] → g.loops = []

theorem run_counted {g₀ g : Chan H E} (hu : Unused g₀) {ls : List (Op H E × Ret E)}
    (h : Run Step g₀ ls g) : Counted g₀ ls g := by
  refine Run.invariant (Counted g₀) ?_ ?_ h
  · exact ⟨hu.ready, hu.fresh.registered, by rw [hu.returned]; rfl, fun _ => hu.fresh.loops⟩
  · intro ls g l g' hrun hc hs
    have hreg' : Registered g' (accepted ((ls ++ [l]).map label)) :=
      run_registered hu.fresh (run_effect (hrun.snoc hs))
    have hready' := step_keeps_ready hc.ready hs
    cases hop : l.1.usesClient (accepted (ls.map label)) with
    | false =>
        have hidle := step_idle hc.ready hc.registered hop hs
        refine ⟨hready', hreg', ?_, ?_⟩
        · rw [hidle.returned, hc.count, clientUses_concat, List.nil_append, hop]
          rfl
        · intro hnil
          have hloops := hc.noLoops (hidle.returned.symm.trans hnil)
          have hsources := hidle.sources
          rw [hloops] at hsources
          exact List.map_eq_nil_iff.mp hsources
    | true =>
        obtain ⟨m, hm⟩ := hc.ready.backend
        obtain ⟨client, huse⟩ := step_uses hm hc.registered hop hs
        refine ⟨hready', hreg', ?_, ?_⟩
        · rw [huse.got.returned, List.length_append, hc.count, clientUses_concat, List.nil_append, hop]
          rfl
        · intro hnil
          rw [huse.got.returned] at hnil
          exact absurd hnil (by simp)

/-- With a namespace, all uses find the client of that namespace. -/
structure OneClient (ns : GoString) (g : Chan H E) : Prop where
  nameSpace : g.backend.nameSpace = ns
  client : ∃ m, g.backend.clientMap = some m ∧ (∀ c ∈ g.backend.returned, m.get ns = some c) ∧
    ∀ source ∈ g.loops.map Loop.source, m.get ns = some source

/-- Without one, the first use makes client 0 under the empty key, the second client 1. -/
def TwoClients (g : Chan H E) : Prop :=
  g.backend.consumerGroup = [] ∧ ∃ m, g.backend.clientMap = some m ∧
    ((g.backend.returned = [] ∧ g.backend.nameSpace = [] ∧ m = .new ∧ g.backend.clients = []) ∨
      (g.backend.returned = [0] ∧ g.backend.nameSpace = str "default" ∧ m.get (str "default") = none ∧
        g.backend.clients.length = 1) ∨
      ∃ rest, g.backend.returned = 0 :: 1 :: rest)

theorem OneClient.idle {ns : GoString} {g g' : Chan H E} {l : Op H E × Ret E} (h : OneClient ns g)
    (hns : l.1.setsNamespace = false) (hidle : Idle g l g') : OneClient ns g' := by
  obtain ⟨m, hm, hret, hsrc⟩ := h.client
  refine ⟨(hidle.nameSpace hns).trans h.nameSpace, m, hidle.clientMap.trans hm, ?_, ?_⟩
  · rw [hidle.returned]; exact hret
  · rw [hidle.sources]; exact hsrc

theorem OneClient.uses {ns : GoString} (hne : ns ≠ []) {g g' : Chan H E} {l : Op H E × Ret E}
    {m : ConcurrentMap GoString ℕ} {client : ℕ} (hm : g.backend.clientMap = some m)
    (h : OneClient ns g) (huse : Uses g m client l g') : OneClient ns g' := by
  obtain ⟨m', hm', hret, hsrc⟩ := h.client
  obtain rfl := Option.some.inj (hm'.symm.trans hm)
  have hkey : clientKey g.backend.nameSpace g.backend = ns := by
    rw [clientKey, h.nameSpace, if_neg hne]
  have hns : g'.backend.nameSpace = ns := by
    rw [huse.got.nameSpace, h.nameSpace, if_neg hne]
  have hfound := huse.got.found
  rw [hkey] at hfound
  rcases hfound with ⟨hget, hmap, _⟩ | ⟨hget, _, hmap, _⟩
  · refine ⟨hns, m', hmap, ?_, ?_⟩
    · intro c hc
      rw [huse.got.returned] at hc
      rcases List.mem_append.mp hc with hc | hc
      · exact hret c hc
      · rw [List.mem_singleton.mp hc]; exact hget
    · intro source hsource
      rcases huse.sources source hsource with hold | rfl
      · exact hsrc source hold
      · exact hget
  · -- the client is made: nothing was returned before
    refine ⟨hns, _, hmap, ?_, ?_⟩
    · intro c hc
      rw [huse.got.returned] at hc
      rcases List.mem_append.mp hc with hc | hc
      · exact absurd ((hret c hc).symm.trans hget) nofun
      · rw [List.mem_singleton.mp hc]; exact ConcurrentMap.get_set_self _ _ _
    · intro source hsource
      rcases huse.sources source hsource with hold | rfl
      · exact absurd ((hsrc source hold).symm.trans hget) nofun
      · exact ConcurrentMap.get_set_self _ _ _

theorem TwoClients.idle {g g' : Chan H E} {l : Op H E × Ret E} (h : TwoClients g)
    (hns : l.1.setsNamespace = false) (hidle : Idle g l g') : TwoClients g' := by
  unfold TwoClients at h ⊢
  rw [hidle.consumerGroup, hidle.clientMap, hidle.returned, hidle.nameSpace hns, hidle.clients]
  exact h

theorem TwoClients.uses {g g' : Chan H E} {l : Op H E × Ret E} {m : ConcurrentMap GoString ℕ}
    {client : ℕ} (hm : g.backend.clientMap = some m) (h : TwoClients g) (huse : Uses g m client l g') :
    TwoClients g' := by
  obtain ⟨hcg, m', hm', hphase⟩ := h
  obtain rfl := Option.some.inj (hm'.symm.trans hm)
  have hfound := huse.got.found
  have hns := huse.got.nameSpace
  refine ⟨huse.got.consumerGroup.trans hcg, ?_⟩
  rw [huse.got.returned]
  rcases hphase with ⟨hret, hempty, rfl, hcl⟩ | ⟨hret, hdef, hget, hcl⟩ | ⟨rest, hret⟩
  · -- the first use: the key is the empty consumer group
    rw [clientKey, hempty, if_pos rfl, hcg, hcl] at hfound
    rw [hempty, if_pos rfl] at hns
    rcases hfound with ⟨hsome, _, _⟩ | ⟨_, rfl, hmap, hlen⟩
    · exact absurd hsome nofun
    · refine ⟨_, hmap, Or.inr (Or.inl ⟨by rw [hret]; rfl, hns, ?_, hlen⟩)⟩
      rw [ConcurrentMap.get_set_of_ne _ _ (by decide)]
      rfl
  · -- the second: the key is `default`
    rw [clientKey, hdef, if_neg (by decide), hcl] at hfound
    rcases hfound with ⟨hsome, _, _⟩ | ⟨_, rfl, hmap, _⟩
    · rw [hget] at hsome
      exact absurd hsome nofun
    · exact ⟨_, hmap, Or.inr (Or.inr ⟨[], by rw [hret]; rfl⟩)⟩
  · have hmap : ∃ m, g'.backend.clientMap = some m := by
      rcases hfound with ⟨_, hmap, _⟩ | ⟨_, _, hmap, _⟩
      · exact ⟨_, hmap⟩
      · exact ⟨_, hmap⟩
    obtain ⟨m, hmap⟩ := hmap
    exact ⟨m, hmap, Or.inr (Or.inr ⟨rest ++ [client], by rw [hret]; rfl⟩)⟩

/-- What idle steps and uses keep, calls that leave the namespace alone keep. -/
theorem run_clients {P : Chan H E → Prop} {g₀ g : Chan H E} (hu : Unused g₀) (hinit : P g₀)
    (hidle : ∀ {g g' l}, P g → l.1.setsNamespace = false → Idle g l g' → P g')
    (huses : ∀ {g g' l m client}, g.backend.clientMap = some m → P g → Uses g m client l g' → P g')
    {ls : List (Op H E × Ret E)} (hns : ∀ l ∈ ls, l.1.setsNamespace = false) (h : Run Step g₀ ls g) :
    P g := by
  revert hns
  refine Run.invariant (fun ls g => (∀ l ∈ ls, l.1.setsNamespace = false) → P g) (fun _ => hinit) ?_ h
  intro ls g l g' hrun ih hs hns
  have hp : P g := ih (fun l hl => hns l (List.mem_append_left _ hl))
  have hc := run_counted hu hrun
  cases hop : l.1.usesClient (accepted (ls.map label)) with
  | false => exact hidle hp (hns l (by simp)) (step_idle hc.ready hc.registered hop hs)
  | true =>
      obtain ⟨m, hm⟩ := hc.ready.backend
      obtain ⟨client, huse⟩ := step_uses hm hc.registered hop hs
      exact huses hm hp huse

/-! ## Delivery -/

/-- `client` hands `msg` to a loop that calls `h` with it, whenever in the rest of the run it is taken. -/
def Reaches (g : Chan H E) (client : ℕ) (topic : GoString) (msg : Message) (h : H) : Prop :=
  ∃ i loop, g.loops[i]? = some loop ∧ loop.source = client ∧ loop.topic = topic ∧
    ∀ ls g₁ env ret g₂, Run Step g ls g₁ → Step g₁ (.deliver i msg env, ret) g₂ →
      HandedTo g₁ g₂ i msg h msg.uuid msg.payload

/-- Every publication of the run reaches every handler accepted for its topic before it. -/
def AllReach (g₀ : Chan H E) (ls : List (Op H E × Ret E)) : Prop :=
  ∀ pre l post g₁ g₂, ls = pre ++ l :: post → Run Step g₀ pre g₁ → Step g₁ l g₂ →
    ∀ client topic msg, l.2.sent = some (client, topic, msg) →
      ∀ h, AcceptedIn (pre.map label) topic h → Reaches g₂ client topic msg h

/-- `getClient` returned the same client in all calls so far. -/
def SameClient (g : Chan H E) : Prop := ∃ client, ∀ c ∈ g.backend.returned, c = client

/-- A handler served by a loop of `client` gets what `client` publishes on its topic. -/
theorem reaches_of_serving {g : Chan H E} {topic : GoString} {h : H} {i client : ℕ}
    (hserv : Serving g topic h i) (hsource : ∀ loop ∈ g.loops, loop.source = client) (msg : Message) :
    Reaches g client topic msg h := by
  obtain ⟨loop, hs, hloop, htopic, hrest⟩ := hserv
  refine ⟨i, loop, hloop, hsource loop (List.mem_of_getElem? hloop), htopic, ?_⟩
  intro ls g₁ env ret g₂ hrun hdel
  have hserv₁ : Serving g₁ topic h i := run_serving_mono (run_effect hrun) ⟨loop, hs, hloop, htopic, hrest⟩
  exact effect_handed hserv₁ rfl (deliver_effect hdel)

/-- With a namespace, every publication reaches its handlers. -/
theorem allReach_of_namespace {ns : GoString} (hne : ns ≠ []) {g₀ : Chan H E} (hu : Unused g₀)
    (hone : OneClient ns g₀) {ls : List (Op H E × Ret E)}
    (hns : ∀ l ∈ ls, l.1.setsNamespace = false) : AllReach g₀ ls := by
  rintro pre l post g₁ g₂ rfl hrun hs client topic msg hsent h hacc
  have hrun₂ : Run Step g₀ (pre ++ [l]) g₂ := hrun.snoc hs
  have hns₂ : ∀ l' ∈ pre ++ [l], l'.1.setsNamespace = false := by
    intro l' hl'
    apply hns l'
    rcases List.mem_append.mp hl' with hl' | hl'
    · exact List.mem_append_left _ hl'
    · exact List.mem_append_right _ (List.mem_cons.mpr (Or.inl (List.mem_singleton.mp hl')))
  have hone₂ : OneClient ns g₂ :=
    run_clients hu hone OneClient.idle (OneClient.uses hne) hns₂ hrun₂
  have hc := run_counted hu hrun
  obtain ⟨i, hserv⟩ := run_serving hu.fresh (run_effect hrun) hacc
  have hserv₂ : Serving g₂ topic h i := effect_serving_mono (step_effect hs) hserv
  obtain ⟨m₂, hm₂, hret₂, hsrc₂⟩ := hone₂.client
  -- the publication used the client that all loops read from
  have hclient : m₂.get ns = some client := by
    cases hop : l.1.usesClient (accepted (pre.map label)) with
    | false =>
        rw [(step_idle hc.ready hc.registered hop hs).sent] at hsent
        exact absurd hsent nofun
    | true =>
        obtain ⟨m, hm⟩ := hc.ready.backend
        obtain ⟨c, huse⟩ := step_uses hm hc.registered hop hs
        obtain rfl : client = c := huse.sent _ hsent
        exact hret₂ client (by rw [huse.got.returned]; simp)
  refine reaches_of_serving hserv₂ ?_ msg
  intro loop hloop
  have hsource := hsrc₂ loop.source (List.mem_map.mpr ⟨loop, hloop, rfl⟩)
  exact Option.some.inj (hsource.symm.trans hclient)

/-- With one use in all, a publication comes before every handler. -/
theorem allReach_of_one_use {g₀ : Chan H E} (hu : Unused g₀) {ls : List (Op H E × Ret E)}
    (hone : clientUses [] ls ≤ 1) : AllReach g₀ ls := by
  rintro pre l post g₁ g₂ rfl hrun hs client topic msg hsent h hacc
  have hc := run_counted hu hrun
  have huse : l.1.usesClient (accepted (pre.map label)) = true := by
    cases hop : l.1.usesClient (accepted (pre.map label)) with
    | false =>
        rw [(step_idle hc.ready hc.registered hop hs).sent] at hsent
        exact absurd hsent nofun
    | true => rfl
  have hzero : clientUses [] pre = 0 := by
    rw [clientUses_append, clientUses, List.nil_append, huse] at hone
    simp only [Bool.toNat_true] at hone
    omega
  have hloops : g₁.loops = [] := hc.noLoops (List.eq_nil_of_length_eq_zero (hc.count.trans hzero))
  obtain ⟨i, loop, hs', hloop, _⟩ := run_serving hu.fresh (run_effect hrun) hacc
  rw [hloops] at hloop
  exact absurd hloop (by simp)

/-- **One client for all calls.** On a Channel that `New` and its options made, over every sequence of
    calls that does not set the namespace again: `getClient` returns the same client in all calls, and
    every publication reaches every handler accepted for its topic before, exactly when the options set a
    namespace or at most one call needs the client. -/
theorem one_client_iff {g₀ g : Chan H E} {options calls : List (Op H E × Ret E)}
    (hoptions : Run Step newWithMap options g₀)
    (hskip : ∀ l ∈ options, l.1.skipsClientMap = true) (hcalls : Run Step g₀ calls g)
    (hns : ∀ l ∈ calls, l.1.setsNamespace = false) :
    (SameClient g ∧ AllReach g₀ calls) ↔ g₀.backend.nameSpace ≠ [] ∨ clientUses [] calls ≤ 1 := by
  have hu : Unused g₀ := by
    revert hskip
    refine Run.invariant (fun ls g => (∀ l ∈ ls, l.1.skipsClientMap = true) → Unused g)
      (fun _ => newWithMap_unused) ?_ hoptions
    intro ls g l g' _ ih hs hskip
    exact step_unused (ih (fun l hl => hskip l (List.mem_append_left _ hl))) (hskip l (by simp)) hs
  have hc := run_counted hu hcalls
  constructor
  · -- without a namespace two uses get clients 0 and 1
    rintro ⟨⟨client, hsame⟩, _⟩
    by_contra hnot
    rw [not_or, not_not, not_le] at hnot
    obtain ⟨hempty, htwo⟩ := hnot
    have htwo₀ : TwoClients g₀ :=
      ⟨hu.consumerGroup, .new, hu.clientMap, Or.inl ⟨hu.returned, hempty, rfl, hu.clients⟩⟩
    obtain ⟨_, m, _, hphase⟩ := run_clients hu htwo₀ TwoClients.idle TwoClients.uses hns hcalls
    rw [← hc.count] at htwo
    rcases hphase with ⟨hret, _⟩ | ⟨hret, _⟩ | ⟨rest, hret⟩
    · rw [hret] at htwo
      exact absurd htwo (by simp)
    · rw [hret] at htwo
      exact absurd htwo (by simp)
    · have h₀ := hsame 0 (by rw [hret]; simp)
      have h₁ := hsame 1 (by rw [hret]; simp)
      omega
  · rintro (hne | hone)
    · have hone₀ : OneClient g₀.backend.nameSpace g₀ := by
        refine ⟨rfl, .new, hu.clientMap, ?_, ?_⟩
        · rw [hu.returned]; nofun
        · rw [hu.fresh.loops]; nofun
      refine ⟨?_, allReach_of_namespace hne hu hone₀ hns⟩
      obtain ⟨m, _, hret, _⟩ := (run_clients hu hone₀ OneClient.idle (OneClient.uses hne) hns hcalls).client
      cases hreturned : g.backend.returned with
      | nil => exact ⟨0, by rw [hreturned]; nofun⟩
      | cons c rest =>
          refine ⟨c, ?_⟩
          intro c' hc'
          have hget := hret c (by rw [hreturned]; simp)
          exact Option.some.inj ((hret c' hc').symm.trans hget)
    · refine ⟨?_, allReach_of_one_use hu hone⟩
      rw [← hc.count] at hone
      cases hreturned : g.backend.returned with
      | nil => exact ⟨0, by rw [hreturned]; nofun⟩
      | cons c rest =>
          rw [hreturned, List.length_cons] at hone
          have hrest : rest = [] := List.eq_nil_of_length_eq_zero (by omega)
          exact ⟨c, by rw [hreturned, hrest]; simp⟩

def hello : Message := ⟨0, str "axeee", str "hello aaaa"⟩

/-- A handler is accepted for a topic, then a message is published there with `client`. -/
def subscribePublish (client : ℕ) : List (Op Unit Unit × Ret Unit) :=
  [(.subscribe (str "aaaa") () none, .ofErr none),
    (.publish (str "aaaa") (some hello) [] none, ⟨str "axeee", none, some (client, str "aaaa", hello)⟩)]

theorem one_client_iff_namespace : ∃ g₀ g,
    Run Step newWithMap [(.withNamespace (str "order"), .ofErr none)] g₀ ∧
    Run Step g₀ (subscribePublish 0) g ∧ SameClient g ∧ AllReach g₀ (subscribePublish 0) := by
  obtain ⟨g₀, g, hoptions, hcalls, hne⟩ : ∃ g₀ g : Chan Unit Unit,
      Run Step newWithMap [(.withNamespace (str "order"), .ofErr none)] g₀ ∧
      Run Step g₀ (subscribePublish 0) g ∧ g₀.backend.nameSpace = str "order" :=
    ⟨_, _, .cons rfl .nil, .cons rfl (.cons rfl .nil), rfl⟩
  refine ⟨g₀, g, hoptions, hcalls, ?_⟩
  refine (one_client_iff hoptions (by simp [Op.skipsClientMap]) hcalls
    (by simp [subscribePublish, Op.setsNamespace])).mpr (Or.inl ?_)
  rw [hne]
  decide

/-- Without a namespace, `Subscribe` reads from client 0 and `Publish` writes to client 1. -/
theorem publish_misses_handler : ∃ g, Run Step newWithMap (subscribePublish 1) g ∧ ¬ SameClient g ∧
    ¬ AllReach newWithMap (subscribePublish 1) := by
  obtain ⟨g₁, g₂, hs₁, hs₂, hret, hsrc⟩ : ∃ g₁ g₂ : Chan Unit Unit,
      Step newWithMap (.subscribe (str "aaaa") () none, .ofErr none) g₁ ∧
      Step g₁ (.publish (str "aaaa") (some hello) [] none,
        ⟨str "axeee", none, some (1, str "aaaa", hello)⟩) g₂ ∧
      g₂.backend.returned = [0, 1] ∧ g₂.loops.map Loop.source = [0] :=
    ⟨_, _, rfl, rfl, rfl, rfl⟩
  refine ⟨g₂, .cons hs₁ (.cons hs₂ .nil), ?_, ?_⟩
  · rintro ⟨client, hsame⟩
    have h₀ := hsame 0 (by rw [hret]; simp)
    have h₁ := hsame 1 (by rw [hret]; simp)
    omega
  · intro hall
    obtain ⟨i, loop, hloop, hsource, _⟩ := hall [_] _ [] g₁ g₂ rfl (.single hs₁) hs₂ 1 (str "aaaa")
      hello rfl () (Or.inl (List.mem_singleton.mpr rfl))
    have hmem : loop.source ∈ g₂.loops.map Loop.source :=
      List.mem_map.mpr ⟨loop, List.mem_of_getElem? hloop, rfl⟩
    rw [hsrc, hsource] at hmem
    exact absurd hmem (by decide)

end Gochannel
end Watermill
end ServiceKit
