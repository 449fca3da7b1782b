import ServiceKit.Lib.Run
import ServiceKit.Tracer.Config

/-!
# `Correctness.Liveness` — is the provider that `InitTrace` returns alive?

All configurations end up with the one provider of the process, whatever their endpoints: the first `InitTrace` that
succeeds makes it, and nothing ever replaces it. A `Stop` shuts it down and leaves it in place. So an `InitTrace`
returns a live provider until the first `Stop`, and after it only a dead one, or an error that `singleton` remembers.
-/

namespace ServiceKit
namespace Tracer

open Lib

variable {E : Type} {mode : Once} {s s' : State E} {endpoint : String}

/-- The provider is there, and was not shut down. -/
def State.Alive (s : State E) (tp : ℕ) : Prop := ∃ p, s.providers[tp]? = some p ∧ p.isShutdown = false

/-- What `InitTrace` returns is an error or a provider that is alive. -/
def State.LiveResult (s : State E) : Except (GoErr E) (Option ℕ) → Prop
  | .error _ => True
  | .ok none => False
  | .ok (some tp) => s.Alive tp

/-- `singleton` remembers an error for this endpoint. -/
def State.Refuses (mode : Once) (s : State E) (endpoint : String) : Prop :=
  mode = .ever ∧ ∃ err, s.once endpoint = some (some err)

/-- The calls of `InitTrace` that return no dead provider: those before the provider of the process is shut down, and
    those that `singleton` refuses. -/
def State.StaysLive (mode : Once) (s : State E) (endpoint : String) : Prop :=
  (∀ tp, s.tracerProvider = some tp → s.Alive tp) ∨ s.Refuses mode endpoint

/-! ## What the operations do -/

/-- The two states have the same providers, in the same places. -/
structure SameProviders (s s' : State E) : Prop where
  providers : s'.providers = s.providers
  cache : s'.traceProviderCache = s.traceProviderCache
  global : s'.tracerProvider = s.tracerProvider

theorem setTraceConfig_same (hc : ℕ) (s : State E) :
    SameProviders s (setTraceConfig hc s) ∧ (setTraceConfig hc s).once = s.once := by
  unfold setTraceConfig
  split
  · exact ⟨⟨rfl, rfl, rfl⟩, rfl⟩
  · exact ⟨⟨rfl, rfl, rfl⟩, rfl⟩

/-- **What `initTraceProvider` does**, with the error it returns. -/
inductive Provided (s : State E) : Option (GoErr E) × State E → Prop where
  | existing {tp} (hglobal : s.tracerProvider = some tp) : Provided s (none, s)
  | failed {err} {s' : State E} (hglobal : s.tracerProvider = none) (hsame : SameProviders s s')
      (honce : s'.once = s.once) :
      Provided s (some err, s')
  | created {p} {s' : State E} (hglobal : s.tracerProvider = none) (hlive : p.isShutdown = false)
      (hproviders : s'.providers = s.providers ++ [p]) (hcache : s'.traceProviderCache = s.traceProviderCache)
      (hglobal' : s'.tracerProvider = some s.providers.length) (honce : s'.once = s.once) : Provided s (none, s')

theorem initTraceProvider_provided (env : Env E) (hc : ℕ) (s : State E) :
    Provided s (initTraceProvider env hc s) := by
  unfold initTraceProvider
  cases hglobal : s.tracerProvider with
  | some tp => exact .existing hglobal
  | none =>
      have hfailed : ∀ err config, Provided s (some err, s.setConfig hc config) :=
        fun err config => .failed hglobal ⟨rfl, rfl, rfl⟩ rfl
      dsimp only
      split
      · exact hfailed _ _
      · split
        · exact hfailed _ _
        · split
          · exact hfailed _ _
          · exact .created hglobal rfl rfl rfl rfl rfl

/-- **What an `InitTrace` does**, with what it returns. -/
inductive Inited (mode : Once) (s : State E) (endpoint : String) : Except (GoErr E) (Option ℕ) × State E → Prop where
  | cached {tp} (hhit : s.traceProviderCache endpoint = some tp) : Inited mode s endpoint (.ok (some tp), s)
  | refused {err} {s' : State E} (hrefuses : s.Refuses mode endpoint) (hsame : SameProviders s s')
      (honce : s'.once = s.once) :
      Inited mode s endpoint (.error err, s')
  | failed {err} {s' : State E} (hglobal : s.tracerProvider = none) (hmiss : s.traceProviderCache endpoint = none)
      (hsame : SameProviders s s')
      (honce : s'.once = s.once ∨ s'.once = Function.update s.once endpoint (some (some err))) :
      Inited mode s endpoint (.error err, s')
  | existing {tp} {s' : State E} (haccepts : ¬ s.Refuses mode endpoint) (hglobal : s.tracerProvider = some tp)
      (hproviders : s'.providers = s.providers) (hglobal' : s'.tracerProvider = some tp)
      (hcache : s'.traceProviderCache = Function.update s.traceProviderCache endpoint (some tp))
      (honce : s'.once = s.once ∨ s'.once = Function.update s.once endpoint (some none)) :
      Inited mode s endpoint (.ok (some tp), s')
  | created {p} {s' : State E} (haccepts : ¬ s.Refuses mode endpoint) (hglobal : s.tracerProvider = none)
      (hlive : p.isShutdown = false) (hproviders : s'.providers = s.providers ++ [p])
      (hglobal' : s'.tracerProvider = some s.providers.length)
      (hcache : s'.traceProviderCache =
        Function.update s.traceProviderCache endpoint (some s.providers.length))
      (honce : s'.once = s.once ∨ s'.once = Function.update s.once endpoint (some none)) :
      Inited mode s endpoint (.ok (some s.providers.length), s')
  | nothing {s' : State E} (hglobal : s.tracerProvider = none) (honce : s.once endpoint = some none) :
      Inited mode s endpoint (.ok none, s')

/-- What comes after `singleton.Once` ran the function. -/
theorem inited_of_provided {s₁ s₂ s₃ : State E} {err : Option (GoErr E)}
    (hmiss : s.traceProviderCache endpoint = none) (haccepts : ¬ s.Refuses mode endpoint)
    (hsame : SameProviders s s₁) (honce : s₁.once = s.once) (hp : Provided s₁ (err, s₂))
    (hsame' : SameProviders s₂ s₃)
    (honce' : s₃.once = s₂.once ∨ s₃.once = Function.update s₂.once endpoint (some err)) :
    Inited mode s endpoint (cacheProvider endpoint err s₃) := by
  cases hp with
  | @existing tp hglobal =>
      have hglobal₃ : s₃.tracerProvider = some tp := hsame'.global.trans hglobal
      rw [honce] at honce'
      unfold cacheProvider
      rw [hglobal₃]
      refine .existing haccepts (hsame.global.symm.trans hglobal) ?_ rfl ?_ honce'
      · exact hsame'.providers.trans hsame.providers
      · show Function.update s₃.traceProviderCache _ _ = _
        rw [hsame'.cache, hsame.cache]
  | @failed err _ hglobal hsame₁ honce₁ =>
      rw [honce₁, honce] at honce'
      refine .failed (hsame.global.symm.trans hglobal) hmiss ⟨?_, ?_, ?_⟩ honce'
      · rw [hsame'.providers, hsame₁.providers, hsame.providers]
      · rw [hsame'.cache, hsame₁.cache, hsame.cache]
      · rw [hsame'.global, hsame₁.global, hsame.global]
  | @created p _ hglobal hlive hproviders hcache hglobal' honce₁ =>
      have hglobal₃ : s₃.tracerProvider = some s.providers.length := by
        rw [hsame'.global, hglobal', hsame.providers]
      rw [honce₁, honce] at honce'
      unfold cacheProvider
      rw [hglobal₃]
      refine .created haccepts (hsame.global.symm.trans hglobal) hlive ?_ rfl ?_ honce'
      · show s₃.providers = _
        rw [hsame'.providers, hproviders, hsame.providers]
      · show Function.update s₃.traceProviderCache _ _ = _
        rw [hsame'.cache, hcache, hsame.cache]

theorem initTrace_inited (mode : Once) (env : Env E) (hc : ℕ) (s : State E) :
    Inited mode s (s.configs hc).endpoint (initTrace mode env hc s) := by
  unfold initTrace
  dsimp only
  cases hcache : s.traceProviderCache (s.configs hc).endpoint with
  | some tp => exact .cached hcache
  | none =>
      have hset : SameProviders s (if s.globalTraceConfig = none then setTraceConfig hc s else s) ∧
          (if s.globalTraceConfig = none then setTraceConfig hc s else s).once = s.once := by
        split
        · exact setTraceConfig_same hc s
        · exact ⟨⟨rfl, rfl, rfl⟩, rfl⟩
      dsimp only
      generalize (if s.globalTraceConfig = none then setTraceConfig hc s else s) = s₁ at hset ⊢
      obtain ⟨hsame, honce⟩ := hset
      have hp := initTraceProvider_provided env hc s₁
      rcases hr : initTraceProvider env hc s₁ with ⟨err, s₂⟩
      rw [hr] at hp
      cases mode with
      | group =>
          have haccepts : ¬ s.Refuses .group (s.configs hc).endpoint := fun h => nomatch h.1
          unfold Once.run
          rw [hr]
          exact inited_of_provided hcache haccepts hsame honce hp ⟨rfl, rfl, rfl⟩ (Or.inl rfl)
      | ever =>
          unfold Once.run
          dsimp only
          cases hrem : s₁.once (s.configs hc).endpoint with
          | none =>
              have haccepts : ¬ s.Refuses .ever (s.configs hc).endpoint := by
                rintro ⟨_, err, herr⟩
                rw [← honce, hrem] at herr
                exact absurd herr nofun
              rw [hr]
              exact inited_of_provided hcache haccepts hsame honce hp ⟨rfl, rfl, rfl⟩ (Or.inr rfl)
          | some err =>
              rw [honce] at hrem
              cases err with
              | some err => exact .refused ⟨rfl, err, hrem⟩ hsame honce
              | none =>
                  have haccepts : ¬ s.Refuses .ever (s.configs hc).endpoint := by
                    rintro ⟨_, err, herr⟩
                    rw [hrem] at herr
                    exact absurd herr nofun
                  dsimp only
                  unfold cacheProvider
                  cases hglobal : s₁.tracerProvider with
                  | none => exact .nothing (hsame.global.symm.trans hglobal) hrem
                  | some tp =>
                      refine .existing haccepts (hsame.global.symm.trans hglobal) hsame.providers rfl ?_
                        (Or.inl honce)
                      rw [← hsame.cache]

/-! ## The invariant -/

/-- **The invariant of the process.** Only the provider of the process is ever cached, and where `singleton` remembers
    a success there is one. -/
structure Inv (mode : Once) (s : State E) : Prop where
  cached : ∀ endpoint tp, s.traceProviderCache endpoint = some tp → s.tracerProvider = some tp
  valid : ∀ tp, s.tracerProvider = some tp → tp < s.providers.length
  succeeded : ∀ endpoint, s.once endpoint = some none → s.tracerProvider ≠ none
  refused : ∀ endpoint, s.Refuses mode endpoint → s.traceProviderCache endpoint = none

theorem inv_start (mode : Once) (configs : ℕ → TraceConfig) : Inv mode (State.start configs : State E) where
  cached _ _ h := nomatch h
  valid _ h := nomatch h
  succeeded _ h := nomatch h
  refused _ _ := rfl

/-- **What a `Stop` can do**: shut the provider of the process down, and forget what is cached for one endpoint. -/
structure Stopped (s s' : State E) : Prop where
  global : s'.tracerProvider = s.tracerProvider
  once : s'.once = s.once
  length : s'.providers.length = s.providers.length
  cache : ∀ endpoint tp, s'.traceProviderCache endpoint = some tp → s.traceProviderCache endpoint = some tp

theorem Stopped.trans {s'' : State E} (h : Stopped s s') (h' : Stopped s' s'') : Stopped s s'' where
  global := h'.global.trans h.global
  once := h'.once.trans h.once
  length := h'.length.trans h.length
  cache endpoint tp hget := h.cache endpoint tp (h'.cache endpoint tp hget)

theorem stopAgent_stopped (hc : ℕ) (s : State E) : Stopped s (stopAgent hc s) := by
  unfold stopAgent
  split
  · exact ⟨rfl, rfl, rfl, fun _ _ h => h⟩
  · exact ⟨rfl, rfl, rfl, fun _ _ h => h⟩

theorem stop_stopped (err : Option E) (hc : ℕ) (s : State E) : Stopped s (stop err hc s) := by
  unfold stop
  cases hglobal : s.tracerProvider with
  | none => exact stopAgent_stopped hc s
  | some tp =>
      have hshut : Stopped s (s.shutdown tp) := ⟨rfl, rfl, List.length_modify .., fun _ _ h => h⟩
      cases err with
      | some err => exact hshut
      | none =>
          have hforget : ∀ e, Stopped (s.shutdown tp)
              { s.shutdown tp with
                traceProviderCache := Function.update (s.shutdown tp).traceProviderCache e none } := by
            refine fun e => ⟨rfl, rfl, rfl, ?_⟩
            intro endpoint tp' hget
            dsimp only at hget
            by_cases he : endpoint = e
            · rw [he, Function.update_self] at hget
              exact absurd hget nofun
            · rwa [Function.update_of_ne he] at hget
          exact (hshut.trans (hforget _)).trans (stopAgent_stopped hc _)

theorem Inv.stopped (h : Inv mode s) (hs : Stopped s s') : Inv mode s' where
  cached endpoint tp hget := hs.global.trans (h.cached endpoint tp (hs.cache endpoint tp hget))
  valid tp hglobal := by
    rw [hs.length]
    exact h.valid tp (hs.global.symm.trans hglobal)
  succeeded endpoint honce := by
    rw [hs.global]
    exact h.succeeded endpoint (hs.once ▸ honce)
  refused endpoint hrefuses := by
    obtain ⟨hmode, err, honce⟩ := hrefuses
    have hnone := h.refused endpoint ⟨hmode, err, hs.once ▸ honce⟩
    cases hget : s'.traceProviderCache endpoint with
    | none => rfl
    | some tp => exact absurd (hnone.symm.trans (hs.cache endpoint tp hget)) nofun

/-- A call that leaves the providers as they were. -/
theorem Inv.same (h : Inv mode s) (hsame : SameProviders s s') (honce : s'.once = s.once) : Inv mode s' :=
  h.stopped ⟨hsame.global, honce, congrArg List.length hsame.providers, fun _ _ hget => hsame.cache ▸ hget⟩

/-- A call that fails, which `singleton` may remember. -/
theorem Inv.failed {err : GoErr E} (h : Inv mode s) (hmiss : s.traceProviderCache endpoint = none)
    (hsame : SameProviders s s') (honce : s'.once = Function.update s.once endpoint (some (some err))) :
    Inv mode s' where
  cached e tp hget := hsame.global.trans (h.cached e tp (hsame.cache ▸ hget))
  valid tp hglobal := by
    rw [hsame.providers]
    exact h.valid tp (hsame.global.symm.trans hglobal)
  succeeded e hnone := by
    rw [hsame.global]
    by_cases he : e = endpoint
    · rw [honce, he, Function.update_self] at hnone
      exact absurd (Option.some.inj hnone) nofun
    · rw [honce, Function.update_of_ne he] at hnone
      exact h.succeeded e hnone
  refused e hrefuses := by
    rw [hsame.cache]
    by_cases he : e = endpoint
    · rw [he]
      exact hmiss
    · obtain ⟨hmode, err', herr⟩ := hrefuses
      rw [honce, Function.update_of_ne he] at herr
      exact h.refused e ⟨hmode, err', herr⟩

/-- A call that ends with the provider `tp` in the process and cached for `endpoint`. -/
theorem Inv.provided {tp : ℕ} (h : Inv mode s) (hnew : ∀ tp', s.tracerProvider = some tp' → tp' = tp)
    (hglobal : s'.tracerProvider = some tp) (hvalid : tp < s'.providers.length)
    (hcache : s'.traceProviderCache = Function.update s.traceProviderCache endpoint (some tp))
    (haccepts : ¬ s.Refuses mode endpoint)
    (honce : s'.once = s.once ∨ s'.once = Function.update s.once endpoint (some none)) : Inv mode s' := by
  have hold : ∀ e err, s'.once e = some (some err) → s.once e = some (some err) := by
    intro e err herr
    rcases honce with heq | heq
    · rwa [heq] at herr
    · by_cases he : e = endpoint
      · rw [heq, he, Function.update_self] at herr
        exact absurd (Option.some.inj herr) nofun
      · rwa [heq, Function.update_of_ne he] at herr
  refine ⟨?_, ?_, ?_, ?_⟩
  · intro e tp' hget
    rw [hcache] at hget
    by_cases he : e = endpoint
    · rw [he, Function.update_self] at hget
      exact hglobal.trans hget
    · rw [Function.update_of_ne he] at hget
      obtain rfl := hnew tp' (h.cached e tp' hget)
      exact hglobal
  · intro tp' htp
    obtain rfl := Option.some.inj (hglobal.symm.trans htp)
    exact hvalid
  · intro e _
    rw [hglobal]
    nofun
  · rintro e ⟨hmode, err, herr⟩
    have hrefused : s.Refuses mode e := ⟨hmode, err, hold e err herr⟩
    have hne : e ≠ endpoint := by
      rintro rfl
      exact haccepts hrefused
    rw [hcache, Function.update_of_ne hne]
    exact h.refused e hrefused

/-- **Step lemma.** -/
theorem Inv.step {l : Op E × Option (Except (GoErr E) (Option ℕ))} (h : Inv mode s) (hs : Step mode s l s') :
    Inv mode s' := by
  cases hs with
  | stop hc err => exact h.stopped (stop_stopped err hc s)
  | initTrace hc env =>
      have hinit := initTrace_inited mode env hc s
      generalize initTrace mode env hc s = r at hinit ⊢
      cases hinit with
      | cached _ => exact h
      | refused _ hsame honce => exact h.same hsame honce
      | failed _ hmiss hsame honce =>
          rcases honce with honce | honce
          · exact h.same hsame honce
          · exact h.failed hmiss hsame honce
      | existing haccepts hglobal hproviders hglobal' hcache honce =>
          refine h.provided ?_ hglobal' ?_ hcache haccepts honce
          · exact fun tp' htp => Option.some.inj (htp.symm.trans hglobal)
          · rw [hproviders]
            exact h.valid _ hglobal
      | created haccepts hglobal _ hproviders hglobal' hcache honce =>
          refine h.provided ?_ hglobal' ?_ hcache haccepts honce
          · exact fun tp' htp => absurd (htp.symm.trans hglobal) nofun
          · rw [hproviders]
            simp
      | nothing hglobal honce => exact absurd hglobal (h.succeeded _ honce)

theorem run_inv {configs : ℕ → TraceConfig} {ls : List (Op E × Option (Except (GoErr E) (Option ℕ)))}
    (hrun : Run (Step mode) (State.start configs) ls s) : Inv mode s :=
  hrun.preserves (inv_start mode configs) (fun _ _ _ h hs => h.step hs)

/-! ## Liveness -/

/-- An `InitTrace` returns a live provider, or an error, exactly when it `StaysLive`. -/
theorem initTrace_live_iff (h : Inv mode s) (env : Env E) (hc : ℕ) :
    (initTrace mode env hc s).2.LiveResult (initTrace mode env hc s).1 ↔
      s.StaysLive mode (s.configs hc).endpoint := by
  have hinit := initTrace_inited mode env hc s
  generalize initTrace mode env hc s = r at hinit ⊢
  have halive : ∀ {tp}, s.tracerProvider = some tp → ¬ s.Refuses mode (s.configs hc).endpoint →
      (s.Alive tp ↔ s.StaysLive mode (s.configs hc).endpoint) := by
    intro tp hglobal haccepts
    constructor
    · intro hlive
      left
      intro tp' htp
      obtain rfl := Option.some.inj (htp.symm.trans hglobal)
      exact hlive
    · intro hstays
      exact hstays.resolve_right haccepts tp hglobal
  cases hinit with
  | cached hhit =>
      have haccepts : ¬ s.Refuses mode (s.configs hc).endpoint := fun hrefuses =>
        absurd (hhit.symm.trans (h.refused _ hrefuses)) nofun
      exact halive (h.cached _ _ hhit) haccepts
  | refused hrefuses _ _ => exact iff_of_true trivial (Or.inr hrefuses)
  | failed hglobal _ _ _ =>
      exact iff_of_true trivial (Or.inl fun tp htp => absurd (htp.symm.trans hglobal) nofun)
  | @existing tp s' haccepts hglobal hproviders _ _ _ =>
      have hsame : s'.Alive tp ↔ s.Alive tp := by
        unfold State.Alive
        rw [hproviders]
      exact hsame.trans (halive hglobal haccepts)
  | @created p s' _ hglobal hlive hproviders _ _ _ =>
      have hnew : s'.Alive s.providers.length := ⟨p, by rw [hproviders, List.getElem?_concat_length], hlive⟩
      exact iff_of_true hnew (Or.inl fun tp htp => absurd (htp.symm.trans hglobal) nofun)
  | nothing hglobal honce => exact absurd hglobal (h.succeeded _ honce)

/-- The step is no `InitTrace`, or one that returns a live provider or an error. -/
def LiveStep (_ : State E) (l : Op E × Option (Except (GoErr E) (Option ℕ))) (s' : State E) : Prop :=
  ∀ result, l.2 = some result → s'.LiveResult result

/-- The step is no `InitTrace`, or one that `StaysLive`. -/
def StaysLiveStep (mode : Once) (s : State E) (l : Op E × Option (Except (GoErr E) (Option ℕ))) (_ : State E) :
    Prop :=
  ∀ hc env, l.1 = .initTrace hc env → s.StaysLive mode (s.configs hc).endpoint

theorem liveStep_iff (h : Inv mode s) {l : Op E × Option (Except (GoErr E) (Option ℕ))} (hs : Step mode s l s') :
    LiveStep s l s' ↔ StaysLiveStep mode s l s' := by
  cases hs with
  | stop hc err => exact iff_of_true (fun _ hres => nomatch hres) (fun _ _ hop => nomatch hop)
  | initTrace hc env =>
      constructor
      · intro hlive hc' env' hop
        obtain ⟨rfl, rfl⟩ := Op.initTrace.inj hop
        exact (initTrace_live_iff h env hc).mp (hlive _ rfl)
      · intro hstays result hres
        obtain rfl := Option.some.inj hres
        exact (initTrace_live_iff h env hc).mpr (hstays hc env rfl)

/-- **Liveness.** In every sequence of calls, the `InitTrace`s all return live providers (or errors) exactly when all
    of them are called while the provider of the process is not shut down, or are refused by `singleton`. -/
theorem providers_live_iff (mode : Once) (configs : ℕ → TraceConfig)
    (ls : List (Op E × Option (Except (GoErr E) (Option ℕ)))) (s : State E) :
    Throughout (Step mode) LiveStep (State.start configs) ls s ↔
      Throughout (Step mode) (StaysLiveStep mode) (State.start configs) ls s :=
  throughout_congr (fun _ _ _ _ hrun hstep => liveStep_iff (run_inv hrun) hstep)

/-- A collector that takes everything. -/
def quietEnv : Env Unit where
  parse _ := .error ()
  newResource _ := none
  openFile _ := none
  newExporter _ := none

/-- One configuration, whatever the pointer. -/
def orders (_ : ℕ) : TraceConfig where
  nameSpace := "shop"
  serviceName := "orders"
  endpoint := "http://127.0.0.1:14268/api/traces"
  batcher := ""
  otlpHeaders := []
  otlpHttpPath := ""
  otlpHttpSecure := false
  samplerPercent := 0
  useGoZero := false

/-- The process after `InitTrace` and `Stop`. -/
def restarted (mode : Once) : State Unit := stop none 0 (initTrace mode quietEnv 0 (State.start orders)).2

def restart (mode : Once) : List (Op Unit × Option (Except (GoErr Unit) (Option ℕ))) :=
  [(.initTrace 0 quietEnv, some (initTrace mode quietEnv 0 (State.start orders)).1), (.stop 0 none, none)]

theorem restarted_run (mode : Once) : Run (Step mode) (State.start orders) (restart mode) (restarted mode) :=
  .cons (.initTrace 0 quietEnv _) (.single (.stop 0 none _))

theorem restarted_not_stays (mode : Once) :
    ¬ (restarted mode).StaysLive mode ((restarted mode).configs 0).endpoint := by
  rintro (hlive | ⟨hmode, err, honce⟩)
  · obtain ⟨p, hp, hshut⟩ := hlive 0 (by cases mode <;> rfl)
    have hdead : (restarted mode).providers[0]? =
        some ⟨50, "shop.orders", .jaegerCollector "http://127.0.0.1:14268/api/traces", true⟩ := by
      cases mode <;> rfl
    obtain rfl := Option.some.inj (hp.symm.trans hdead)
    exact absurd hshut nofun
  · subst hmode
    have hnone : (restarted .ever).once ((restarted .ever).configs 0).endpoint = some none := rfl
    exact absurd (Option.some.inj (honce.symm.trans hnone)) nofun

/-- Some sequence of calls on the configuration has an `InitTrace` that returns a dead provider. -/
def OrdersDie (mode : Once) : Prop :=
  ∃ (ls : List (Op Unit × Option (Except (GoErr Unit) (Option ℕ)))) (s : State Unit),
    Run (Step mode) (State.start orders) ls s ∧ ¬ Throughout (Step mode) LiveStep (State.start orders) ls s

theorem orders_die (mode : Once) : OrdersDie mode := by
  refine ⟨_, _, (restarted_run mode).append (.single (.initTrace 0 quietEnv _)), ?_⟩
  intro hall
  have hlast := hall (restart mode) _ [] _ _ rfl (restarted_run mode) (.initTrace 0 quietEnv _) .nil
  exact restarted_not_stays mode
    ((initTrace_live_iff (run_inv (restarted_run mode)) quietEnv 0).mp (hlast _ rfl))

/-- **A dead provider.** After `InitTrace` and `Stop`, the next `InitTrace` returns the provider that was shut down. -/
theorem providers_not_live : OrdersDie .ever ∧ OrdersDie .group := ⟨orders_die .ever, orders_die .group⟩

end Tracer
end ServiceKit
