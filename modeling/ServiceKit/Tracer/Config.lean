import Mathlib.Data.Int.Notation
import Mathlib.Logic.Function.Basic
import ServiceKit.Lib.GoError

/-!
# `Tracer.Config` — `tracer/tracing_cfg.go`

The `TraceConfig`s of a process, by pointer, and the package variables they share: the cache of providers by
endpoint, the global configuration, and `singleton`. OpenTelemetry keeps one provider for the whole process, which
`SetTracerProvider` replaces. What the exporters and the operating system answer is up to the environment (`Env`).
-/

namespace ServiceKit
namespace Tracer

open Lib (GoErr)

variable {E : Type}

/-- `TraceConfig`, without its `lastTracer`, which `InitTrace` and `Stop` leave alone. -/
structure TraceConfig where
  nameSpace : String
  serviceName : String
  endpoint : String
  batcher : String
  otlpHeaders : List (String × String)
  otlpHttpPath : String
  otlpHttpSecure : Bool
  samplerPercent : ℤ
  useGoZero : Bool
  deriving DecidableEq

def kindJaeger := "jaeger"
def kindZipkin := "zipkin"
def kindOtlpGrpc := "otlpgrpc"
def kindOtlpHttp := "otlphttp"
def kindFile := "file"
def protocolUdp := "udp"

/-- `getSampler`, in percent; the configuration keeps the value it settled on. -/
def getSampler (hc : TraceConfig) : ℤ × TraceConfig :=
  let percent := if hc.samplerPercent = 0 then 50 else hc.samplerPercent
  let percent := if percent > 100 then 100 else percent
  let percent := if percent < 0 then 0 else percent
  (percent, { hc with samplerPercent := percent })

/-- `checkConfig`, which fills in the defaults. -/
def checkConfig (hc : TraceConfig) : Option (GoErr E) × TraceConfig :=
  let hc := if hc.batcher = "" then { hc with batcher := kindJaeger } else hc
  if hc.nameSpace = "" then (some (.text "trace Namespace is required"), hc)
  else
    let (_, hc) := getSampler hc
    if hc.serviceName = "" then (some (.text "serviceName is required"), hc)
    else if hc.endpoint = "" then (some (.text "endpoint is required"), hc)
    else (none, hc)

/-- `getTracerName`. -/
def getTracerName (hc : TraceConfig) : String × TraceConfig :=
  match (checkConfig hc : Option (GoErr Empty) × TraceConfig) with
  | (some _, hc) => (hc.serviceName, hc)
  | (none, hc) => (hc.nameSpace ++ "." ++ hc.serviceName, hc)

/-- A `url.URL`, as far as it is read. -/
structure Url where
  scheme : String
  hostname : String
  port : String

/-- An exporter, by the call that makes it; an option that is left out is `none` or empty. -/
inductive Exporter where
  | jaegerAgent (host port : String)
  | jaegerCollector (endpoint : String)
  | zipkin (endpoint : String)
  | otlpGrpc (endpoint : String) (headers : List (String × String))
  | otlpHttp (endpoint : String) (insecure : Bool) (headers : List (String × String)) (urlPath : Option String)
  | stdout (path : String)
  deriving DecidableEq

/-- What the libraries answer during one call. -/
structure Env (E : Type) where
  parse : String → Except E Url
  newResource : String → Option E
  openFile : String → Option E
  newExporter : Exporter → Option E

/-- The error of an exporter's constructor, or the exporter. -/
def Env.exporter (env : Env E) (exporter : Exporter) : Except (GoErr E) Exporter :=
  match env.newExporter exporter with
  | some err => .error (.external err)
  | none => .ok exporter

/-- `createExporter`. -/
def createExporter (env : Env E) (hc : TraceConfig) : Except (GoErr E) Exporter :=
  if hc.batcher = kindJaeger then
    match env.parse hc.endpoint with
    | .ok u =>
        if u.scheme = protocolUdp then env.exporter (.jaegerAgent u.hostname u.port)
        else env.exporter (.jaegerCollector hc.endpoint)
    | .error _ => env.exporter (.jaegerCollector hc.endpoint)
  else if hc.batcher = kindZipkin then env.exporter (.zipkin hc.endpoint)
  else if hc.batcher = kindOtlpGrpc then env.exporter (.otlpGrpc hc.endpoint hc.otlpHeaders)
  else if hc.batcher = kindOtlpHttp then
    env.exporter (.otlpHttp hc.endpoint (!hc.otlpHttpSecure) hc.otlpHeaders
      (if hc.otlpHttpPath = "" then none else some hc.otlpHttpPath))
  else if hc.batcher = kindFile then
    match env.openFile hc.endpoint with
    | some err => .error (.wrapped "file exporter endpoint error: %s" (.external err))
    | none => env.exporter (.stdout hc.endpoint)
  else .error (.text ("unknown exporter: " ++ hc.batcher))

/-- A `sdktrace.TracerProvider`. -/
structure Provider where
  sampler : ℤ
  serviceName : String
  exporter : Exporter
  isShutdown : Bool
  deriving DecidableEq

/-- The process: its configurations and its providers, by pointer, the variables of the package and the global
    provider of OpenTelemetry. `once` are the outcomes that `singleton` remembers. -/
structure State (E : Type) where
  configs : ℕ → TraceConfig
  providers : List Provider
  traceProviderCache : String → Option ℕ
  globalTraceConfig : Option ℕ
  tracerProvider : Option ℕ
  once : String → Option (Option (GoErr E))

/-- A process in which neither `InitTrace` nor `Stop` was called. -/
def State.start (configs : ℕ → TraceConfig) : State E where
  configs := configs
  providers := []
  traceProviderCache _ := none
  globalTraceConfig := none
  tracerProvider := none
  once _ := none

def State.setConfig (s : State E) (hc : ℕ) (config : TraceConfig) : State E :=
  { s with configs := Function.update s.configs hc config }

/-- `SetTraceConfig`. -/
def setTraceConfig (hc : ℕ) (s : State E) : State E :=
  match (checkConfig (s.configs hc) : Option (GoErr E) × TraceConfig) with
  | (some _, config) => s.setConfig hc config
  | (none, config) => { s.setConfig hc config with globalTraceConfig := some hc }

/-- `initTraceProvider`, whose provider nobody uses. -/
def initTraceProvider (env : Env E) (hc : ℕ) (s : State E) : Option (GoErr E) × State E :=
  -- `TraceProvider()`: whoever made the provider
  match s.tracerProvider with
  | some _ => (none, s)
  | none =>
      match checkConfig (s.configs hc) with
      | (some err, config) => (some err, s.setConfig hc config)
      | (none, config) =>
          let (name, config) := getTracerName config
          match env.newResource name with
          | some err => (some (.external err), s.setConfig hc config)
          | none =>
              match createExporter env config with
              | .error err => (some err, s.setConfig hc config)
              | .ok exporter =>
                  let (sampler, config) := getSampler config
                  (none, { s.setConfig hc config with
                    providers := s.providers ++ [⟨sampler, name, exporter, false⟩]
                    tracerProvider := some s.providers.length })

/-- How `singleton.Once` treats a key that it has seen: the function ran once and for all, and its outcome is
    returned again; or it only joins calls that are under way, of which there are none here. -/
inductive Once where
  | ever
  | group
  deriving DecidableEq

/-- `singleton.Once`. -/
def Once.run (mode : Once) (key : String) (fn : State E → Option (GoErr E) × State E) (s : State E) :
    Option (GoErr E) × State E :=
  match mode with
  | .group => fn s
  | .ever =>
      match s.once key with
      | some err => (err, s)
      | none =>
          let (err, s) := fn s
          (err, { s with once := Function.update s.once key (some err) })

/-- What `InitTrace` does after `singleton.Once`; the provider it returns may be nil. -/
def cacheProvider (endpoint : String) (err : Option (GoErr E)) (s : State E) :
    Except (GoErr E) (Option ℕ) × State E :=
  match err with
  | some err => (.error err, s)
  | none =>
      match s.tracerProvider with
      | some tp =>
          (.ok (some tp), { s with traceProviderCache := Function.update s.traceProviderCache endpoint (some tp) })
      | none => (.ok none, s)

/-- `InitTrace`. -/
def initTrace (mode : Once) (env : Env E) (hc : ℕ) (s : State E) : Except (GoErr E) (Option ℕ) × State E :=
  let endpoint := (s.configs hc).endpoint
  match s.traceProviderCache endpoint with
  | some tp => (.ok (some tp), s)
  | none =>
      let s := if s.globalTraceConfig = none then setTraceConfig hc s else s
      let (err, s) := mode.run endpoint (initTraceProvider env hc) s
      cacheProvider endpoint err s

/-- `tp.Shutdown`, which leaves the provider shut down whatever it returns. -/
def State.shutdown (s : State E) (tp : ℕ) : State E :=
  { s with providers := s.providers.modify tp fun p => { p with isShutdown := true } }

/-- The last lines of `Stop`: the agent of go-zero has a provider of its own. -/
def stopAgent (hc : ℕ) (s : State E) : State E :=
  if (s.configs hc).useGoZero then s.setConfig hc { s.configs hc with useGoZero := false } else s

/-- `Stop`; `err` is what `Shutdown` returns. -/
def stop (err : Option E) (hc : ℕ) (s : State E) : State E :=
  match s.tracerProvider with
  | some tp =>
      let s := s.shutdown tp
      match err with
      | some _ => s
      | none =>
          stopAgent hc
            { s with traceProviderCache := Function.update s.traceProviderCache (s.configs hc).endpoint none }
  | none => stopAgent hc s

/-- A call, with the answers of its environment. -/
inductive Op (E : Type) where
  | initTrace (hc : ℕ) (env : Env E)
  | stop (hc : ℕ) (err : Option E)

/-- A step, labelled with the call and with what an `InitTrace` returns. -/
inductive Step (mode : Once) : State E → Op E × Option (Except (GoErr E) (Option ℕ)) → State E → Prop where
  | initTrace (hc : ℕ) (env : Env E) (s : State E) :
      Step mode s (.initTrace hc env, some (initTrace mode env hc s).1) (initTrace mode env hc s).2
  | stop (hc : ℕ) (err : Option E) (s : State E) : Step mode s (.stop hc err, none) (stop err hc s)

end Tracer
end ServiceKit
