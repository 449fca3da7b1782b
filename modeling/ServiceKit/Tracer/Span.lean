import ServiceKit.Lib.GoSource
import ServiceKit.Tracer.Config

/-!
# `Tracer.Span` — `tracer/tracing_method.go`

`StartSpan` shortens the name of a span by bytes and hands it, after the method in upper case, to a tracer: the one of
the span that the context holds, or of the provider of the process.
-/

namespace ServiceKit
namespace Tracer

open Lib
open Lib.GoSource (utf8)

variable {E : Type}

def maxSpanNameLength : ℕ := 60

/-- `formatSpanName`, in bytes. -/
def formatSpanName (spanName : Text) : List UInt8 :=
  if (utf8 spanName).length > maxSpanNameLength then (utf8 spanName).take maxSpanNameLength ++ utf8 "...".toList
  else utf8 spanName

/-- The span of a context, as far as it is read: whether its `SpanContext` is valid, and the provider it came from, by
    pointer (`none` is the one of OpenTelemetry that does nothing). -/
structure ContextSpan where
  isValid : Bool
  tracerProvider : Option ℕ

/-- A `trace.Tracer`. -/
structure SpanTracer where
  provider : Option ℕ
  name : String

/-- `GetTraceConfig().getTracerName()`. -/
def globalTracerName (s : State E) : String × State E :=
  match s.globalTraceConfig with
  | none => ((getTracerName ⟨"", "", "", "", [], "", false, 0, false⟩).1, s)
  | some hc => ((getTracerName (s.configs hc)).1, s.setConfig hc (getTracerName (s.configs hc)).2)

/-- `TracerFromContext`; a context without a span has one that is not valid. -/
def tracerFromContext (ctx : Option ContextSpan) (traceName : String) (s : State E) : SpanTracer × State E :=
  let (traceName, s) := if traceName = "" then globalTracerName s else (traceName, s)
  match ctx with
  | some span => (⟨if span.isValid then span.tracerProvider else s.tracerProvider, traceName⟩, s)
  | none => (⟨s.tracerProvider, traceName⟩, s)

inductive SpanKind where
  | internal
  | server
  | client
  | producer
  | consumer
  deriving DecidableEq

/-- A call of `tracer.Start`, and the attributes that the span is given. -/
structure Started where
  tracer : SpanTracer
  spanName : List UInt8
  kind : SpanKind
  attributes : List (String × Text)

/-- `StartSpan`; without a provider it starts no span and returns that of the context. -/
def startSpan (U : Unicode) (ctx : Option ContextSpan) (spanMethod spanName : Text) (s : State E) :
    Option Started × State E :=
  match s.tracerProvider with
  | none => (none, s)
  | some _ =>
      let newSpanName := formatSpanName spanName
      let newSpanName := if spanMethod = [] then newSpanName
        else utf8 (spanMethod.map U.toUpper) ++ utf8 " ".toList ++ newSpanName
      let (tracer, s) := tracerFromContext ctx "github.com/magic-lib/go-plat-trace/tracer" s
      (some ⟨tracer, newSpanName, .client, [("span_name", spanName)]⟩, s)

end Tracer
end ServiceKit
