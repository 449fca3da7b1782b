import ServiceKit.Lib.Utf8
import ServiceKit.Tracer.Span

/-!
# `Correctness.SpanNames` — which span names are cut between two runes

A name of more than `maxSpanNameLength` bytes is cut after so many of them, wherever that is. What reaches the tracer
is text, and begins with runes of the name, exactly when the name is short enough or a rune ends there (`Fits`). The
length is bounded in any case.
-/

namespace ServiceKit
namespace Tracer

open Lib
open Lib.GoSource (utf8 utf8_append)
open Lib.Utf8 (Valid valid_append_utf8_iff valid_take_iff valid_utf8_append_iff)

variable {E : Type} {U : Unicode} {spanMethod spanName : Text}

/-- The name has at most `maxSpanNameLength` bytes, or one of its runes ends after just so many. -/
def Fits (spanName : Text) : Prop :=
  (utf8 spanName).length ≤ maxSpanNameLength ∨ ∃ kept, kept <+: spanName ∧ (utf8 kept).length = maxSpanNameLength

/-- What stands before the name. -/
def methodPart (U : Unicode) (spanMethod : Text) : Text :=
  if spanMethod = [] then [] else spanMethod.map U.toUpper ++ " ".toList

/-- A bound on the length of the name, for any `spanName`. -/
def nameBound (U : Unicode) (spanMethod : Text) : ℕ := (utf8 (methodPart U spanMethod)).length + maxSpanNameLength + 3

/-- The name that the tracer is to be handed: valid, of bounded length, and with a prefix of `spanName` kept. -/
structure SpanNameRight (U : Unicode) (spanMethod spanName : Text) (name : List UInt8) : Prop where
  valid : Valid name
  bounded : name.length ≤ nameBound U spanMethod
  kept : ∃ kept dots, kept <+: spanName ∧ dots ∈ [[], "...".toList] ∧
    name = utf8 (methodPart U spanMethod) ++ (utf8 kept ++ utf8 dots)

/-! ## The cut -/

theorem length_formatSpanName_le (spanName : Text) : (formatSpanName spanName).length ≤ maxSpanNameLength + 3 := by
  rw [formatSpanName]
  split
  · have hdots : (utf8 "...".toList).length = 3 := by decide
    rw [List.length_append, List.length_take, hdots]
    omega
  · omega

theorem kept_of_fits (h : Fits spanName) :
    ∃ kept dots, kept <+: spanName ∧ dots ∈ [[], "...".toList] ∧ formatSpanName spanName = utf8 kept ++ utf8 dots := by
  rw [formatSpanName]
  split
  · next hlong =>
      rcases h with hshort | ⟨kept, hprefix, hlen⟩
      · omega
      · obtain ⟨rest, rfl⟩ := id hprefix
        refine ⟨kept, "...".toList, hprefix, by simp, ?_⟩
        rw [utf8_append, ← hlen, List.take_left]
  · exact ⟨spanName, [], List.prefix_rfl, by simp, (List.append_nil _).symm⟩

theorem valid_formatSpanName_iff : Valid (formatSpanName spanName) ↔ Fits spanName := by
  constructor
  · intro h
    rw [formatSpanName] at h
    split at h
    · next hlong =>
        have htake := valid_append_utf8_iff.mp h
        exact Or.inr ((valid_take_iff (Nat.le_of_lt hlong)).mp htake)
    · next hshort => exact Or.inl (Nat.le_of_not_lt hshort)
  · intro h
    obtain ⟨kept, dots, -, -, heq⟩ := kept_of_fits h
    exact ⟨kept ++ dots, by rw [utf8_append, heq]⟩

/-- **The name for a method** is right when the cut is between two runes. -/
theorem spanNameRight_iff :
    SpanNameRight U spanMethod spanName (utf8 (methodPart U spanMethod) ++ formatSpanName spanName) ↔
      Fits spanName := by
  constructor
  · intro h
    exact valid_formatSpanName_iff.mp (valid_utf8_append_iff.mp h.valid)
  · intro h
    refine ⟨valid_utf8_append_iff.mpr (valid_formatSpanName_iff.mpr h), ?_, ?_⟩
    · have hlen := length_formatSpanName_le spanName
      rw [List.length_append, nameBound]
      omega
    · obtain ⟨kept, dots, hprefix, hdots, heq⟩ := kept_of_fits h
      exact ⟨kept, dots, hprefix, hdots, by rw [heq]⟩

/-! ## Starting a span -/

/-- **What `StartSpan` does**: it hands the tracer a name exactly where there is a provider. -/
theorem startSpan_spanName (ctx : Option ContextSpan) (spanMethod spanName : Text) (s : State E) :
    (startSpan U ctx spanMethod spanName s).1.map Started.spanName =
      s.tracerProvider.map fun _ => utf8 (methodPart U spanMethod) ++ formatSpanName spanName := by
  rw [startSpan, methodPart]
  cases s.tracerProvider with
  | none => rfl
  | some tp =>
      by_cases hmethod : spanMethod = []
      · simp [hmethod, utf8]
      · simp [hmethod, utf8_append]

/-- Every call of `tracer.Start` that it makes has the name that it is to have. -/
def HandsRightName (U : Unicode) (ctx : Option ContextSpan) (spanMethod spanName : Text) (s : State E) : Prop :=
  ∀ call, (startSpan U ctx spanMethod spanName s).1 = some call → SpanNameRight U spanMethod spanName call.spanName

/-- **Span names.** The tracer is handed the right name exactly where the cut is between two runes. -/
theorem handsRightName_iff (U : Unicode) (ctx : Option ContextSpan) (spanMethod spanName : Text) (s : State E) :
    HandsRightName U ctx spanMethod spanName s ↔ s.tracerProvider = none ∨ Fits spanName := by
  have hname := startSpan_spanName (U := U) ctx spanMethod spanName s
  cases hcall : (startSpan U ctx spanMethod spanName s).1 with
  | none =>
      rw [hcall] at hname
      have hnone : s.tracerProvider = none := Option.map_eq_none_iff.mp hname.symm
      refine iff_of_true ?_ (Or.inl hnone)
      intro call h
      exact absurd (hcall.symm.trans h) nofun
  | some call =>
      rw [hcall] at hname
      obtain ⟨tp, htp, heq⟩ := Option.map_eq_some_iff.mp hname.symm
      have hright : SpanNameRight U spanMethod spanName call.spanName ↔ Fits spanName := by
        rw [← heq]
        exact spanNameRight_iff
      rw [htp, or_iff_right nofun, ← hright]
      constructor
      · intro h
        exact h call hcall
      · intro h call' hcall'
        rw [Option.some.inj (hcall'.symm.trans hcall)]
        exact h

/-- A process with a provider. -/
def traced : State Empty :=
  { State.start fun _ => ⟨"", "", "", "", [], "", false, 0, false⟩ with tracerProvider := some 0 }

/-- 59 ASCII runes, and one of three bytes. -/
def straddling : Text := List.replicate 59 'a' ++ ['名']

/-- The cut is inside the last rune of the name. -/
theorem not_handsRightName :
    ¬∀ (U : Unicode) (ctx : Option ContextSpan) (spanMethod spanName : Text) (s : State Empty),
      HandsRightName U ctx spanMethod spanName s := by
  intro h
  have hright : SpanNameRight Unicode.ascii [] straddling (formatSpanName straddling) :=
    h Unicode.ascii none [] straddling traced _ rfl
  rcases valid_formatSpanName_iff.mp hright.valid with hshort | ⟨kept, hprefix, hlen⟩
  · exact absurd hshort (by decide)
  · rcases List.prefix_concat_iff.mp hprefix with rfl | hprefix
    · exact absurd hlen (by decide)
    · obtain ⟨rest, hrest⟩ := hprefix
      have hbytes := congrArg (fun t => (utf8 t).length) hrest
      have htotal : (utf8 (List.replicate 59 'a')).length = 59 := by decide
      simp only [utf8_append, List.length_append, htotal, hlen, maxSpanNameLength] at hbytes
      omega

end Tracer
end ServiceKit
