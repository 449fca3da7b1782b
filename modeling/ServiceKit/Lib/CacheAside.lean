import ServiceKit.Lib.Run

/-!
# `Lib.CacheAside` — a cache beside a store

Readers load what the store holds and put it into the cache later; writers change the store and delete the entry later.
`CacheAside` is one key of such a system, by the laws of its steps. An entry that no longer stands for what the store
holds has one of three causes (`stale`): the last change announced no deletion, its deletion is still owed (or was given
up), or a reader that had loaded before the change put its entry after it.
-/

namespace ServiceKit
namespace Lib

/-- One key of a system with a store and a cache. -/
structure CacheAside (S L T V D : Type*) where
  Step : S → L → S → Prop
  /-- what the store holds -/
  value : S → V
  /-- what the cache holds -/
  entry : S → Option D
  /-- the entries that stand for a value -/
  Current : V → D → Prop
  /-- a reader is about to put an entry -/
  Loaded : S → T → D → Prop
  /-- a deletion of the entry is to come -/
  Owed : S → Prop
  /-- a reader begins anew -/
  Begins : T → L → Prop
  /-- the change is followed by a deletion -/
  Announces : L → Prop
  /-- a deletion is given up -/
  Drops : L → Prop
  entry_step : ∀ {s l t d}, Step s l t → entry t = some d →
    entry s = some d ∨ value t = value s ∧ ∃ r, Loaded s r d
  loaded_step : ∀ {s l t r d}, Step s l t → Loaded t r d → Loaded s r d ∧ ¬ Begins r l ∨ Current (value t) d
  owed_step : ∀ {s l t}, Step s l t → Owed s → entry t ≠ none → Owed t ∨ Drops l
  write_step : ∀ {s l t}, Step s l t → value t ≠ value s → Announces l → Owed t

namespace CacheAside

variable {S L T V D : Type*} (A : CacheAside S L T V D)

/-- A step that leaves the value alone. -/
def Quiet (s : S) (l : L) (t : S) : Prop := A.Step s l t ∧ A.value t = A.value s

/-- A quiet step after which this is the entry. -/
def Keeps (d : D) (s : S) (l : L) (t : S) : Prop := A.Quiet s l t ∧ A.entry t = some d

/-- A quiet step with which this reader does not begin anew. -/
def Awaits (r : T) (s : S) (l : L) (t : S) : Prop := A.Quiet s l t ∧ ¬ A.Begins r l

/-- The last change of the value in a run: by `l`, from `u` to `u'`. -/
structure LastChange (s₀ : S) (ls : List L) (s : S) (u : S) (l : L) (u' : S) (post : List L) : Prop where
  before : ∃ pre, ls = pre ++ l :: post ∧ Run A.Step s₀ pre u
  change : A.Step u l u'
  differs : A.value u' ≠ A.value u
  after : Run A.Quiet u' post s

/-- Why an entry does not stand for the value since the change by `l`. -/
inductive Cause (d : D) (u : S) (l : L) (u' : S) (post : List L) (s : S) : Prop where
  /-- no deletion was announced -/
  | unannounced (h : ¬ A.Announces l)
  /-- the entry is as it was before the change, and its deletion is to come or was given up -/
  | undeleted (hbefore : A.entry u = some d) (hkept : Run (A.Keeps d) u' post s)
      (howed : A.Owed s ∨ ∃ l' ∈ post, A.Drops l')
  /-- a reader that had loaded the entry before the change put it afterwards -/
  | overtaken (r : T) (mid : List L) (p : L) (rest : List L) (x y : S) (hpost : post = mid ++ p :: rest)
      (hloaded : A.Loaded u r d) (hawaits : Run (A.Awaits r) u' mid x) (hput : A.Quiet x p y)
      (hentry : A.entry y = some d) (hkept : Run (A.Keeps d) y rest s)

variable {A} {s₀ s s' u u' : S} {l e : L} {ls post : List L} {d : D}

theorem LastChange.snoc (h : A.LastChange s₀ ls s u l u' post) (hq : A.Quiet s e s') :
    A.LastChange s₀ (ls ++ [e]) s' u l u' (post ++ [e]) := by
  obtain ⟨pre, hls, hpre⟩ := h.before
  exact ⟨⟨pre, by rw [hls, List.append_assoc, List.cons_append], hpre⟩, h.change, h.differs, h.after.snoc hq⟩

theorem Cause.snoc (h : A.Cause d u l u' post s) (hq : A.Quiet s e s') (hentry : A.entry s' = some d) :
    A.Cause d u l u' (post ++ [e]) s' := by
  cases h with
  | unannounced h => exact .unannounced h
  | undeleted hbefore hkept howed =>
      refine .undeleted hbefore (hkept.snoc ⟨hq, hentry⟩) ?_
      rcases howed with howed | ⟨l', hl', hdrops⟩
      · rcases A.owed_step hq.1 howed (by rw [hentry]; exact Option.some_ne_none d) with howed | hdrops
        · exact .inl howed
        · exact .inr ⟨e, List.mem_append_right _ (List.mem_singleton_self e), hdrops⟩
      · exact .inr ⟨l', List.mem_append_left _ hl', hdrops⟩
  | overtaken r mid p rest x y hpost hloaded hawaits hput hput' hkept =>
      refine .overtaken r mid p (rest ++ [e]) x y ?_ hloaded hawaits hput hput' (hkept.snoc ⟨hq, hentry⟩)
      rw [hpost, List.append_assoc, List.cons_append]

variable (A) in
/-- What a run says about the entries that readers have loaded and about the one in the cache. -/
structure Explained (s₀ : S) (ls : List L) (s : S) : Prop where
  loaded : ∀ r d, A.Loaded s r d → A.Current (A.value s) d ∨
    ∃ u l u' post, A.LastChange s₀ ls s u l u' post ∧ A.Loaded u r d ∧ Run (A.Awaits r) u' post s
  entry : ∀ d, A.entry s = some d → A.Current (A.value s) d ∨
    ∃ u l u' post, A.LastChange s₀ ls s u l u' post ∧ A.Cause d u l u' post s

theorem Explained.quiet (h : A.Explained s₀ ls s) (hq : A.Quiet s e s') : A.Explained s₀ (ls ++ [e]) s' where
  loaded := by
    intro r d hr
    rcases A.loaded_step hq.1 hr with ⟨hr, hbegins⟩ | hcurrent
    · rcases h.loaded r d hr with hcurrent | ⟨u, l, u', post, hlast, hu, hawaits⟩
      · exact .inl (hq.2 ▸ hcurrent)
      · exact .inr ⟨u, l, u', post ++ [e], hlast.snoc hq, hu, hawaits.snoc ⟨hq, hbegins⟩⟩
    · exact .inl hcurrent
  entry := by
    intro d hd
    rcases A.entry_step hq.1 hd with hold | ⟨-, r, hr⟩
    · rcases h.entry d hold with hcurrent | ⟨u, l, u', post, hlast, hcause⟩
      · exact .inl (hq.2 ▸ hcurrent)
      · exact .inr ⟨u, l, u', post ++ [e], hlast.snoc hq, hcause.snoc hq hd⟩
    · -- the entry is new: its reader loaded it before the last change, or it is current
      rcases h.loaded r d hr with hcurrent | ⟨u, l, u', post, hlast, hu, hawaits⟩
      · exact .inl (hq.2 ▸ hcurrent)
      · exact .inr ⟨u, l, u', post ++ [e], hlast.snoc hq,
          .overtaken r post e [] s s' rfl hu hawaits hq hd .nil⟩

theorem Explained.change (h : Run A.Step s₀ ls s) (hstep : A.Step s e s') (hne : A.value s' ≠ A.value s) :
    A.Explained s₀ (ls ++ [e]) s' := by
  have hlast : A.LastChange s₀ (ls ++ [e]) s' s e s' [] := ⟨⟨ls, rfl, h⟩, hstep, hne, .nil⟩
  constructor
  · intro r d hr
    rcases A.loaded_step hstep hr with ⟨hr, -⟩ | hcurrent
    · exact .inr ⟨s, e, s', [], hlast, hr, .nil⟩
    · exact .inl hcurrent
  · intro d hd
    rcases A.entry_step hstep hd with hold | ⟨heq, -⟩
    · by_cases hann : A.Announces e
      · exact .inr ⟨s, e, s', [], hlast, .undeleted hold .nil (.inl (A.write_step hstep hne hann))⟩
      · exact .inr ⟨s, e, s', [], hlast, .unannounced hann⟩
    · exact absurd heq hne

theorem explained_run (hentry : A.entry s₀ = none) (hloaded : ∀ r d, ¬ A.Loaded s₀ r d) (h : Run A.Step s₀ ls s) :
    A.Explained s₀ ls s := by
  refine h.invariant (A.Explained s₀) ?_ ?_
  · exact ⟨fun r d hr => absurd hr (hloaded r d), fun d hd => by rw [hentry] at hd; cases hd⟩
  · intro ls s l t hrun hinv hstep
    by_cases heq : A.value t = A.value s
    · exact hinv.quiet ⟨hstep, heq⟩
    · exact Explained.change hrun hstep heq

/-- **What makes an entry stale.** -/
theorem stale (hentry : A.entry s₀ = none) (hloaded : ∀ r d, ¬ A.Loaded s₀ r d) (h : Run A.Step s₀ ls s)
    (hd : A.entry s = some d) (hstale : ¬ A.Current (A.value s) d) :
    ∃ u l u' post, A.LastChange s₀ ls s u l u' post ∧ A.Cause d u l u' post s :=
  ((explained_run hentry hloaded h).entry d hd).resolve_left hstale

end CacheAside

end Lib
end ServiceKit
