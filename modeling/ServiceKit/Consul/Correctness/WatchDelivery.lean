import ServiceKit.Consul.Correctness.Watch

/-!
# `Correctness.WatchDelivery` — which values reach the callbacks

A key is `Current` when the recorded index is the one in the store: the loop then calls nobody for it until
it changes. So a round is kept (`RoundKept`) as long as whoever is registered for a current key has already
succeeded on it (`Kept`). Two kinds of step break this (`Respects`): a callback that fails, since its index
is recorded anyway, and a new callback for a current key.
-/

namespace ServiceKit
namespace Consul

open Lib

variable {Q C V E : Type}

namespace Watch

/-- The callback registered for the key has succeeded on the recorded index. -/
def Delivered (s : Watch Q C V E) (key : String) : Prop :=
  ∃ cb value v, s.registered key = some cb ∧ s.recorded key = some v ∧
    (⟨key, cb, value, v, none⟩ : Invocation C V E) ∈ s.invocations

/-- The event is a visit that loads the key. -/
def Loads (s : Watch Q C V E) (key : String) (e : Event Q C V E) : Prop :=
  ∃ result, e = .visit key none result ∧ s.store key ≠ none

/-- However the run goes on, the next visit that loads the key calls the callback registered then. -/
def WillBeInvoked (s : Watch Q C V E) (key : String) : Prop :=
  ∀ es t, Run (fun s e t => Step s e t ∧ ¬ s.Loads key e) s es t → ∀ e u, Step t e u → t.Loads key e →
    ∃ call, u.invocations = t.invocations ++ [call] ∧ call.key = key ∧ t.registered key = some call.callback

/-- Every key loaded in the round is delivered, or will be. -/
def RoundKept (s : Watch Q C V E) : Prop := ∀ key ∈ s.loaded, s.Delivered key ∨ s.WillBeInvoked key

/-- The recorded index of the key is the one in the store. -/
def Current (s : Watch Q C V E) (key : String) : Prop :=
  ∃ value v, s.store key = some (value, v) ∧ s.recorded key = some v

/-- A callback that is called succeeds, and a key that is current gets only a callback that has succeeded on
    the recorded index. -/
def Respects (s : Watch Q C V E) : Event Q C V E → Prop
  | .visit key fault result =>
      ∀ value index, fault = none → s.store key = some (value, index) → s.recorded key ≠ some index →
        result = none
  | .start key f _ =>
      ∀ cb, key ≠ "" → f = some cb → s.Current key →
        ∃ value v, s.recorded key = some v ∧ (⟨key, cb, value, v, none⟩ : Invocation C V E) ∈ s.invocations
  | _ => True

/-! ## One step -/

section Steps

variable {s t : Watch Q C V E} {e : Event Q C V E}

/-- A visit of another key, or one that does not load, leaves the recorded index. -/
theorem recorded_visited {r : Round} {key key' : String} {cb : C} {fault result : Option E}
    (h : key' ≠ key ∨ fault ≠ none ∨ s.store key = none) :
    (s.visited r key cb fault result).recorded key' = s.recorded key' := by
  unfold Watch.recorded
  cases visited_seen s r key cb fault result with
  | notLoaded _ hv _ _ => rw [hv]
  | unchanged _ _ _ hv _ _ => rw [hv]
  | invoked hfault hstore _ hv _ _ =>
      rw [hv]
      rcases h with hne | hfail | hnone
      · exact ConcurrentMap.get_set_of_ne _ _ hne
      · exact absurd hfault hfail
      · rw [hnone] at hstore
        exact absurd hstore (by simp)

/-- A key that is not current becomes so only when it is loaded. -/
theorem Inv.not_current_step (h : s.Inv) (hstep : Step s e t) {key : String} (hload : ¬ s.Loads key e)
    (hcur : ¬ s.Current key) : ¬ t.Current key := by
  rintro ⟨value, v, hstore, hrec⟩
  cases hstep with
  | put key' value' =>
      by_cases hkey : key = key'
      · subst hkey
        simp only [Function.update_self, Option.some.injEq, Prod.mk.injEq] at hstore
        have hle : v ≤ s.lastIndex := (h.recorded key v hrec).1
        omega
      · simp only [Function.update_of_ne hkey] at hstore
        exact hcur ⟨value, v, hstore, hrec⟩
  | delete key' =>
      by_cases hkey : key = key'
      · subst hkey
        simp at hstore
      · simp only [Function.update_of_ne hkey] at hstore
        exact hcur ⟨value, v, hstore, hrec⟩
  | start key' f qo =>
      have hsame : (s.client.startWatchService (E := E) key' f qo).2.queryVersion = s.client.queryVersion := by
        rcases startWatchService_spec (E := E) s.client key' f qo with ⟨_, hsame⟩ | ⟨_, _, _, _, hsame, _⟩
        · rw [hsame]
        · exact hsame
      simp only [Watch.recorded, hsame] at hrec
      exact hcur ⟨value, v, hstore, hrec⟩
  | begin _ _ => exact hcur ⟨value, v, hstore, hrec⟩
  | @visit r key' cb fault result _ _ _ =>
      refine hcur ⟨value, v, hstore, ?_⟩
      rwa [recorded_visited] at hrec
      by_cases hkey : key = key'
      · subst hkey
        apply Or.inr
        by_contra hall
        rw [not_or, not_not] at hall
        obtain ⟨rfl, hne⟩ := hall
        exact hload ⟨result, rfl, hne⟩
      · exact Or.inl hkey
  | finish _ _ => exact hcur ⟨value, v, hstore, hrec⟩

/-- A visit that loads a key which is not current calls its callback. -/
theorem invoked_of_not_current (hstep : Step s e t) {key : String} (hload : s.Loads key e)
    (hcur : ¬ s.Current key) :
    ∃ call, t.invocations = s.invocations ++ [call] ∧ call.key = key ∧
      s.registered key = some call.callback := by
  obtain ⟨result, rfl, hne⟩ := hload
  cases hstep with
  | @visit r _ cb _ _ hround hcb hnew =>
      cases visited_seen s r key cb none result with
      | notLoaded hfail _ _ _ => exact absurd (hfail.resolve_left (by simp)) hne
      | unchanged _ hstore hrec _ _ _ => exact absurd ⟨_, _, hstore, hrec⟩ hcur
      | invoked _ _ _ _ _ hcalls => exact ⟨_, hcalls, rfl, hcb⟩

/-- A visit of a current key calls nobody. -/
theorem invocations_visited_of_current {r : Round} {key : String} {cb : C} {fault result : Option E}
    (hcur : s.Current key) : (s.visited r key cb fault result).invocations = s.invocations := by
  obtain ⟨value, v, hstore, hrec⟩ := hcur
  cases visited_seen s r key cb fault result with
  | notLoaded _ _ _ hcalls => exact hcalls
  | unchanged _ _ _ _ _ hcalls => exact hcalls
  | invoked _ hstore' hrec' _ _ _ =>
      rw [hstore] at hstore'
      rw [(Prod.mk.inj (Option.some.inj hstore')).2] at hrec
      exact absurd hrec hrec'

theorem recorded_visited_of_current {r : Round} {key : String} {cb : C} {fault result : Option E}
    (hcur : s.Current key) : (s.visited r key cb fault result).recorded key = s.recorded key := by
  unfold Watch.recorded
  obtain ⟨value, v, hstore, hrec⟩ := hcur
  cases visited_seen s r key cb fault result with
  | notLoaded _ hversion _ _ => rw [hversion]
  | unchanged _ _ _ hversion _ _ => rw [hversion]
  | invoked _ hstore' hrec' _ _ _ =>
      rw [hstore] at hstore'
      rw [(Prod.mk.inj (Option.some.inj hstore')).2] at hrec
      exact absurd hrec hrec'

/-- The calls for other keys were made before the visit. -/
theorem mem_of_mem_invocations_visited {r : Round} {key : String} {cb : C} {fault result : Option E}
    {call : Invocation C V E} (hcall : call ∈ (s.visited r key cb fault result).invocations)
    (hne : call.key ≠ key) : call ∈ s.invocations := by
  cases visited_seen s r key cb fault result with
  | notLoaded _ _ _ hcalls => rwa [hcalls] at hcall
  | unchanged _ _ _ _ _ hcalls => rwa [hcalls] at hcall
  | invoked _ _ _ _ _ hcalls =>
      rw [hcalls] at hcall
      rcases List.mem_append.mp hcall with hcall | hcall
      · exact hcall
      · obtain rfl := List.mem_singleton.mp hcall
        exact absurd rfl hne

/-! ## The next load -/

/-- A key that is not current will be invoked. -/
theorem Inv.willBeInvoked (h : s.Inv) {key : String} (hcur : ¬ s.Current key) : s.WillBeInvoked key := by
  intro es t hrun e u hstep hload
  have hkeep : t.Inv ∧ ¬ t.Current key := by
    refine hrun.preserves (P := fun t => t.Inv ∧ ¬ t.Current key) ⟨h, hcur⟩ ?_
    rintro s e t ⟨hinv, hcur⟩ ⟨hstep, hload⟩
    exact ⟨hinv.step hstep, hinv.not_current_step hstep hload hcur⟩
  exact invoked_of_not_current hstep hload hkeep.2

/-- Between two rounds, a current key will not: the next round may find it as it is. -/
theorem Current.not_willBeInvoked {key : String} (hcur : s.Current key) (hsleep : s.round = none)
    (honce : s.client.once = true) {cb : C} (hcb : s.registered key = some cb) : ¬ s.WillBeInvoked key := by
  intro hwill
  have hbegin : Step s .begin s.begun := .begin honce hsleep
  have hvisit : Step s.begun (.visit key none none) _ := .visit none none rfl hcb (by simp)
  have hrun : Run (fun s e t => Step s e t ∧ ¬ s.Loads key e) s [.begin] s.begun := by
    refine Run.single ⟨hbegin, ?_⟩
    rintro ⟨_, hne, _⟩
    exact absurd hne (by simp)
  obtain ⟨value, v, hstore, hrec⟩ := hcur
  have hcur' : s.begun.Current key := ⟨value, v, hstore, hrec⟩
  have hload : s.begun.Loads key (.visit key none none) := by
    refine ⟨none, rfl, ?_⟩
    show s.store key ≠ none
    simp [hstore]
  obtain ⟨call, hcall, _⟩ := hwill [.begin] s.begun hrun _ _ hvisit hload
  rw [invocations_visited_of_current hcur'] at hcall
  simp at hcall

/-! ## Runs that respect the watch -/

/-- Whoever is registered for a current key has succeeded on the recorded index. -/
def Kept (s : Watch Q C V E) : Prop :=
  ∀ key, (s.registered key).isSome = true → s.Current key → s.Delivered key

theorem Delivered.mono {key : String} (h : s.Delivered key) (hreg : t.registered key = s.registered key)
    (hrec : t.recorded key = s.recorded key) (hinv : ∀ call ∈ s.invocations, call ∈ t.invocations) :
    t.Delivered key := by
  obtain ⟨cb, value, v, hcb, hv, hmem⟩ := h
  exact ⟨cb, value, v, hreg.trans hcb, hrec.trans hv, hinv _ hmem⟩

theorem invocations_visited {r : Round} {key : String} {cb : C} {fault result : Option E} :
    ∀ call ∈ s.invocations, call ∈ (s.visited r key cb fault result).invocations := by
  intro call hcall
  cases visited_seen s r key cb fault result with
  | notLoaded _ _ _ hcalls => rwa [hcalls]
  | unchanged _ _ _ _ _ hcalls => rwa [hcalls]
  | invoked _ _ _ _ _ hcalls =>
      rw [hcalls]
      exact List.mem_append_left _ hcall

theorem Kept.visit (h : s.Kept) {r : Round} {key : String} {cb : C} {fault result : Option E}
    (hcb : s.registered key = some cb) (hresp : s.Respects (.visit key fault result)) :
    (s.visited r key cb fault result).Kept := by
  intro key' hreg hcur
  rw [registered_visited] at hreg
  by_cases hrec : (s.visited r key cb fault result).recorded key' = s.recorded key'
  · obtain ⟨value, v, hstore, hv⟩ := hcur
    rw [hrec] at hv
    exact (h key' hreg ⟨value, v, hstore, hv⟩).mono (registered_visited ..) hrec invocations_visited
  · -- something is recorded, so the callback was called, and succeeded
    obtain rfl : key' = key := by
      by_contra hne
      exact hrec (recorded_visited (Or.inl hne))
    cases visited_seen s r key' cb fault result with
    | notLoaded hfail _ _ _ => exact absurd (recorded_visited (Or.inr hfail)) hrec
    | unchanged _ _ _ hv _ _ =>
        refine absurd ?_ hrec
        unfold Watch.recorded
        rw [hv]
    | @invoked value index hfault hstore hne hv _ hcalls =>
        obtain rfl : result = none := hresp value index hfault hstore hne
        refine ⟨cb, value, index, ?_, ?_, ?_⟩
        · rw [registered_visited]
          exact hcb
        · unfold Watch.recorded
          rw [hv]
          exact ConcurrentMap.get_set_self ..
        · simp [hcalls]

/-- A new callback for a key must have succeeded on it if it is current. -/
theorem Kept.register (h : s.Kept) {cu : ConsulClient Q C} {key : String} {cb : C}
    (hcb : cu.watchCallback = s.client.watchCallback.set key cb)
    (hrec : cu.queryVersion = s.client.queryVersion)
    (hcall : s.Current key →
      ∃ value v, s.recorded key = some v ∧ (⟨key, cb, value, v, none⟩ : Invocation C V E) ∈ s.invocations) :
    Kept { s with client := cu } := by
  rintro key' hreg ⟨value, v, hstore, hv⟩
  have hrec' : Watch.recorded { s with client := cu } key' = s.recorded key' := by
    unfold Watch.recorded
    rw [hrec]
  have hcur : s.Current key' := ⟨value, v, hstore, hrec' ▸ hv⟩
  by_cases hkey : key' = key
  · subst hkey
    obtain ⟨value', v', hv', hmem⟩ := hcall hcur
    refine ⟨cb, value', v', ?_, hrec'.trans hv', hmem⟩
    simp [Watch.registered, hcb]
  · have hreg' : Watch.registered { s with client := cu } key' = s.registered key' := by
      unfold Watch.registered
      rw [hcb, ConcurrentMap.get_set_of_ne _ _ hkey]
    rw [hreg'] at hreg
    exact (h key' hreg hcur).mono hreg' hrec' (fun _ hmem => hmem)

theorem Kept.step (hinv : s.Inv) (h : s.Kept) (hstep : Step s e t) (hresp : s.Respects e) : t.Kept := by
  -- whatever is current after a step that loads nothing was current before
  have hcurrent : ∀ key, ¬ s.Loads key e → t.Current key → s.Current key := by
    intro key hload hcur
    by_contra hnot
    exact hinv.not_current_step hstep hload hnot hcur
  cases hstep with
  | put key' value =>
      intro key hreg hcur
      exact h key hreg (hcurrent key (by simp [Loads]) hcur)
  | delete key' =>
      intro key hreg hcur
      exact h key hreg (hcurrent key (by simp [Loads]) hcur)
  | start key' f qo =>
      rcases startWatchService_spec (E := E) s.client key' f qo with
        ⟨_, hsame⟩ | ⟨cb, hne, hf, hcb, hrec, _⟩
      · rw [hsame]
        exact h
      · exact h.register hcb hrec (hresp cb hne hf)
  | begin _ _ => exact h
  | visit fault result _ hcb _ => exact h.visit hcb hresp
  | finish _ _ => exact h

/-- At the end of a round, every loaded key is current and delivered, or will be invoked. -/
theorem Kept.roundKept (hinv : s.Inv) (h : s.Kept) : s.RoundKept := by
  intro key hmem
  by_cases hcur : s.Current key
  · exact Or.inl (h key (hinv.loaded key hmem) hcur)
  · exact Or.inr (hinv.willBeInvoked hcur)

/-! ## A key that stays undelivered -/

/-- The key is current, and whoever is registered for it has not succeeded on it. -/
structure Stuck (s : Watch Q C V E) (key : String) : Prop where
  registered : (s.registered key).isSome = true
  current : s.Current key
  undelivered : ¬ s.Delivered key

/-- A step that is not respected leaves a key stuck. -/
theorem Inv.stuck (h : s.Inv) (hstep : Step s e t) (hresp : ¬ s.Respects e) : ∃ key, t.Stuck key := by
  cases hstep with
  | put _ _ => exact absurd trivial hresp
  | delete _ => exact absurd trivial hresp
  | begin _ _ => exact absurd trivial hresp
  | finish _ _ => exact absurd trivial hresp
  | start key f qo =>
      simp only [Respects, not_forall] at hresp
      obtain ⟨cb, hne, rfl, hcur, hmem⟩ := hresp
      rcases startWatchService_spec (E := E) s.client key (some cb) qo with
        ⟨hrefused, _⟩ | ⟨_, _, hf, hcb, hrec, _⟩
      · exact absurd hrefused (by simp [hne])
      · obtain rfl := Option.some.inj hf
        obtain ⟨value, v, hstore, hv⟩ := hcur
        refine ⟨key, ⟨?_, ⟨value, v, hstore, ?_⟩, ?_⟩⟩
        · simp [Watch.registered, hcb]
        · simpa only [Watch.recorded, hrec] using hv
        · rintro ⟨cb', value', v', hcb', hv', hcall⟩
          simp only [Watch.registered, hcb, ConcurrentMap.get_set_self, Option.some.injEq] at hcb'
          subst hcb'
          simp only [Watch.recorded, hrec] at hv'
          exact hmem ⟨value', v', hv', hcall⟩
  | @visit r key cb fault result hround hcb hnew =>
      simp only [Respects, not_forall] at hresp
      obtain ⟨value, index, rfl, hstore, hne, hresult⟩ := hresp
      refine ⟨key, ?_⟩
      cases visited_seen s r key cb none result with
      | notLoaded hfail _ _ _ =>
          exact absurd hstore (by simp [hfail.resolve_left (by simp)])
      | unchanged _ hstore' hrec _ _ _ =>
          rw [hstore] at hstore'
          rw [(Prod.mk.inj (Option.some.inj hstore')).2] at hne
          exact absurd hrec hne
      | invoked _ hstore' _ hversion _ hcalls =>
          rw [hstore] at hstore'
          obtain ⟨rfl, rfl⟩ := Prod.mk.inj (Option.some.inj hstore')
          have hrec : (s.visited r key cb none result).recorded key = some index := by
            simp [Watch.recorded, hversion]
          refine ⟨?_, ⟨value, index, hstore, hrec⟩, ?_⟩
          · rw [registered_visited, Watch.registered, hcb]
            rfl
          · rintro ⟨cb', value', v', _, hv', hcall⟩
            rw [hrec] at hv'
            obtain rfl := Option.some.inj hv'
            rw [hcalls] at hcall
            rcases List.mem_append.mp hcall with hcall | hcall
            · -- a call before at this index: then it was recorded before
              obtain ⟨v, hv, hle⟩ := h.invoked _ hcall
              have hge := (h.recorded key v hv).2 value index hstore
              exact hne (hv.trans (congrArg some (le_antisymm hge hle)))
            · simp only [List.mem_singleton, Invocation.mk.injEq] at hcall
              exact hresult hcall.2.2.2.2.symm

/-- A round that ends with a stuck key loaded is not kept. -/
theorem Stuck.not_roundKept {key : String} (h : s.Stuck key) (hloaded : key ∈ s.loaded)
    (hsleep : s.round = none) (honce : s.client.once = true) : ¬ s.RoundKept := by
  intro hkept
  obtain ⟨cb, hcb⟩ := Option.isSome_iff_exists.mp h.registered
  rcases hkept key hloaded with hdel | hwill
  · exact h.undelivered hdel
  · exact h.current.not_willBeInvoked hsleep honce hcb hwill

/-- The loop goes on, the store answers and no callback fails. -/
def Quiet : Event Q C V E → Prop
  | .begin => True
  | .visit _ none none => True
  | .finish => True
  | _ => False

/-- A quiet step. -/
def QuietStep (s : Watch Q C V E) (e : Event Q C V E) (t : Watch Q C V E) : Prop := Step s e t ∧ Quiet e

theorem Stuck.step {key : String} (h : s.Stuck key) (hstep : QuietStep s e t) : t.Stuck key := by
  obtain ⟨hstep, hquiet⟩ := hstep
  cases hstep with
  | put _ _ => exact absurd hquiet (by simp [Quiet])
  | delete _ => exact absurd hquiet (by simp [Quiet])
  | start _ _ _ => exact absurd hquiet (by simp [Quiet])
  | begin _ _ => exact ⟨h.registered, h.current, h.undelivered⟩
  | finish _ _ => exact ⟨h.registered, h.current, h.undelivered⟩
  | @visit r key' cb fault result _ _ _ =>
      obtain ⟨value, v, hstore, hv⟩ := h.current
      have hrec : (s.visited r key' cb fault result).recorded key = s.recorded key := by
        by_cases hkey : key = key'
        · subst hkey
          exact recorded_visited_of_current h.current
        · exact recorded_visited (Or.inl hkey)
      refine ⟨?_, ⟨value, v, hstore, hrec.trans hv⟩, ?_⟩
      · rw [registered_visited]
        exact h.registered
      · rintro ⟨cb', value', v', hcb', hv', hcall⟩
        refine h.undelivered ⟨cb', value', v', ?_, hrec ▸ hv', ?_⟩
        · rwa [registered_visited] at hcb'
        · by_cases hkey : key = key'
          · subst hkey
            rwa [invocations_visited_of_current h.current] at hcall
          · exact mem_of_mem_invocations_visited hcall hkey

/-- Every key that the round has visited and the store has was loaded. -/
def Covers (s : Watch Q C V E) : Prop :=
  ∀ r, s.round = some r → ∀ key ∈ r.visited, s.store key ≠ none → key ∈ s.loaded

theorem Covers.step (h : s.Covers) (hstep : QuietStep s e t) : t.Covers := by
  obtain ⟨hstep, hquiet⟩ := hstep
  cases hstep with
  | put _ _ => exact absurd hquiet (by simp [Quiet])
  | delete _ => exact absurd hquiet (by simp [Quiet])
  | start _ _ _ => exact absurd hquiet (by simp [Quiet])
  | begin _ _ =>
      rintro r hround key hmem
      obtain rfl := Option.some.inj hround
      exact absurd hmem (by simp)
  | finish _ _ => exact fun r hround => absurd hround (by simp)
  | @visit r key cb fault result hround _ _ =>
      rintro r' hround' key' hmem hne
      obtain rfl := Option.some.inj hround'
      have hfault : fault = none := by
        cases fault with
        | none => rfl
        | some err => exact absurd hquiet (by simp [Quiet])
      have hold : key' ∈ r.visited → key' ∈ s.loaded := fun hmem => h r hround key' hmem hne
      cases visited_seen s r key cb fault result with
      | notLoaded hfail _ hloaded _ =>
          rw [hloaded]
          rcases List.mem_cons.mp hmem with rfl | hmem
          · exact absurd (hfail.resolve_left (not_not.mpr hfault)) hne
          · exact hold hmem
      | unchanged _ _ _ _ hloaded _ =>
          rw [hloaded]
          exact List.mem_cons.mpr ((List.mem_cons.mp hmem).imp id hold)
      | invoked _ _ _ _ hloaded _ =>
          rw [hloaded]
          exact List.mem_cons.mpr ((List.mem_cons.mp hmem).imp id hold)

end Steps

/-! ## Runs -/

/-- A step of a watch where only what `A` allows happens. -/
def StepIn (A : Watch Q C V E → Event Q C V E → Prop) (s : Watch Q C V E) (e : Event Q C V E)
    (t : Watch Q C V E) : Prop :=
  Step s e t ∧ A s e

section Runs

variable {s : Watch Q C V E} {es : List (Event Q C V E)}

/-- A round can visit any keys that are registered. -/
theorem visit_all (keys : List String) {r : Round} (hround : s.round = some r)
    (hkeys : ∀ key ∈ keys, (s.registered key).isSome = true) :
    ∃ es t r', Run QuietStep s es t ∧ t.round = some r' ∧ r'.due = r.due ∧
      ∀ key, key ∈ keys ∨ key ∈ r.visited → key ∈ r'.visited := by
  induction keys generalizing s r with
  | nil => exact ⟨[], s, r, .nil, hround, rfl, by simp⟩
  | cons key keys ih =>
      have hrest : ∀ key ∈ keys, (s.registered key).isSome = true :=
        fun key' hmem => hkeys key' (List.mem_cons_of_mem _ hmem)
      by_cases hmem : key ∈ r.visited
      · obtain ⟨es, t, r', hrun, ht, hdue, hvisited⟩ := ih hround hrest
        refine ⟨es, t, r', hrun, ht, hdue, ?_⟩
        rintro key' (hkey' | hkey')
        · rcases List.mem_cons.mp hkey' with rfl | hkey'
          · exact hvisited key' (Or.inr hmem)
          · exact hvisited key' (Or.inl hkey')
        · exact hvisited key' (Or.inr hkey')
      · obtain ⟨cb, hcb⟩ := Option.isSome_iff_exists.mp (hkeys key List.mem_cons_self)
        have hstep : QuietStep s (.visit key none none) (s.visited r key cb none none) :=
          ⟨.visit none none hround hcb hmem, trivial⟩
        have hrest' : ∀ key' ∈ keys, ((s.visited r key cb none none).registered key').isSome = true := by
          intro key' hkey'
          rw [registered_visited]
          exact hrest key' hkey'
        obtain ⟨es, t, r', hrun, ht, hdue, hvisited⟩ := ih (s := s.visited r key cb none none) rfl hrest'
        refine ⟨_ :: es, t, r', .cons hstep hrun, ht, hdue, ?_⟩
        rintro key' (hkey' | hkey')
        · rcases List.mem_cons.mp hkey' with rfl | hkey'
          · exact hvisited key' (Or.inr List.mem_cons_self)
          · exact hvisited key' (Or.inl hkey')
        · exact hvisited key' (Or.inr (List.mem_cons_of_mem _ hkey'))

/-- A round can be brought to its end. -/
theorem Inv.round_ends (h : s.Inv) {r : Round} (hround : s.round = some r) :
    ∃ es t r', Run QuietStep s es t ∧ t.round = some r' ∧ (∀ key ∈ r.due, key ∈ r'.visited) ∧
      QuietStep t .finish { t with round := none } := by
  obtain ⟨es, t, r', hrun, ht, hdue, hvisited⟩ := visit_all r.due hround (h.due r hround)
  have hall : ∀ key ∈ r.due, key ∈ r'.visited := fun key hmem => hvisited key (Or.inl hmem)
  exact ⟨es, t, r', hrun, ht, hall, .finish ht (hdue ▸ hall), trivial⟩

/-- A key that is stuck makes some round end with the key loaded and not kept. -/
theorem Stuck.round_lost {key : String} (h : s.Stuck key) (hinv : s.Inv) :
    ∃ es t u, Run QuietStep s es t ∧ QuietStep t .finish u ∧ ¬ u.RoundKept := by
  have hkeep : ∀ {s t : Watch Q C V E} {es}, s.Inv ∧ s.Stuck key → Run QuietStep s es t →
      t.Inv ∧ t.Stuck key := by
    intro s t es hs hrun
    exact hrun.preserves (P := fun t => t.Inv ∧ t.Stuck key) hs
      (fun s e t hs hstep => ⟨hs.1.step hstep.1, hs.2.step hstep⟩)
  -- the round under way, if there is one
  obtain ⟨es, t, hrun, hsleep⟩ : ∃ es t, Run QuietStep s es t ∧ t.round = none := by
    cases hround : s.round with
    | none => exact ⟨[], s, .nil, hround⟩
    | some r =>
        obtain ⟨es, t, _, hrun, _, _, hfinish⟩ := hinv.round_ends hround
        exact ⟨_, _, .snoc hrun hfinish, rfl⟩
  obtain ⟨htinv, ht⟩ := hkeep ⟨hinv, h⟩ hrun
  obtain ⟨cb, hcb⟩ := Option.isSome_iff_exists.mp ht.registered
  -- and a whole one
  have hbegin : QuietStep t .begin t.begun := ⟨.begin (htinv.once key cb hcb) hsleep, trivial⟩
  obtain ⟨es', u, r', hrun', hround', hall, hfinish⟩ := (htinv.step hbegin.1).round_ends rfl
  obtain ⟨huinv, hu⟩ := hkeep ⟨htinv.step hbegin.1, ht.step hbegin⟩ hrun'
  have hcovers : u.Covers := by
    refine hrun'.preserves (P := Covers) ?_ (fun s e t hs hstep => hs.step hstep)
    rintro r hround key' hmem
    obtain rfl := Option.some.inj hround
    exact absurd hmem (by simp)
  have hloaded : key ∈ u.loaded := by
    have hdue' : key ∈ t.client.watchCallback.items.map Prod.fst :=
      List.mem_map.mpr ⟨(key, cb), ConcurrentMap.mem_items.mpr hcb, rfl⟩
    obtain ⟨value, v, hstore, _⟩ := hu.current
    exact hcovers r' hround' key (hall key hdue') (by simp [hstore])
  obtain ⟨cb', hcb'⟩ := Option.isSome_iff_exists.mp hu.registered
  exact ⟨_, u, _, hrun.append (.cons hbegin hrun'), hfinish,
    (hu.step hfinish).not_roundKept hloaded rfl (huinv.once key cb' hcb')⟩

variable (A : Watch Q C V E → Event Q C V E → Prop)

theorem inv_of_run (h : Run (StepIn A) init es s) : s.Inv :=
  h.preserves inv_init (fun _ _ _ hs hstep => hs.step hstep.1)

/-- In a run that respects the watch, whoever is registered for a current key has succeeded on it. -/
theorem kept_of_run (hresp : ∀ es s e t, Run (StepIn A) init es s → StepIn A s e t → s.Respects e)
    (h : Run (StepIn A) init es s) : s.Kept := by
  refine h.invariant (fun _ s => s.Kept) ?_ ?_
  · intro key hreg
    simp [init, newConsulClient, Watch.registered] at hreg
  · intro es s e t hrun hkept hstep
    exact hkept.step (inv_of_run A hrun) hstep.1 (hresp es s e t hrun hstep)

/-- **Watch delivery.** Of the runs where only what `A` allows happens, every round ends with each loaded key
    delivered or about to be, exactly when every step respects the watch: no callback that is called fails,
    and a key whose recorded index is the store's gets no callback that has not succeeded on it. -/
theorem watch_delivers_iff (hquiet : ∀ s e, Quiet e → A s e) :
    (∀ es s t, Run (StepIn A) init es s → StepIn A s .finish t → t.RoundKept) ↔
      ∀ es s e t, Run (StepIn A) init es s → StepIn A s e t → s.Respects e := by
  constructor
  · intro hkept es s e t hrun hstep
    by_contra hresp
    have hinv := inv_of_run A hrun
    obtain ⟨key, hstuck⟩ := hinv.stuck hstep.1 hresp
    obtain ⟨es', u, v, hrun', hfinish, hlost⟩ := hstuck.round_lost (hinv.step hstep.1)
    have hrun'' : Run (StepIn A) t (es'.map id) u :=
      hrun'.map id (fun s e t h => ⟨h.1, hquiet s e h.2⟩)
    exact hlost (hkept _ u v ((hrun.snoc hstep).append hrun'') ⟨hfinish.1, hquiet _ _ hfinish.2⟩)
  · intro hresp es s t hrun hstep
    exact (kept_of_run A hresp (hrun.snoc hstep)).roundKept (inv_of_run A (hrun.snoc hstep))

/-- A key, its callback, and a round that calls it. -/
theorem watch_delivers_respecting :
    ∃ s t, Run (StepIn Respects) (init : Watch Unit Bool ℕ String)
        [.put "key" 7, .start "key" (some true) none, .begin, .visit "key" none none] s ∧
      StepIn Respects s .finish t ∧ t.loaded = ["key"] ∧ t.RoundKept := by
  have hquiet : ∀ (s : Watch Unit Bool ℕ String) e, Quiet e → s.Respects e := by
    rintro s (_ | _ | _ | _ | ⟨key, _ | _, _ | _⟩ | _) h
    all_goals simp_all [Quiet, Respects]
  have hput : Run (StepIn Respects) (init : Watch Unit Bool ℕ String) _ _ := .single ⟨.put "key" 7, trivial⟩
  have hstart := hput.snoc ⟨.start "key" (some true) none, by
    rintro _ _ _ ⟨_, _, _, hrec⟩
    exact absurd hrec (by simp [Watch.recorded, init, newConsulClient])⟩
  have hbegin := hstart.snoc ⟨.begin rfl rfl, trivial⟩
  have hvisit := hbegin.snoc (l := .visit "key" none none)
    ⟨.visit none none rfl rfl (by simp), by simp [Respects]⟩
  refine ⟨_, _, hvisit, ⟨.finish rfl (by decide), trivial⟩, rfl, ?_⟩
  -- every step of the run is one that respects the watch
  exact (watch_delivers_iff Respects hquiet).mpr (fun _ _ _ _ _ hstep => hstep.2) _ _ _ hvisit
    ⟨.finish rfl (by decide), trivial⟩

/-- The two ways to lose a version: the callback fails on it, or a new one is registered after it. -/
theorem watch_loses_version :
    (∃ t : Watch Unit Bool ℕ String, t.loaded = ["key"] ∧ ¬ t.RoundKept ∧
      Run Step init [.put "key" 7, .start "key" (some true) none, .begin,
        .visit "key" none (some "refused"), .finish] t) ∧
      ∃ t : Watch Unit Bool ℕ String, t.loaded = ["key"] ∧ ¬ t.RoundKept ∧
        Run Step init [.put "key" 7, .start "key" (some true) none, .begin, .visit "key" none none,
          .finish, .start "key" (some false) none, .begin, .visit "key" none none, .finish] t := by
  have hput : Run Step (init : Watch Unit Bool ℕ String) _ _ := .single (.put "key" 7)
  have hbegin := (hput.snoc (.start "key" (some true) none)).snoc (.begin rfl rfl)
  have hkey : "key" ∈ ["key"] := by simp
  constructor
  · have hvisit := hbegin.snoc (l := .visit "key" none (some "refused")) (.visit none _ rfl rfl (by simp))
    have hfinish := hvisit.snoc (.finish rfl (by decide))
    refine ⟨_, rfl, Stuck.not_roundKept ⟨rfl, ⟨_, _, rfl, rfl⟩, ?_⟩ hkey rfl rfl, hfinish⟩
    rintro ⟨cb, value, v, _, _, hcall⟩
    have hcall := List.mem_singleton.mp hcall
    simp at hcall
  · have hvisit := hbegin.snoc (l := .visit "key" none none) (.visit none _ rfl rfl (by simp))
    have hfinish := hvisit.snoc (.finish rfl (by decide))
    have hbegin' := (hfinish.snoc (.start "key" (some false) none)).snoc (.begin rfl rfl)
    have hvisit' := hbegin'.snoc (l := .visit "key" none none) (.visit none none rfl rfl (by simp))
    have hfinish' := hvisit'.snoc (.finish rfl (by decide))
    refine ⟨_, rfl, Stuck.not_roundKept ⟨rfl, ⟨_, _, rfl, rfl⟩, ?_⟩ hkey rfl rfl, hfinish'⟩
    rintro ⟨cb, value, v, hcb, _, hcall⟩
    have hcall := List.mem_singleton.mp hcall
    obtain rfl : false = cb := Option.some.inj hcb
    simp at hcall

end Runs

end Watch

end Consul
end ServiceKit
