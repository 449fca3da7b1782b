import Mathlib.Order.Basic
import ServiceKit.Consul.Client

/-!
# `Correctness.Watch` — the steps of the watch, and what they keep

`Seen` lists what a visit of a key can do. Indices only grow, so the recorded index of a key is never above
the one in the store, and a call of a callback is never above the recorded index (`Inv`).
-/

namespace ServiceKit
namespace Consul

open Lib

variable {Q C V E : Type}

namespace Watch

/-- The index recorded for a key. -/
def recorded (s : Watch Q C V E) (key : String) : Option ℕ := s.client.queryVersion.get key

/-- The callback registered for a key. -/
def registered (s : Watch Q C V E) (key : String) : Option C := s.client.watchCallback.get key

/-! ## Visits -/

/-- What a visit of a key leaves in `t`: the recorded indices, the loaded keys and the calls. -/
inductive Seen (s : Watch Q C V E) (key : String) (cb : C) (fault result : Option E)
    (t : Watch Q C V E) : Prop where
  | notLoaded (hfail : fault ≠ none ∨ s.store key = none)
      (hversion : t.client.queryVersion = s.client.queryVersion) (hloaded : t.loaded = s.loaded)
      (hcalls : t.invocations = s.invocations)
  | unchanged {value index} (hfault : fault = none) (hstore : s.store key = some (value, index))
      (hrec : s.recorded key = some index) (hversion : t.client.queryVersion = s.client.queryVersion)
      (hloaded : t.loaded = key :: s.loaded) (hcalls : t.invocations = s.invocations)
  | invoked {value index} (hfault : fault = none) (hstore : s.store key = some (value, index))
      (hrec : s.recorded key ≠ some index)
      (hversion : t.client.queryVersion = s.client.queryVersion.set key index)
      (hloaded : t.loaded = key :: s.loaded)
      (hcalls : t.invocations = s.invocations ++ [⟨key, cb, value, index, result⟩])

section Visited

variable (s : Watch Q C V E) (r : Round) (key : String) (cb : C) (fault result : Option E)

/-- Loading a key touches the query options alone. -/
structure SameWatch (cu cu' : ConsulClient Q C) : Prop where
  queryVersion : cu'.queryVersion = cu.queryVersion
  watchCallback : cu'.watchCallback = cu.watchCallback
  once : cu'.once = cu.once

/-- A load fails, or gives what the store has. -/
theorem loadOneData_spec (cu : ConsulClient Q C) (qo : Option Q) :
    ∃ cu', SameWatch cu cu' ∧
      (((fault ≠ none ∨ s.store key = none) ∧
          ∃ err, cu.loadOneData key qo (s.get key fault) = (.error err, cu')) ∨
        ∃ value index, fault = none ∧ s.store key = some (value, index) ∧
          cu.loadOneData key qo (s.get key fault) = (.ok (value, index), cu')) := by
  unfold ConsulClient.loadOneData Watch.get
  cases fault with
  | some err => exact ⟨cu, ⟨rfl, rfl, rfl⟩, Or.inl ⟨by simp, _, rfl⟩⟩
  | none =>
      cases hstore : s.store key with
      | none =>
          cases qo with
          | none => exact ⟨cu, ⟨rfl, rfl, rfl⟩, Or.inl ⟨by simp, _, rfl⟩⟩
          | some qo =>
              exact ⟨{ cu with queryOption := cu.queryOption.set key qo }, ⟨rfl, rfl, rfl⟩,
                Or.inl ⟨by simp, _, rfl⟩⟩
      | some pair =>
          cases qo with
          | none => exact ⟨cu, ⟨rfl, rfl, rfl⟩, Or.inr ⟨_, _, rfl, rfl, rfl⟩⟩
          | some qo =>
              exact ⟨{ cu with queryOption := cu.queryOption.set key qo }, ⟨rfl, rfl, rfl⟩,
                Or.inr ⟨_, _, rfl, rfl, rfl⟩⟩

/-- **What a visit does.** -/
theorem visited_seen : Seen s key cb fault result (s.visited r key cb fault result) := by
  unfold Watch.visited ConsulClient.visit
  obtain ⟨cu, hsame, ⟨hfail, err, hload⟩ | ⟨value, index, hfault, hstore, hload⟩⟩ :=
    loadOneData_spec s key fault s.client (s.client.queryOption.get key)
  · simp only [hload]
    exact .notLoaded hfail hsame.queryVersion rfl rfl
  · simp only [hload, hsame.queryVersion]
    by_cases hrec : s.client.queryVersion.get key = some index
    · simp only [hrec, if_true]
      exact .unchanged hfault hstore hrec hsame.queryVersion rfl rfl
    · simp only [hrec, if_false]
      exact .invoked hfault hstore hrec rfl rfl rfl

theorem visited_frame :
    (s.visited r key cb fault result).client.watchCallback = s.client.watchCallback ∧
      (s.visited r key cb fault result).client.once = s.client.once := by
  unfold Watch.visited ConsulClient.visit
  obtain ⟨cu, hsame, ⟨_, err, hload⟩ | ⟨value, index, _, _, hload⟩⟩ :=
    loadOneData_spec s key fault s.client (s.client.queryOption.get key)
  · simp only [hload]
    exact ⟨hsame.watchCallback, hsame.once⟩
  · simp only [hload]
    by_cases hrec : cu.queryVersion.get key = some index
    · simp only [hrec, if_true]
      exact ⟨hsame.watchCallback, hsame.once⟩
    · simp only [hrec, if_false]
      exact ⟨hsame.watchCallback, hsame.once⟩

@[simp] theorem registered_visited (key' : String) :
    (s.visited r key cb fault result).registered key' = s.registered key' := by
  unfold Watch.registered
  rw [(visited_frame s r key cb fault result).1]

end Visited

/-! ## Registrations -/

/-- `StartWatchService` refuses, or registers its callback and starts the loop. -/
theorem startWatchService_spec (cu : ConsulClient Q C) (key : String) (f : Option C) (qo : Option Q) :
    ((key = "" ∨ f = none) ∧ (cu.startWatchService (E := E) key f qo).2 = cu) ∨
      ∃ cb, key ≠ "" ∧ f = some cb ∧
        (cu.startWatchService (E := E) key f qo).2.watchCallback = cu.watchCallback.set key cb ∧
        (cu.startWatchService (E := E) key f qo).2.queryVersion = cu.queryVersion ∧
        (cu.startWatchService (E := E) key f qo).2.once = true := by
  unfold ConsulClient.startWatchService
  by_cases hkey : key = ""
  · exact Or.inl ⟨Or.inl hkey, by rw [if_pos hkey]⟩
  · rw [if_neg hkey]
    cases f with
    | none => exact Or.inl ⟨by simp, rfl⟩
    | some cb =>
        refine Or.inr ⟨cb, hkey, rfl, ?_⟩
        cases qo with
        | none => exact ⟨rfl, rfl, rfl⟩
        | some qo => exact ⟨rfl, rfl, rfl⟩

/-! ## The invariant -/

/-- Indices only grow: no recorded index is above the one in the store, no call above the recorded one.
    Whoever is due or was loaded is registered, and the loop runs once someone is. -/
structure Inv (s : Watch Q C V E) : Prop where
  indexed : ∀ key value index, s.store key = some (value, index) → index ≤ s.lastIndex
  recorded : ∀ key v, s.recorded key = some v →
    v ≤ s.lastIndex ∧ ∀ value index, s.store key = some (value, index) → v ≤ index
  invoked : ∀ call ∈ s.invocations, ∃ v, s.recorded call.key = some v ∧ call.index ≤ v
  once : ∀ key cb, s.registered key = some cb → s.client.once = true
  due : ∀ r, s.round = some r → ∀ key ∈ r.due, (s.registered key).isSome = true
  loaded : ∀ key ∈ s.loaded, (s.registered key).isSome = true

theorem inv_init : (init : Watch Q C V E).Inv where
  indexed := by simp [init]
  recorded := by simp [init, Watch.recorded, newConsulClient]
  invoked := by simp [init]
  once := by simp [init, registered, newConsulClient]
  due := by simp [init]
  loaded := by simp [init]

/-- A change of the store gives the key a new index, or none. -/
theorem Inv.update {s : Watch Q C V E} (h : s.Inv) (key : String) {pair : Option (V × ℕ)}
    (hpair : ∀ value index, pair = some (value, index) → index = s.lastIndex + 1) :
    Inv { s with store := Function.update s.store key pair, lastIndex := s.lastIndex + 1 } where
  indexed := by
    intro key' value index hstore
    by_cases hkey : key' = key
    · subst hkey
      simp only [Function.update_self] at hstore
      exact (hpair value index hstore).le
    · simp only [Function.update_of_ne hkey] at hstore
      exact (h.indexed key' value index hstore).trans (Nat.le_succ _)
  recorded := by
    intro key' v hrec
    obtain ⟨hle, hstore⟩ := h.recorded key' v hrec
    refine ⟨hle.trans (Nat.le_succ _), ?_⟩
    intro value index hstore'
    by_cases hkey : key' = key
    · subst hkey
      simp only [Function.update_self] at hstore'
      rw [hpair value index hstore']
      exact hle.trans (Nat.le_succ _)
    · simp only [Function.update_of_ne hkey] at hstore'
      exact hstore value index hstore'
  invoked := h.invoked
  once := h.once
  due := h.due
  loaded := h.loaded

/-- A client with one more callback, and the same recorded indices. -/
theorem Inv.register {s : Watch Q C V E} (h : s.Inv) {cu : ConsulClient Q C} {key : String} {cb : C}
    (hcb : cu.watchCallback = s.client.watchCallback.set key cb)
    (hrec : cu.queryVersion = s.client.queryVersion) (honce : cu.once = true) :
    Inv { s with client := cu } := by
  have hreg : ∀ key', (s.registered key').isSome = true → (cu.watchCallback.get key').isSome = true := by
    intro key' hsome
    rw [hcb]
    by_cases hkey : key' = key
    · subst hkey
      simp
    · rwa [ConcurrentMap.get_set_of_ne _ _ hkey]
  refine ⟨h.indexed, ?_, ?_, fun _ _ _ => honce, ?_, fun key' hkey => hreg key' (h.loaded key' hkey)⟩
  · intro key' v hv
    exact h.recorded key' v (by rwa [Watch.recorded, hrec] at hv)
  · intro call hcall
    obtain ⟨v, hv, hle⟩ := h.invoked call hcall
    exact ⟨v, by rwa [Watch.recorded, hrec], hle⟩
  · intro r hround key' hkey
    exact hreg key' (h.due r hround key' hkey)

/-- A visit that records the index it loaded, and calls the callback. -/
theorem Inv.invoked_recorded {s : Watch Q C V E} (h : s.Inv) {key : String} {value : V} {index : ℕ}
    (hstore : s.store key = some (value, index)) {versions : ConcurrentMap String ℕ}
    (hversions : versions = s.client.queryVersion.set key index) (key' : String) :
    (∀ v, versions.get key' = some v →
        v ≤ s.lastIndex ∧ ∀ value' index', s.store key' = some (value', index') → v ≤ index') ∧
      ∀ v, s.recorded key' = some v → ∃ v', versions.get key' = some v' ∧ v ≤ v' := by
  rw [hversions]
  by_cases hkey : key' = key
  · subst hkey
    rw [ConcurrentMap.get_set_self]
    refine ⟨?_, ?_⟩
    · intro v hv
      obtain rfl := Option.some.inj hv
      refine ⟨h.indexed key' value index hstore, ?_⟩
      intro value' index' hstore'
      rw [hstore] at hstore'
      exact (Prod.mk.inj (Option.some.inj hstore')).2.le
    · intro v hv
      exact ⟨index, rfl, (h.recorded key' v hv).2 value index hstore⟩
  · rw [ConcurrentMap.get_set_of_ne _ _ hkey]
    exact ⟨h.recorded key', fun v hv => ⟨v, hv, le_rfl⟩⟩

theorem Inv.visit {s : Watch Q C V E} (h : s.Inv) {r : Round} {key : String} {cb : C}
    (fault result : Option E) (hround : s.round = some r) (hcb : s.registered key = some cb) :
    (s.visited r key cb fault result).Inv := by
  have hreg := registered_visited s r key cb fault result
  have honce : ∀ key' cb', (s.visited r key cb fault result).registered key' = some cb' →
      (s.visited r key cb fault result).client.once = true := by
    intro key' cb' hcb'
    rw [hreg] at hcb'
    rw [(visited_frame s r key cb fault result).2]
    exact h.once key' cb' hcb'
  have hdue : ∀ r', (s.visited r key cb fault result).round = some r' → ∀ key' ∈ r'.due,
      ((s.visited r key cb fault result).registered key').isSome = true := by
    intro r' hr' key' hkey'
    obtain rfl := Option.some.inj hr'
    rw [hreg]
    exact h.due r hround key' hkey'
  have hloaded : ∀ key' ∈ key :: s.loaded, (s.registered key').isSome = true := by
    intro key' hmem
    rcases List.mem_cons.mp hmem with rfl | hmem
    · simp [hcb]
    · exact h.loaded key' hmem
  cases visited_seen s r key cb fault result with
  | notLoaded hfail hv hl hi =>
      refine ⟨h.indexed, ?_, ?_, honce, hdue, ?_⟩
      · simp only [Watch.recorded, hv]
        exact h.recorded
      · simpa only [Watch.recorded, hv, hi] using h.invoked
      · simpa only [hreg, hl] using h.loaded
  | unchanged hfault hstore hrec hv hl hi =>
      refine ⟨h.indexed, ?_, ?_, honce, hdue, ?_⟩
      · simp only [Watch.recorded, hv]
        exact h.recorded
      · simpa only [Watch.recorded, hv, hi] using h.invoked
      · simpa only [hreg, hl] using hloaded
  | @invoked value index hfault hstore hrec hv hl hi =>
      have hgrow := h.invoked_recorded hstore hv
      refine ⟨h.indexed, fun key' => (hgrow key').1, ?_, honce, hdue, ?_⟩
      · simp only [Watch.recorded, hi]
        intro call hcall
        rcases List.mem_append.mp hcall with hcall | hcall
        · obtain ⟨v, hrec', hle⟩ := h.invoked call hcall
          obtain ⟨v', hv', hle'⟩ := (hgrow call.key).2 v hrec'
          exact ⟨v', hv', hle.trans hle'⟩
        · obtain rfl := List.mem_singleton.mp hcall
          rw [hv]
          exact ⟨index, ConcurrentMap.get_set_self .., le_rfl⟩
      · simpa only [hreg, hl] using hloaded

theorem Inv.step {s t : Watch Q C V E} {e : Event Q C V E} (h : s.Inv) (hstep : Step s e t) : t.Inv := by
  cases hstep with
  | put key value => exact h.update key (by simp)
  | delete key => exact h.update key (by simp)
  | start key f qo =>
      rcases startWatchService_spec (E := E) s.client key f qo with
        ⟨_, hsame⟩ | ⟨cb, _, _, hcb, hrec, honce⟩
      · rw [hsame]
        exact h
      · exact h.register hcb hrec honce
  | begin honce hsleep =>
      refine ⟨h.indexed, h.recorded, h.invoked, h.once, ?_, by simp [begun]⟩
      rintro r hround key hdue
      obtain rfl := Option.some.inj hround
      obtain ⟨⟨_, cb⟩, hmem, rfl⟩ := List.mem_map.mp hdue
      have hcb := ConcurrentMap.mem_items.mp hmem
      simp [registered, begun, hcb]
  | visit fault result hround hcb hnew => exact h.visit fault result hround hcb
  | finish hround hall => exact ⟨h.indexed, h.recorded, h.invoked, h.once, by simp, h.loaded⟩

end Watch

end Consul
end ServiceKit
