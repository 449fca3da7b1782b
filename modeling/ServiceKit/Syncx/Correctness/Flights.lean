import ServiceKit.Syncx.SingleFlight
import Mathlib.Algebra.Order.BigOperators.Group.Finset

/-!
# `Syncx.Correctness.Flights` — what a shared call returns

Over every interleaving of the calls of a group: no two threads run the function of one key at a time
(`exclusive`), each call returns what one run of the function gave whose flight was still open when the call began
(`returned_flight`), and no call waits for ever (`calls_end`).
-/

namespace ServiceKit
namespace Syncx

open Lib

variable {τ κ ρ : Type} [DecidableEq τ] [DecidableEq κ] [Inhabited ρ]

/-! ## What a step does -/

/-- The steps, case by case. -/
inductive Does : State τ κ ρ → Event τ κ ρ → State τ κ ρ → Prop where
  | create {s t key} (hpc : s.pc t = .idle) (hkey : s.group.calls.lookup key = none) :
      Does s (.create t key s.group.cells.length) (s.goto t (.calling s.group.cells.length key)
        { calls := s.group.calls.insert key s.group.cells.length, cells := s.group.cells ++ [⟨default, false⟩] })
  | join {s t key c} (hpc : s.pc t = .idle) (hkey : s.group.calls.lookup key = some c) :
      Does s (.join t key c) (s.goto t (.waiting c) s.group)
  | fn {s t c key r} (hpc : s.pc t = .calling c key) :
      Does s (.fn t c r) (s.goto t (.deferred c key false) (s.group.setResult c r))
  | panic {s t c key} (hpc : s.pc t = .calling c key) : Does s (.panic t c) (s.goto t (.deferred c key true) s.group)
  | delete {s t c key panicked} (hpc : s.pc t = .deferred c key panicked) :
      Does s (.delete t c) (s.goto t (.deleted c panicked) (s.group.delete key))
  | done {s t c panicked} (hpc : s.pc t = .deleted c panicked) : Does s (.done t c) (s.goto t .idle (s.group.wgDone c))
  | wake {s t c call} (hpc : s.pc t = .waiting c) (hcell : s.group.cells[c]? = some call) (hdone : call.done = true) :
      Does s (.wake t c) (s.goto t .idle s.group)

theorem does_of_step {s s' : State τ κ ρ} {e : Event τ κ ρ} (h : s.Step e s') : Does s e s' := by
  unfold State.Step at h
  cases e with
  | create t key c =>
      simp only [State.step, FlightGroup.createCall] at h
      cases hkey : s.group.calls.lookup key with
      | some c' => simp [hkey] at h
      | none =>
          cases hpc : s.pc t with
          | idle =>
              simp only [hkey, hpc] at h
              split at h
              · next hc =>
                  subst hc
                  exact Option.some.inj h ▸ .create hpc hkey
              · cases h
          | _ => simp [hkey, hpc] at h
  | join t key c =>
      simp only [State.step, FlightGroup.createCall] at h
      cases hkey : s.group.calls.lookup key with
      | none => simp [hkey] at h
      | some c' =>
          cases hpc : s.pc t with
          | idle =>
              simp only [hkey, hpc] at h
              split at h
              · next hc =>
                  subst hc
                  exact Option.some.inj h ▸ .join hpc hkey
              · cases h
          | _ => simp [hkey, hpc] at h
  | fn t c r =>
      simp only [State.step] at h
      split at h
      · next c' key hpc =>
          split at h
          · next hc => exact Option.some.inj h ▸ .fn (hc ▸ hpc)
          · cases h
      · cases h
  | panic t c =>
      simp only [State.step] at h
      split at h
      · next c' key hpc =>
          split at h
          · next hc => exact Option.some.inj h ▸ .panic (hc ▸ hpc)
          · cases h
      · cases h
  | delete t c =>
      simp only [State.step] at h
      split at h
      · next c' key panicked hpc =>
          split at h
          · next hc => exact Option.some.inj h ▸ .delete (hc ▸ hpc)
          · cases h
      · cases h
  | done t c =>
      simp only [State.step] at h
      split at h
      · next c' panicked hpc =>
          split at h
          · next hc => exact Option.some.inj h ▸ .done (hc ▸ hpc)
          · cases h
      · cases h
  | wake t c =>
      simp only [State.step] at h
      split at h
      · next c' call hpc hcell =>
          split at h
          · next hc => exact Option.some.inj h ▸ .wake (hc.1 ▸ hpc) hcell hc.2
          · cases h
      · cases h

/-! ## The flights -/

/-- The flight that a thread leads. -/
def Pc.leads : Pc κ → Option Addr
  | .calling c _ | .deferred c _ _ | .deleted c _ => some c
  | _ => none

/-- The flight of a thread that is in the map, with its key. -/
def Pc.open : Pc κ → Option (κ × Addr)
  | .calling c key | .deferred c key _ => some (key, c)
  | _ => none

/-- What holds of the group and its threads. -/
structure State.Safe (s : State τ κ ρ) : Prop where
  fresh : ∀ t c, (s.pc t).leads = some c → c < s.group.cells.length
  unique : ∀ t t' c, (s.pc t).leads = some c → (s.pc t').leads = some c → t = t'
  opened : ∀ t key c, (s.pc t).open = some (key, c) → s.group.calls.lookup key = some c
  known : ∀ key c, s.group.calls.lookup key = some c → ∃ t, (s.pc t).open = some (key, c)
  led : ∀ c call, s.group.cells[c]? = some call → call.done = false → ∃ t, (s.pc t).leads = some c
  waited : ∀ t c, s.pc t = .waiting c → c < s.group.cells.length

section

variable {s s' : State τ κ ρ} {t t' : τ} {e : Event τ κ ρ} {c : Addr} {key : κ} {g : FlightGroup κ ρ} {p : Pc κ}

omit [DecidableEq κ] [Inhabited ρ] in
@[simp] theorem goto_self : (s.goto t p g).pc t = p := Function.update_self _ _ _

omit [DecidableEq κ] [Inhabited ρ] in
theorem goto_ne (h : t' ≠ t) : (s.goto t p g).pc t' = s.pc t' := Function.update_of_ne h _ _

omit [DecidableEq κ] [Inhabited ρ] in
@[simp] theorem goto_group : (s.goto t p g).group = g := rfl

omit [DecidableEq κ] in
/-- An open flight is led. -/
theorem Pc.leads_of_open (h : p.open = some (key, c)) : p.leads = some c := by
  cases p with
  | calling c' key' => exact congrArg some (Prod.mk.inj (Option.some.inj h)).2
  | deferred c' key' panicked => exact congrArg some (Prod.mk.inj (Option.some.inj h)).2
  | _ => cases h

omit [Inhabited ρ] in
/-- A move of one thread that changes neither the flight it leads nor the map. -/
theorem State.Safe.same (h : s.Safe) (hleads : p.leads = (s.pc t).leads) (hopen : p.open = (s.pc t).open)
    (hwait : ∀ c, p = .waiting c → c < g.cells.length) (hcalls : g.calls = s.group.calls)
    (hlength : g.cells.length = s.group.cells.length)
    (hdone : ∀ (c : Addr) (call : Call ρ), g.cells[c]? = some call → call.done = false →
      ∃ call' : Call ρ, s.group.cells[c]? = some call' ∧ call'.done = false) : (s.goto t p g).Safe := by
  have hL : ∀ t', ((s.goto t p g).pc t').leads = (s.pc t').leads := by
    intro t'
    by_cases heq : t' = t
    · rw [heq, goto_self, hleads]
    · rw [goto_ne heq]
  have hO : ∀ t', ((s.goto t p g).pc t').open = (s.pc t').open := by
    intro t'
    by_cases heq : t' = t
    · rw [heq, goto_self, hopen]
    · rw [goto_ne heq]
  refine ⟨fun t' c hl => ?_, fun t₁ t₂ c h₁ h₂ => ?_, fun t' key c ho => ?_, fun key c hk => ?_,
    fun c call hcell hd => ?_, fun t' c hw => ?_⟩
  · rw [goto_group, hlength]
    exact h.fresh t' c (hL t' ▸ hl)
  · exact h.unique t₁ t₂ c (hL t₁ ▸ h₁) (hL t₂ ▸ h₂)
  · rw [goto_group, hcalls]
    exact h.opened t' key c (hO t' ▸ ho)
  · rw [goto_group, hcalls] at hk
    obtain ⟨t', ht'⟩ := h.known key c hk
    exact ⟨t', hO t' ▸ ht'⟩
  · obtain ⟨call', hcell', hd'⟩ := hdone c call hcell hd
    obtain ⟨t', ht'⟩ := h.led c call' hcell' hd'
    exact ⟨t', hL t' ▸ ht'⟩
  · by_cases heq : t' = t
    · rw [heq, goto_self] at hw
      exact hwait c hw
    · rw [goto_ne heq] at hw
      rw [goto_group, hlength]
      exact h.waited t' c hw

omit [DecidableEq τ] [Inhabited ρ] in
theorem safe_init : (State.init : State τ κ ρ).Safe := by
  refine ⟨fun t c h => ?_, fun t t' c h => ?_, fun t key c h => ?_, fun key c h => ?_, fun c call h => ?_,
    fun t c h => ?_⟩
  · cases h
  · cases h
  · cases h
  · exact absurd (h.symm.trans (AList.lookup_empty key)) (Option.some_ne_none c)
  · cases h
  · cases h

/-- A new flight. -/
theorem safe_create (h : s.Safe) (hpc : s.pc t = .idle) (hkey : s.group.calls.lookup key = none) :
    (s.goto t (.calling s.group.cells.length key)
      { calls := s.group.calls.insert key s.group.cells.length, cells := s.group.cells ++ [⟨default, false⟩] }).Safe := by
  have hlength : (s.group.cells ++ [(⟨default, false⟩ : Call ρ)]).length = s.group.cells.length + 1 := by simp
  refine ⟨fun t' c hl => ?_, fun t₁ t₂ c h₁ h₂ => ?_, fun t' key' c ho => ?_, fun key' c hk => ?_,
    fun c call hcell hd => ?_, fun t' c hw => ?_⟩
  · rw [goto_group, hlength]
    by_cases heq : t' = t
    · rw [heq, goto_self] at hl
      cases hl
      exact Nat.lt_succ_self _
    · rw [goto_ne heq] at hl
      exact Nat.lt_succ_of_lt (h.fresh t' c hl)
  · -- the cell is new, so nobody else leads it
    by_cases heq₁ : t₁ = t <;> by_cases heq₂ : t₂ = t
    · rw [heq₁, heq₂]
    · rw [heq₁, goto_self] at h₁
      rw [goto_ne heq₂] at h₂
      cases h₁
      exact absurd (h.fresh t₂ _ h₂) (lt_irrefl _)
    · rw [heq₂, goto_self] at h₂
      rw [goto_ne heq₁] at h₁
      cases h₂
      exact absurd (h.fresh t₁ _ h₁) (lt_irrefl _)
    · rw [goto_ne heq₁] at h₁
      rw [goto_ne heq₂] at h₂
      exact h.unique t₁ t₂ c h₁ h₂
  · by_cases heq : t' = t
    · rw [heq, goto_self] at ho
      cases ho
      exact AList.lookup_insert _
    · rw [goto_ne heq] at ho
      have hopen := h.opened t' key' c ho
      have hne : key' ≠ key := fun hk => by
        rw [hk, hkey] at hopen
        cases hopen
      exact (AList.lookup_insert_ne hne).trans hopen
  · by_cases hne : key' = key
    · subst hne
      obtain rfl := Option.some.inj ((AList.lookup_insert _).symm.trans hk)
      exact ⟨t, by rw [goto_self]; rfl⟩
    · obtain ⟨t', ht'⟩ := h.known key' c ((AList.lookup_insert_ne hne).symm.trans hk)
      have heq : t' ≠ t := fun heq => by
        rw [heq, hpc] at ht'
        cases ht'
      exact ⟨t', by rw [goto_ne heq, ht']⟩
  · rw [goto_group] at hcell
    rcases Nat.lt_or_ge c s.group.cells.length with hlt | hge
    · rw [List.getElem?_append_left hlt] at hcell
      obtain ⟨t', ht'⟩ := h.led c call hcell hd
      have heq : t' ≠ t := fun heq => by
        rw [heq, hpc] at ht'
        cases ht'
      exact ⟨t', by rw [goto_ne heq, ht']⟩
    · have hlt := (List.getElem?_eq_some_iff.mp hcell).1
      rw [hlength] at hlt
      have hc : c = s.group.cells.length := Nat.le_antisymm (Nat.le_of_lt_succ hlt) hge
      exact ⟨t, by rw [goto_self, hc]; rfl⟩
  · rw [goto_group, hlength]
    have heq : t' ≠ t := fun heq => by
      rw [heq, goto_self] at hw
      cases hw
    rw [goto_ne heq] at hw
    exact Nat.lt_succ_of_lt (h.waited t' c hw)

omit [Inhabited ρ] in
/-- The flight of `t` leaves the map. -/
theorem safe_delete {panicked : Bool} (h : s.Safe) (hpc : s.pc t = .deferred c key panicked) :
    (s.goto t (.deleted c panicked) (s.group.delete key)).Safe := by
  have ht : (s.pc t).open = some (key, c) := by rw [hpc]; rfl
  have hL : ∀ t', ((s.goto t (.deleted c panicked) (s.group.delete key)).pc t').leads = (s.pc t').leads := by
    intro t'
    by_cases heq : t' = t
    · rw [heq, goto_self, hpc]
      rfl
    · rw [goto_ne heq]
  refine ⟨fun t' c' hl => h.fresh t' c' (hL t' ▸ hl), fun t₁ t₂ c' h₁ h₂ => h.unique t₁ t₂ c' (hL t₁ ▸ h₁) (hL t₂ ▸ h₂),
    fun t' key' c' ho => ?_, fun key' c' hk => ?_, fun c' call hcell hd => ?_, fun t' c' hw => ?_⟩
  · have heq : t' ≠ t := fun heq => by
      rw [heq, goto_self] at ho
      cases ho
    rw [goto_ne heq] at ho
    have hopen := h.opened t' key' c' ho
    have hne : key' ≠ key := fun hk => by
      rw [hk, h.opened t key c ht] at hopen
      obtain rfl := Option.some.inj hopen
      exact heq (h.unique t' t c (Pc.leads_of_open ho) (Pc.leads_of_open ht))
    exact (AList.lookup_erase_ne hne).trans hopen
  · have hne : key' ≠ key := fun heq => by
      rw [heq] at hk
      exact Option.some_ne_none c' (hk.symm.trans (AList.lookup_erase key s.group.calls))
    obtain ⟨t', ht'⟩ := h.known key' c' ((AList.lookup_erase_ne hne).symm.trans hk)
    have heq : t' ≠ t := fun heq => by
      rw [heq, ht] at ht'
      exact hne (Prod.mk.inj (Option.some.inj ht')).1.symm
    exact ⟨t', by rw [goto_ne heq, ht']⟩
  · obtain ⟨t', ht'⟩ := h.led c' call hcell hd
    exact ⟨t', (hL t').trans ht'⟩
  · have heq : t' ≠ t := fun heq => by
      rw [heq, goto_self] at hw
      cases hw
    rw [goto_ne heq] at hw
    exact h.waited t' c' hw

omit [Inhabited ρ] in
/-- The waiters of the flight of `t` are released. -/
theorem safe_done {panicked : Bool} (h : s.Safe) (hpc : s.pc t = .deleted c panicked) :
    (s.goto t .idle (s.group.wgDone c)).Safe := by
  have hlength : (s.group.wgDone c).cells.length = s.group.cells.length := List.length_modify _ _ _
  refine ⟨fun t' c' hl => ?_, fun t₁ t₂ c' h₁ h₂ => ?_, fun t' key' c' ho => ?_, fun key' c' hk => ?_,
    fun c' call hcell hd => ?_, fun t' c' hw => ?_⟩
  · rw [goto_group, hlength]
    by_cases heq : t' = t
    · rw [heq, goto_self] at hl
      cases hl
    · rw [goto_ne heq] at hl
      exact h.fresh t' c' hl
  · have heq₁ : t₁ ≠ t := fun heq => by
      rw [heq, goto_self] at h₁
      cases h₁
    have heq₂ : t₂ ≠ t := fun heq => by
      rw [heq, goto_self] at h₂
      cases h₂
    rw [goto_ne heq₁] at h₁
    rw [goto_ne heq₂] at h₂
    exact h.unique t₁ t₂ c' h₁ h₂
  · have heq : t' ≠ t := fun heq => by
      rw [heq, goto_self] at ho
      cases ho
    rw [goto_ne heq] at ho
    exact h.opened t' key' c' ho
  · obtain ⟨t', ht'⟩ := h.known key' c' hk
    have heq : t' ≠ t := fun heq => by
      rw [heq, hpc] at ht'
      cases ht'
    exact ⟨t', by rw [goto_ne heq, ht']⟩
  · rw [goto_group] at hcell
    have hcell' : (s.group.cells.modify c fun call => { call with done := true })[c']? = some call := hcell
    by_cases hc : c = c'
    · -- this one is done
      subst hc
      rw [List.getElem?_modify_eq] at hcell'
      cases hold : s.group.cells[c]? with
      | none => rw [hold] at hcell'; cases hcell'
      | some old =>
          rw [hold] at hcell'
          rw [← Option.some.inj hcell'] at hd
          cases hd
    · rw [List.getElem?_modify_ne _ _ hc] at hcell'
      obtain ⟨t', ht'⟩ := h.led c' call hcell' hd
      have heq : t' ≠ t := fun heq => by
        rw [heq, hpc] at ht'
        exact hc (Option.some.inj ht')
      exact ⟨t', by rw [goto_ne heq, ht']⟩
  · rw [goto_group, hlength]
    have heq : t' ≠ t := fun heq => by
      rw [heq, goto_self] at hw
      cases hw
    rw [goto_ne heq] at hw
    exact h.waited t' c' hw

/-- Every step keeps it. -/
theorem safe_step (h : s.Safe) (hstep : Does s e s') : s'.Safe := by
  cases hstep with
  | create hpc hkey => exact safe_create h hpc hkey
  | @join t key c hpc hkey =>
      obtain ⟨t', ht'⟩ := h.known key c hkey
      refine h.same (by rw [hpc]; rfl) (by rw [hpc]; rfl) (fun c' hc' => ?_) rfl rfl fun c call hcell hd => ⟨call, hcell, hd⟩
      injection hc' with hc'
      exact hc' ▸ h.fresh t' c (Pc.leads_of_open ht')
  | @fn t c key r hpc =>
      refine h.same (by rw [hpc]; rfl) (by rw [hpc]; rfl) (fun c' hc' => by cases hc') rfl (List.length_modify _ _ _)
        fun c' call hcell hd => ?_
      have hcell' : (s.group.cells.modify c fun call => { call with result := r })[c']? = some call := hcell
      by_cases hc : c = c'
      · subst hc
        rw [List.getElem?_modify_eq] at hcell'
        obtain ⟨old, hold, rfl⟩ := Option.map_eq_some_iff.mp hcell'
        exact ⟨old, hold, hd⟩
      · rw [List.getElem?_modify_ne _ _ hc] at hcell'
        exact ⟨call, hcell', hd⟩
  | panic hpc =>
      exact h.same (by rw [hpc]; rfl) (by rw [hpc]; rfl) (fun c' hc' => by cases hc') rfl rfl
        fun c call hcell hd => ⟨call, hcell, hd⟩
  | delete hpc => exact safe_delete h hpc
  | done hpc => exact safe_done h hpc
  | wake hpc hcell hdone =>
      exact h.same (by rw [hpc]; rfl) (by rw [hpc]; rfl) (fun c' hc' => by cases hc') rfl rfl
        fun c call hcell hd => ⟨call, hcell, hd⟩

theorem safe_run {ls : List (Event τ κ ρ)} (h : Run State.Step State.init ls s) : s.Safe :=
  h.preserves safe_init fun _ _ _ hs hstep => safe_step hs (does_of_step hstep)

/-- **One function at a time**: two threads that run the function of one key are one thread. -/
theorem exclusive {ls : List (Event τ κ ρ)} (h : Run State.Step State.init ls s) {c' : Addr}
    (ht : s.pc t = .calling c key) (ht' : s.pc t' = .calling c' key) : t = t' := by
  have hsafe := safe_run h
  have hc := hsafe.opened t key c (by rw [ht]; rfl)
  have hc' := hsafe.opened t' key c' (by rw [ht']; rfl)
  obtain rfl := Option.some.inj (hc.symm.trans hc')
  exact hsafe.unique t t' c (by rw [ht]; rfl) (by rw [ht']; rfl)

/-- A thread runs the function, and another waits for it. -/
theorem exclusive_leader :
    ∃ s : State Nat Nat Nat, follow State.step State.init [.create 0 5 0, .join 1 5 0] = some s ∧
      s.pc 1 = .waiting 0 ∧ ∀ t' c', s.pc t' = .calling c' 5 → 0 = t' := by
  refine ⟨_, rfl, rfl, ?_⟩
  intro t' c' ht'
  exact exclusive (run_of_follow (show follow _ _ [Event.create 0 5 0, .join 1 5 0] = some _ from rfl)) rfl ht'

/-! ## What the run says -/

/-- The cell of an event. -/
def Event.cell : Event τ κ ρ → Addr
  | .create _ _ c | .join _ _ c | .fn _ c _ | .panic _ c | .delete _ c | .done _ c | .wake _ c => c

/-- The start of a call of `DoEx`. -/
def Event.begins : Event τ κ ρ → Bool
  | .create .. | .join .. => true
  | _ => false

/-- The end of the function of flight `c`. -/
def Event.ends (c : Addr) : Event τ κ ρ → Bool
  | .fn _ c' _ | .panic _ c' => c' = c
  | _ => false

/-- The call that `t` is in began with `e`; the flight was not deleted before. -/
def Began (ls : List (Event τ κ ρ)) (t : τ) (e : Event τ κ ρ) : Prop :=
  ∃ before after, ls = before ++ e :: after ∧ (∀ e' ∈ after, e'.thread = t → e'.begins = false) ∧
    ∀ t', .delete t' e.cell ∉ before

/-- What the function of flight `c` gave. -/
def Gave (ls : List (Event τ κ ρ)) (c : Addr) (r : ρ) : Prop :=
  (∃ t, .fn t c r ∈ ls) ∨ r = default ∧ ∃ t, .panic t c ∈ ls

/-- What the past says about a state. -/
structure Past (ls : List (Event τ κ ρ)) (s : State τ κ ρ) : Prop where
  below : ∀ e ∈ ls, e.cell < s.group.cells.length
  leader : ∀ t c, (s.pc t).leads = some c → ∃ key, Began ls t (.create t key c)
  waiter : ∀ t c, s.pc t = .waiting c → ∃ key, Began ls t (.join t key c) ∧ ∃ t', .create t' key c ∈ ls
  mapped : ∀ key c, s.group.calls.lookup key = some c → (∃ t, .create t key c ∈ ls) ∧ ∀ t, .delete t c ∉ ls
  calling : ∀ t c key call, s.pc t = .calling c key → s.group.cells[c]? = some call →
    call.result = default ∧ ls.countP (Event.ends c) = 0
  deferred : ∀ t c key panicked call, s.pc t = .deferred c key panicked → s.group.cells[c]? = some call →
    Gave ls c call.result
  deleted : ∀ t c panicked call, s.pc t = .deleted c panicked → s.group.cells[c]? = some call →
    Gave ls c call.result ∧ ∃ t, .delete t c ∈ ls
  closed : ∀ c call, s.group.cells[c]? = some call → call.done = true →
    Gave ls c call.result ∧ (∃ t, .delete t c ∈ ls) ∧ ∀ t, (s.pc t).leads ≠ some c
  once : ∀ c, ls.countP (Event.ends c) ≤ 1

omit [DecidableEq τ] [DecidableEq κ] [Inhabited ρ] in
theorem Began.snoc {ls : List (Event τ κ ρ)} {e e' : Event τ κ ρ} (h : Began ls t e)
    (he : e'.thread = t → e'.begins = false) : Began (ls ++ [e']) t e := by
  obtain ⟨before, after, rfl, hafter, hbefore⟩ := h
  refine ⟨before, after ++ [e'], by simp, fun e'' hmem => ?_, hbefore⟩
  rcases List.mem_append.mp hmem with hmem | hmem
  · exact hafter e'' hmem
  · rw [List.mem_singleton.mp hmem]
    exact he

omit [DecidableEq τ] [DecidableEq κ] in
theorem Gave.snoc {ls : List (Event τ κ ρ)} {r : ρ} (h : Gave ls c r) (e' : Event τ κ ρ) : Gave (ls ++ [e']) c r := by
  rcases h with ⟨t, ht⟩ | ⟨hr, t, ht⟩
  · exact .inl ⟨t, List.mem_append_left _ ht⟩
  · exact .inr ⟨hr, t, List.mem_append_left _ ht⟩

/-- Cells are there for good, and an event is about one of them. -/
theorem cells_grow (h : s.Safe) (hstep : Does s e s') :
    s.group.cells.length ≤ s'.group.cells.length ∧ e.cell < s'.group.cells.length := by
  cases hstep with
  | create hpc hkey =>
      rw [goto_group]
      simp [Event.cell]
  | @join t key c hpc hkey =>
      obtain ⟨t', ht'⟩ := h.known key c hkey
      exact ⟨Nat.le_refl _, h.fresh t' c (Pc.leads_of_open ht')⟩
  | @fn t c key r hpc =>
      have hlength : (s.group.setResult c r).cells.length = s.group.cells.length := List.length_modify _ _ _
      rw [goto_group, hlength]
      exact ⟨Nat.le_refl _, h.fresh t c (by rw [hpc]; rfl)⟩
  | @panic t c key hpc => exact ⟨Nat.le_refl _, h.fresh t c (by rw [hpc]; rfl)⟩
  | @delete t c key panicked hpc => exact ⟨Nat.le_refl _, h.fresh t c (by rw [hpc]; rfl)⟩
  | @done t c panicked hpc =>
      have hlength : (s.group.wgDone c).cells.length = s.group.cells.length := List.length_modify _ _ _
      rw [goto_group, hlength]
      exact ⟨Nat.le_refl _, h.fresh t c (by rw [hpc]; rfl)⟩
  | @wake t c call hpc hcell hdone => exact ⟨Nat.le_refl _, h.waited t c hpc⟩

/-- The other threads stay where they are. -/
theorem pc_frame (hstep : Does s e s') (h : t ≠ e.thread) : s'.pc t = s.pc t := by
  cases hstep <;> exact goto_ne h

/-- A flight is changed by its leader only. -/
theorem cell_frame (h : s.Safe) (hstep : Does s e s') (ht : (s.pc t).leads = some c) (hne : t ≠ e.thread) :
    s'.group.cells[c]? = s.group.cells[c]? ∧ e.ends c = false := by
  have hother : ∀ t' c', (s.pc t').leads = some c' → t ≠ t' → c' ≠ c := fun t' c' ht' hne' heq =>
    hne' (h.unique t t' c ht (heq ▸ ht'))
  cases hstep with
  | create hpc hkey => exact ⟨List.getElem?_append_left (h.fresh t c ht), rfl⟩
  | join hpc hkey => exact ⟨rfl, rfl⟩
  | @fn t' c' key r hpc =>
      have hc : c' ≠ c := hother t' c' (by rw [hpc]; rfl) hne
      exact ⟨List.getElem?_modify_ne _ _ hc, decide_eq_false hc⟩
  | @panic t' c' key hpc => exact ⟨rfl, decide_eq_false (hother t' c' (by rw [hpc]; rfl) hne)⟩
  | delete hpc => exact ⟨rfl, rfl⟩
  | @done t' c' panicked hpc =>
      exact ⟨List.getElem?_modify_ne _ _ (hother t' c' (by rw [hpc]; rfl) hne), rfl⟩
  | wake hpc hcell hdone => exact ⟨rfl, rfl⟩

omit [DecidableEq τ] [DecidableEq κ] [Inhabited ρ] in
theorem countP_snoc {ls : List (Event τ κ ρ)} (h : e.ends c = false) :
    (ls ++ [e]).countP (Event.ends c) = ls.countP (Event.ends c) := by
  simp [List.countP_append, h]

section Past

variable {ls : List (Event τ κ ρ)}

theorem past_below (h : s.Safe) (hpast : Past ls s) (hstep : Does s e s') :
    ∀ e' ∈ ls ++ [e], e'.cell < s'.group.cells.length := by
  obtain ⟨hle, hlt⟩ := cells_grow h hstep
  intro e' he'
  rcases List.mem_append.mp he' with he' | he'
  · exact Nat.lt_of_lt_of_le (hpast.below e' he') hle
  · rw [List.mem_singleton.mp he']
    exact hlt

omit [DecidableEq τ] in
/-- Of a cell that is not there yet the past says nothing. -/
theorem Past.silent (hpast : Past ls s) (hc : s.group.cells.length ≤ c) :
    ls.countP (Event.ends c) = 0 ∧ ∀ t, .delete t c ∉ ls := by
  refine ⟨List.countP_eq_zero.mpr fun e he hends => ?_, fun t ht => ?_⟩
  · have hlt := hpast.below e he
    cases e with
    | fn t c' r =>
        have heq : c' = c := of_decide_eq_true hends
        exact absurd hc (Nat.not_le.mpr (heq ▸ hlt))
    | panic t c' =>
        have heq : c' = c := of_decide_eq_true hends
        exact absurd hc (Nat.not_le.mpr (heq ▸ hlt))
    | _ => cases hends
  · exact absurd hc (Nat.not_le.mpr (hpast.below _ ht))

/-- The flight that a thread leads after its step is new, or the one it led. -/
theorem leads_cases (hstep : Does s e s') (hl : (s'.pc e.thread).leads = some c) :
    (∃ t key, e = .create t key c ∧ c = s.group.cells.length) ∨ (s.pc e.thread).leads = some c ∧ e.begins = false := by
  cases hstep with
  | @create t key hpc hkey =>
      simp only [Event.thread, goto_self] at hl
      obtain rfl := Option.some.inj hl
      exact .inl ⟨t, key, rfl, rfl⟩
  | @fn t c' key r hpc =>
      simp only [Event.thread, goto_self] at hl
      exact .inr ⟨by rw [Event.thread, hpc]; exact hl, rfl⟩
  | @panic t c' key hpc =>
      simp only [Event.thread, goto_self] at hl
      exact .inr ⟨by rw [Event.thread, hpc]; exact hl, rfl⟩
  | @delete t c' key panicked hpc =>
      simp only [Event.thread, goto_self] at hl
      exact .inr ⟨by rw [Event.thread, hpc]; exact hl, rfl⟩
  | _ =>
      simp only [Event.thread, goto_self] at hl
      cases hl

theorem past_leader (hpast : Past ls s) (hstep : Does s e s') (t : τ) (c : Addr) (hl : (s'.pc t).leads = some c) :
    ∃ key, Began (ls ++ [e]) t (.create t key c) := by
  by_cases hne : t = e.thread
  · subst hne
    rcases leads_cases hstep hl with ⟨t, key, rfl, rfl⟩ | ⟨hl, hbegins⟩
    · exact ⟨key, ls, [], rfl, List.forall_mem_nil _, fun t' => (hpast.silent (Nat.le_refl _)).2 t'⟩
    · obtain ⟨key, hbegan⟩ := hpast.leader e.thread c hl
      exact ⟨key, hbegan.snoc fun _ => hbegins⟩
  · rw [pc_frame hstep hne] at hl
    obtain ⟨key, hbegan⟩ := hpast.leader t c hl
    exact ⟨key, hbegan.snoc fun heq => absurd heq.symm hne⟩

theorem past_waiter (hpast : Past ls s) (hstep : Does s e s') (t : τ) (c : Addr) (hw : s'.pc t = .waiting c) :
    ∃ key, Began (ls ++ [e]) t (.join t key c) ∧ ∃ t', .create t' key c ∈ ls ++ [e] := by
  by_cases hne : t = e.thread
  · subst hne
    cases hstep with
    | @join t key c' hpc hkey =>
        obtain rfl : c' = c := by
          have heq := goto_self.symm.trans hw
          injection heq
        obtain ⟨⟨t', ht'⟩, hnot⟩ := hpast.mapped key c' hkey
        exact ⟨key, ⟨ls, [], rfl, List.forall_mem_nil _, hnot⟩, t', List.mem_append_left _ ht'⟩
    | _ => cases goto_self.symm.trans hw
  · rw [pc_frame hstep hne] at hw
    obtain ⟨key, hbegan, t', ht'⟩ := hpast.waiter t c hw
    exact ⟨key, hbegan.snoc fun heq => absurd heq.symm hne, t', List.mem_append_left _ ht'⟩

theorem past_mapped (h : s.Safe) (hpast : Past ls s) (hstep : Does s e s') (key : κ) (c : Addr)
    (hk : s'.group.calls.lookup key = some c) :
    (∃ t, .create t key c ∈ ls ++ [e]) ∧ ∀ t, .delete t c ∉ ls ++ [e] := by
  -- what was there stays as it was, when the event is not its deletion
  have hold : s.group.calls.lookup key = some c → (∀ t, e ≠ .delete t c) →
      (∃ t, .create t key c ∈ ls ++ [e]) ∧ ∀ t, .delete t c ∉ ls ++ [e] := by
    intro hk hne
    obtain ⟨⟨t, ht⟩, hnot⟩ := hpast.mapped key c hk
    refine ⟨⟨t, List.mem_append_left _ ht⟩, fun t' ht' => ?_⟩
    rcases List.mem_append.mp ht' with ht' | ht'
    · exact hnot t' ht'
    · exact hne t' (List.mem_singleton.mp ht').symm
  cases hstep with
  | @create t key' hpc hkey =>
      by_cases hkeys : key = key'
      · subst hkeys
        obtain rfl := Option.some.inj ((AList.lookup_insert _).symm.trans hk)
        refine ⟨⟨t, List.mem_append_right _ (List.mem_singleton.mpr rfl)⟩, fun t' ht' => ?_⟩
        rcases List.mem_append.mp ht' with ht' | ht'
        · exact (hpast.silent (Nat.le_refl _)).2 t' ht'
        · cases List.mem_singleton.mp ht'
      · exact hold ((AList.lookup_insert_ne hkeys).symm.trans hk) fun t' heq => by cases heq
  | @delete t c' key' panicked hpc =>
      have hkeys : key ≠ key' := fun heq => by
        rw [heq] at hk
        exact Option.some_ne_none c (hk.symm.trans (AList.lookup_erase key' s.group.calls))
      have hk' : s.group.calls.lookup key = some c := (AList.lookup_erase_ne hkeys).symm.trans hk
      refine hold hk' fun t' heq => ?_
      -- the flight that is deleted was the one of its own key
      injection heq with _ hc
      obtain ⟨t₂, ht₂⟩ := h.known key c hk'
      have ht : (s.pc t).open = some (key', c) := by rw [hpc, hc]; rfl
      obtain rfl := h.unique t₂ t c (Pc.leads_of_open ht₂) (Pc.leads_of_open ht)
      exact hkeys (Prod.mk.inj (Option.some.inj (ht₂.symm.trans ht))).1
  | join hpc hkey => exact hold hk fun t' heq => by cases heq
  | fn hpc => exact hold hk fun t' heq => by cases heq
  | panic hpc => exact hold hk fun t' heq => by cases heq
  | done hpc => exact hold hk fun t' heq => by cases heq
  | wake hpc hcell hdone => exact hold hk fun t' heq => by cases heq

theorem past_calling (h : s.Safe) (hpast : Past ls s) (hstep : Does s e s') (t : τ) (c : Addr) (key : κ) (call : Call ρ)
    (hpc' : s'.pc t = .calling c key) (hcell : s'.group.cells[c]? = some call) :
    call.result = default ∧ (ls ++ [e]).countP (Event.ends c) = 0 := by
  by_cases hne : t = e.thread
  · subst hne
    cases hstep with
    | @create t key' hpc hkey =>
        simp only [Event.thread, goto_self, Pc.calling.injEq] at hpc'
        obtain ⟨rfl, rfl⟩ := hpc'
        rw [goto_group] at hcell
        obtain rfl := Option.some.inj (List.getElem?_concat_length.symm.trans hcell)
        exact ⟨rfl, by rw [countP_snoc rfl, (hpast.silent (Nat.le_refl _)).1]⟩
    | _ => cases goto_self.symm.trans hpc'
  · rw [pc_frame hstep hne] at hpc'
    obtain ⟨hsame, hends⟩ := cell_frame h hstep (c := c) (by rw [hpc']; rfl) hne
    rw [countP_snoc hends]
    exact hpast.calling t c key call hpc' (hsame ▸ hcell)

theorem past_deferred (h : s.Safe) (hpast : Past ls s) (hstep : Does s e s') (t : τ) (c : Addr) (key : κ) (panicked : Bool)
    (call : Call ρ) (hpc' : s'.pc t = .deferred c key panicked) (hcell : s'.group.cells[c]? = some call) :
    Gave (ls ++ [e]) c call.result := by
  by_cases hne : t = e.thread
  · subst hne
    cases hstep with
    | @fn t c' key' r hpc =>
        simp only [Event.thread, goto_self, Pc.deferred.injEq] at hpc'
        obtain ⟨rfl, -, -⟩ := hpc'
        have hcell' : (s.group.cells.modify c' fun call => { call with result := r })[c']? = some call := hcell
        rw [List.getElem?_modify_eq] at hcell'
        obtain ⟨old, -, rfl⟩ := Option.map_eq_some_iff.mp hcell'
        exact .inl ⟨t, List.mem_append_right _ (List.mem_singleton.mpr rfl)⟩
    | @panic t c' key' hpc =>
        simp only [Event.thread, goto_self, Pc.deferred.injEq] at hpc'
        obtain ⟨rfl, -, -⟩ := hpc'
        exact .inr ⟨(hpast.calling t c' key' call hpc hcell).1, t, List.mem_append_right _ (List.mem_singleton.mpr rfl)⟩
    | _ => cases goto_self.symm.trans hpc'
  · rw [pc_frame hstep hne] at hpc'
    obtain ⟨hsame, -⟩ := cell_frame h hstep (c := c) (by rw [hpc']; rfl) hne
    exact (hpast.deferred t c key panicked call hpc' (hsame ▸ hcell)).snoc e

theorem past_deleted (h : s.Safe) (hpast : Past ls s) (hstep : Does s e s') (t : τ) (c : Addr) (panicked : Bool)
    (call : Call ρ) (hpc' : s'.pc t = .deleted c panicked) (hcell : s'.group.cells[c]? = some call) :
    Gave (ls ++ [e]) c call.result ∧ ∃ t, .delete t c ∈ ls ++ [e] := by
  by_cases hne : t = e.thread
  · subst hne
    cases hstep with
    | @delete t c' key' panicked' hpc =>
        simp only [Event.thread, goto_self, Pc.deleted.injEq] at hpc'
        obtain ⟨rfl, -⟩ := hpc'
        exact ⟨(hpast.deferred t c' key' panicked' call hpc hcell).snoc _, t,
          List.mem_append_right _ (List.mem_singleton.mpr rfl)⟩
    | _ => cases goto_self.symm.trans hpc'
  · rw [pc_frame hstep hne] at hpc'
    obtain ⟨hsame, -⟩ := cell_frame h hstep (c := c) (by rw [hpc']; rfl) hne
    obtain ⟨hgave, t', ht'⟩ := hpast.deleted t c panicked call hpc' (hsame ▸ hcell)
    exact ⟨hgave.snoc e, t', List.mem_append_left _ ht'⟩

/-- A cell that is done after a step was done before, or its leader has just released the waiters. -/
theorem done_cases (hpast : Past ls s) (hstep : Does s e s') {call : Call ρ}
    (hcell : s'.group.cells[c]? = some call) (hdone : call.done = true) :
    s.group.cells[c]? = some call ∨
      ∃ t panicked, e = .done t c ∧ s.pc t = .deleted c panicked ∧ ∃ old, s.group.cells[c]? = some old ∧
        old.result = call.result := by
  cases hstep with
  | create hpc hkey =>
      rw [goto_group] at hcell
      rcases Nat.lt_or_ge c s.group.cells.length with hlt | hge
      · rw [List.getElem?_append_left hlt] at hcell
        exact .inl hcell
      · -- a new cell is not done
        rw [List.getElem?_append_right hge] at hcell
        rw [List.mem_singleton.mp (List.mem_of_getElem? hcell)] at hdone
        cases hdone
  | @fn t c' key r hpc =>
      have hcell' : (s.group.cells.modify c' fun call => { call with result := r })[c]? = some call := hcell
      by_cases hc : c' = c
      · subst hc
        rw [List.getElem?_modify_eq] at hcell'
        obtain ⟨old, hold, rfl⟩ := Option.map_eq_some_iff.mp hcell'
        exact absurd (by rw [hpc]; rfl) ((hpast.closed c' old hold hdone).2.2 t)
      · rw [List.getElem?_modify_ne _ _ hc] at hcell'
        exact .inl hcell'
  | @done t c' panicked hpc =>
      have hcell' : (s.group.cells.modify c' fun call => { call with done := true })[c]? = some call := hcell
      by_cases hc : c' = c
      · subst hc
        rw [List.getElem?_modify_eq] at hcell'
        obtain ⟨old, hold, rfl⟩ := Option.map_eq_some_iff.mp hcell'
        exact .inr ⟨t, panicked, rfl, hpc, old, hold, rfl⟩
      · rw [List.getElem?_modify_ne _ _ hc] at hcell'
        exact .inl hcell'
  | _ => exact .inl hcell

theorem past_closed (h : s.Safe) (hpast : Past ls s) (hstep : Does s e s') (c : Addr) (call : Call ρ)
    (hcell : s'.group.cells[c]? = some call) (hdone : call.done = true) :
    Gave (ls ++ [e]) c call.result ∧ (∃ t, .delete t c ∈ ls ++ [e]) ∧ ∀ t, (s'.pc t).leads ≠ some c := by
  rcases done_cases hpast hstep hcell hdone with hold | ⟨t, panicked, rfl, hpc, old, hold, hresult⟩
  · obtain ⟨hgave, ⟨t, ht⟩, hleads⟩ := hpast.closed c call hold hdone
    refine ⟨hgave.snoc e, ⟨t, List.mem_append_left _ ht⟩, fun t' hl => ?_⟩
    by_cases hne : t' = e.thread
    · subst hne
      rcases leads_cases hstep hl with ⟨_, _, _, hc⟩ | ⟨hl, -⟩
      · exact absurd (List.getElem?_eq_some_iff.mp hold).1 (hc ▸ lt_irrefl _)
      · exact hleads _ hl
    · exact hleads t' (pc_frame hstep hne ▸ hl)
  · obtain ⟨hgave, t', ht'⟩ := hpast.deleted t c panicked old hpc hold
    refine ⟨hresult ▸ hgave.snoc _, ⟨t', List.mem_append_left _ ht'⟩, fun t₂ hl => ?_⟩
    by_cases hne : t₂ = (Event.done t c : Event τ κ ρ).thread
    · subst hne
      rcases leads_cases hstep hl with ⟨_, _, heq, _⟩ | ⟨_, hbegins⟩
      · cases heq
      · cases hstep
        cases (congrArg Pc.leads goto_self).symm.trans hl
    · rw [pc_frame hstep hne] at hl
      exact hne (h.unique t₂ t c hl (by rw [hpc]; rfl))

theorem past_once (h : s.Safe) (hpast : Past ls s) (hstep : Does s e s') (c : Addr) :
    (ls ++ [e]).countP (Event.ends c) ≤ 1 := by
  by_cases hends : e.ends c = true
  · -- the function of the flight was still running
    have hzero : ls.countP (Event.ends c) = 0 := by
      cases hstep with
      | @fn t c' key r hpc =>
          obtain rfl : c' = c := of_decide_eq_true hends
          have hlt := h.fresh t c' (by rw [hpc]; rfl)
          exact (hpast.calling t c' key _ hpc (List.getElem?_eq_getElem hlt)).2
      | @panic t c' key hpc =>
          obtain rfl : c' = c := of_decide_eq_true hends
          have hlt := h.fresh t c' (by rw [hpc]; rfl)
          exact (hpast.calling t c' key _ hpc (List.getElem?_eq_getElem hlt)).2
      | _ => cases hends
    rw [List.countP_append, hzero, List.countP_singleton, if_pos hends]
  · rw [countP_snoc (Bool.eq_false_of_not_eq_true hends)]
    exact hpast.once c

theorem past_step (h : s.Safe) (hpast : Past ls s) (hstep : Does s e s') : Past (ls ++ [e]) s' where
  below := past_below h hpast hstep
  leader := past_leader hpast hstep
  waiter := past_waiter hpast hstep
  mapped := past_mapped h hpast hstep
  calling := past_calling h hpast hstep
  deferred := past_deferred h hpast hstep
  deleted := past_deleted h hpast hstep
  closed := past_closed h hpast hstep
  once := past_once h hpast hstep

omit [DecidableEq τ] in
theorem past_init : Past [] (State.init : State τ κ ρ) where
  below := List.forall_mem_nil _
  leader := fun t c h => by cases h
  waiter := fun t c h => by cases h
  mapped := fun key c h => absurd (h.symm.trans (AList.lookup_empty key)) (Option.some_ne_none c)
  calling := fun t c key call h => by cases h
  deferred := fun t c key panicked call h => by cases h
  deleted := fun t c panicked call h => by cases h
  closed := fun c call h => by cases h
  once := fun c => Nat.zero_le 1

theorem past_run (h : Run State.Step State.init ls s) : Past ls s := by
  refine h.invariant Past past_init fun ls s e s' hrun hpast hstep => ?_
  exact past_step (safe_run hrun) hpast (does_of_step hstep)

end Past

/-! ## Results -/

/-- **What a call returns**: in any run, the value of a flight of its key, that the one run of the function of this
    flight gave (the zero value, where it panicked). The flight was not yet deleted when the call began; the value is
    `fresh` exactly for the call that began it. -/
theorem returned_flight {ls : List (Event τ κ ρ)} (h : Run State.Step State.init ls s) {r : ρ} {fresh : Bool}
    (hstep : s.Step e s') (hret : s.returned e = some (r, fresh)) :
    ∃ key, Gave ls e.cell r ∧ ls.countP (Event.ends e.cell) ≤ 1 ∧ (∃ t, .create t key e.cell ∈ ls) ∧
      Began ls e.thread (if fresh then .create e.thread key e.cell else .join e.thread key e.cell) := by
  have hsafe := safe_run h
  have hpast := past_run h
  cases does_of_step hstep with
  | @done t c panicked hpc =>
      simp only [State.returned, hpc] at hret
      cases panicked with
      | true => cases hret
      | false =>
          obtain ⟨call, hcell, heq⟩ := Option.map_eq_some_iff.mp hret
          obtain ⟨rfl, rfl⟩ := Prod.mk.inj heq
          obtain ⟨hgave, -⟩ := hpast.deleted t c false call hpc hcell
          obtain ⟨key, hbegan⟩ := hpast.leader t c (by rw [hpc]; rfl)
          obtain ⟨before, after, hls, -, -⟩ := id hbegan
          exact ⟨key, hgave, hpast.once c, ⟨t, by rw [hls]; simp [Event.cell]⟩, hbegan⟩
  | @wake t c call hpc hcell hdone =>
      simp only [State.returned, hcell, Option.map_some] at hret
      obtain ⟨rfl, rfl⟩ := Prod.mk.inj (Option.some.inj hret)
      obtain ⟨hgave, -, -⟩ := hpast.closed c call hcell hdone
      obtain ⟨key, hbegan, hcreate⟩ := hpast.waiter t c hpc
      exact ⟨key, hgave, hpast.once c, hcreate, hbegan⟩
  | _ => cases hret

/-- Two threads: the second joins the flight of the first. -/
def joined : List (Event Nat Nat Nat) := [.create 0 5 0, .join 1 5 0, .fn 0 0 7, .delete 0 0, .done 0 0]

def afterJoined : State Nat Nat Nat := (follow State.step State.init joined).getD State.init

theorem run_joined : Run State.Step State.init joined afterJoined := run_of_follow rfl

theorem returned_flight_joined :
    ∃ key, Gave joined 0 7 ∧ joined.countP (Event.ends 0) ≤ 1 ∧ (∃ t, .create t key 0 ∈ joined) ∧
      Began joined 1 (.join 1 key 0) := by
  have hstep : afterJoined.Step (.wake 1 0) (afterJoined.goto 1 .idle afterJoined.group) := rfl
  have hret : afterJoined.returned (.wake 1 0) = some (7, false) := rfl
  exact returned_flight run_joined hstep hret

/-- As long as some thread is in a call, a thread that is in a call can go on. -/
theorem can_step (hsafe : s.Safe) (hbusy : s.pc t ≠ .idle) : ∃ e s', s.Step e s' ∧ e.begins = false := by
  -- a thread that leads a flight can always go on
  have hleader : ∀ t c, (s.pc t).leads = some c → ∃ e s', s.Step e s' ∧ e.begins = false := by
    intro t c hl
    cases hpc : s.pc t with
    | idle => rw [hpc] at hl; cases hl
    | waiting c' => rw [hpc] at hl; cases hl
    | calling c' key =>
        refine ⟨.fn t c' default, s.goto t (.deferred c' key false) (s.group.setResult c' default), ?_, rfl⟩
        simp only [State.Step, State.step, hpc, if_true]
    | deferred c' key panicked =>
        refine ⟨.delete t c', s.goto t (.deleted c' panicked) (s.group.delete key), ?_, rfl⟩
        simp only [State.Step, State.step, hpc, if_true]
    | deleted c' panicked =>
        refine ⟨.done t c', s.goto t .idle (s.group.wgDone c'), ?_, rfl⟩
        simp only [State.Step, State.step, hpc, if_true]
  cases hpc : s.pc t with
  | idle => exact absurd hpc hbusy
  | waiting c =>
      have hlt := hsafe.waited t c hpc
      have hcell := List.getElem?_eq_getElem hlt
      cases hdone : s.group.cells[c].done with
      | true =>
          refine ⟨.wake t c, s.goto t .idle s.group, ?_, rfl⟩
          simp only [State.Step, State.step, hpc, hcell, hdone, and_self, if_true]
      | false =>
          obtain ⟨t', ht'⟩ := hsafe.led c _ hcell hdone
          exact hleader t' c ht'
  | calling c key => exact hleader t c (by rw [hpc]; rfl)
  | deferred c key panicked => exact hleader t c (by rw [hpc]; rfl)
  | deleted c panicked => exact hleader t c (by rw [hpc]; rfl)

/-- The steps that a thread has before it at most. -/
def Pc.weight : Pc κ → Nat
  | .idle => 0
  | .waiting _ => 1
  | .calling _ _ => 3
  | .deferred _ _ _ => 2
  | .deleted _ _ => 1

/-- A step that begins no call brings its thread nearer to the end of its own. -/
theorem weight_step (hstep : Does s e s') (hbegins : e.begins = false) :
    (s'.pc e.thread).weight < (s.pc e.thread).weight := by
  cases hstep with
  | create hpc hkey => cases hbegins
  | join hpc hkey => cases hbegins
  | fn hpc => rw [Event.thread, goto_self, hpc]; exact Nat.lt_succ_self 2
  | panic hpc => rw [Event.thread, goto_self, hpc]; exact Nat.lt_succ_self 2
  | delete hpc => rw [Event.thread, goto_self, hpc]; exact Nat.lt_succ_self 1
  | done hpc => rw [Event.thread, goto_self, hpc]; exact Nat.zero_lt_one
  | wake hpc hcell hdone => rw [Event.thread, goto_self, hpc]; exact Nat.zero_lt_one

/-- The threads of a run. -/
def threads (ls : List (Event τ κ ρ)) : Finset τ := (ls.map Event.thread).toFinset

/-- A thread that did nothing is in no call. -/
theorem idle_of_notMem {ls : List (Event τ κ ρ)} (h : Run State.Step State.init ls s) (ht : t ∉ threads ls) :
    s.pc t = .idle := by
  induction h with
  | nil => rfl
  | @snoc ls s e s' hrun hstep ih =>
      simp only [threads, List.map_append, List.toFinset_append, Finset.mem_union, not_or] at ht
      have hne : t ≠ e.thread := fun heq => ht.2 (by rw [heq]; simp)
      rw [pc_frame (does_of_step hstep) hne]
      exact ih ht.1

/-- **No call waits for ever**: wherever a run has come, the calls that are under way can all be brought to their end by
    steps of their own, no other call being needed. -/
theorem calls_end {ls : List (Event τ κ ρ)} (h : Run State.Step State.init ls s) :
    ∃ es s', Run State.Step s es s' ∧ (∀ e ∈ es, e.begins = false) ∧ ∀ t, s'.pc t = .idle := by
  have hsafe := safe_run h
  have hidle : ∀ t, t ∉ threads ls → s.pc t = .idle := fun t ht => idle_of_notMem h ht
  generalize threads ls = T at hidle
  clear h
  -- by induction on what the threads have before them
  induction hweight : ∑ t ∈ T, (s.pc t).weight using Nat.strongRecOn generalizing s with
  | ind N ih =>
      by_cases hall : ∀ t, s.pc t = .idle
      · exact ⟨[], s, .nil, List.forall_mem_nil _, hall⟩
      · obtain ⟨t, ht⟩ := not_forall.mp hall
        obtain ⟨e, s', hstep, hbegins⟩ := can_step hsafe ht
        have hdoes := does_of_step hstep
        have hlt := weight_step hdoes hbegins
        have hmem : e.thread ∈ T := by
          by_contra hnot
          rw [hidle _ hnot] at hlt
          exact Nat.not_lt_zero _ hlt
        have hsum : ∑ t ∈ T, (s'.pc t).weight < N := by
          rw [← hweight]
          refine Finset.sum_lt_sum (fun t' _ => ?_) ⟨e.thread, hmem, hlt⟩
          by_cases hne : t' = e.thread
          · rw [hne]
            exact Nat.le_of_lt hlt
          · rw [pc_frame hdoes hne]
        obtain ⟨es, s'', hrun, hes, hend⟩ := ih _ hsum (safe_step hsafe hdoes) (fun t' ht' => by
          have hne : t' ≠ e.thread := fun heq => ht' (heq ▸ hmem)
          rw [pc_frame hdoes hne]
          exact hidle t' ht') rfl
        exact ⟨e :: es, s'', .cons hstep hrun, List.forall_mem_cons.mpr ⟨hbegins, hes⟩, hend⟩

theorem calls_end_joined : ∃ es s', Run State.Step afterJoined es s' ∧ (∀ e ∈ es, e.begins = false) ∧ ∀ t, s'.pc t = .idle :=
  calls_end run_joined

end

end Syncx
end ServiceKit
