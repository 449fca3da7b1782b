import ServiceKit.Consul.Interleaving

/-!
# `Correctness.WatchOptions` — the options that the watch polls with

`StartWatchService` sets the options of a key, but it is not alone: every load that was given options and succeeds keeps
them, under the same key, and the loop gives its loads the options that it read before. The watch polls with the options
that were set exactly as long as no load keeps others (`watch_options_iff`).
-/

namespace ServiceKit
namespace Consul

open Lib

variable {Q C E : Type} {shard : String → ℕ}

namespace Service

/-! ## What is polled, and what is kept -/

/-- The key and the options that the loop polls with in a step. -/
def polled (s : Service Q C) : Action Q C E → Option (String × Option Q)
  | .visit key => (s.client.queryOption.get key).map fun qo => (key, some qo)
  | .reread => s.round.bind fun r => r.visiting.bind fun v => some (v.key, s.client.queryOption.get v.key)
  | _ => none

/-- A key whose options were set when the round began is polled with those that were set last. -/
def PollRight (s : Service Q C) (a : Action Q C E) : Prop :=
  ∀ key param r, s.polled a = some (key, param) → s.round = some r → (r.started key).isSome = true →
    param = s.started key

/-- The key and the options that a load keeps in a step. -/
def kept (s : Service Q C) : Action Q C E → Option (String × Q)
  | .loaded g (.ok _) =>
      match s.calls g with
      | some (.loads key (some qo) _ _) => some (key, qo)
      | _ => none
  | .reply (.ok _) =>
      match s.round.bind Tour.visiting with
      | some (.polls key (some qo)) => some (key, qo)
      | _ => none
  | _ => none

/-- What a load keeps for a key whose options were set is what was set last. -/
def KeepsOptions (s : Service Q C) (a : Action Q C E) : Prop :=
  ∀ key qo, s.kept a = some (key, qo) → (s.started key).isSome = true → s.started key = some qo

/-! ## Reachable states -/

def Registered (s : Service Q C) (key : String) : Prop := (s.client.watchCallback.get key).isSome = true

section Steps

variable {s t : Service Q C} {a : Action Q C E}

theorem registered_register {cu : ConsulClient Q C} {key key' : String} {f : C}
    (h : key' = key ∨ (cu.watchCallback.get key').isSome = true) :
    ((cu.register key f).watchCallback.get key').isSome = true := by
  by_cases heq : key' = key
  · simp [ConsulClient.register, heq]
  · rw [ConsulClient.register, ConcurrentMap.get_set_of_ne _ _ heq]
    exact h.resolve_left heq

/-- What a step never takes back. -/
structure Grows (s t : Service Q C) : Prop where
  once : s.client.once = true → t.client.once = true
  registered : ∀ key, s.Registered key → t.Registered key
  started : ∀ key, (s.started key).isSome = true → (t.started key).isSome = true

theorem grows_of_takes (h : Takes shard s a t) : Grows s t := by
  cases h with
  | startWatch g key f qo =>
      exact ⟨by simp [advance], fun key' hreg => registered_register (Or.inr hreg), by simp [advance]⟩
  | @startReturns key qo g hcall =>
      refine ⟨by simp [restart, advance], by simp [restart, advance, Registered], ?_⟩
      intro key' hstarted
      simp only [restart, advance]
      split
      · by_cases heq : key' = key
        · simpa [heq]
        · simpa [heq] using hstarted
      · exact hstarted
  | batchGet g keys qo => exact ⟨by simp [advance], by simp [advance, Registered], by simp [advance]⟩
  | load g => exact ⟨by simp [advance], by simp [advance, Registered], by simp [advance]⟩
  | loaded g reply => exact ⟨by simp [advance], by simp [advance, Registered], by simp [advance]⟩
  | reply reply => exact ⟨by simp, by simp [Registered], by simp⟩
  | begin => exact ⟨by simp, by simp [Registered], by simp⟩
  | visit => exact ⟨by simp, by simp [Registered], by simp⟩
  | reread => exact ⟨by simp, by simp [Registered], by simp⟩
  | finish => exact ⟨by simp, by simp [Registered], by simp⟩

/-- What holds in every state that is reached. -/
structure Inv (s : Service Q C) : Prop where
  /-- Options are set for registered keys only, and the loop runs by then. -/
  started : ∀ key, (s.started key).isSome = true → s.client.once = true ∧ s.Registered key
  pending : ∀ g key qo, s.calls g = some (.starts key qo) → s.Registered key
  due : ∀ r, s.round = some r → ∀ key ∈ r.due, s.Registered key
  covered : ∀ r, s.round = some r → ∀ key, (r.started key).isSome = true → (s.started key).isSome = true

theorem inv_init : (init : Service Q C).Inv := by
  constructor <;> simp [init]

/-- A call that is about to set options after a step was so before, or has just registered its key. -/
theorem pending_of_takes (hstep : Takes shard s a t) {g : ℕ} {key : String} {qo : Option Q}
    (h : t.calls g = some (.starts key qo)) : s.calls g = some (.starts key qo) ∨ t.Registered key := by
  -- the calls of the other goroutines are left as they are
  have hadvance : ∀ {g' : ℕ} {pending : Option (Pending Q C)},
      (∀ key' qo', pending = some (.starts key' qo') → t.Registered key') →
        Function.update s.calls g' pending g = some (.starts key qo) →
          s.calls g = some (.starts key qo) ∨ t.Registered key := by
    intro g' pending hnew hcall
    by_cases hg : g = g'
    · rw [hg, Function.update_self] at hcall
      exact Or.inr (hnew key qo hcall)
    · rw [Function.update_of_ne hg] at hcall
      exact Or.inl hcall
  have hremaining : ∀ keys key' (qo' qo'' : Option Q), (Pending.remaining keys qo' : Option (Pending Q C)) ≠
      some (.starts key' qo'') := by
    intro keys key' qo' qo''
    unfold Pending.remaining
    split <;> simp
  cases hstep with
  | startWatch g' key' f qo' =>
      refine hadvance ?_ h
      intro key'' qo'' hstarts
      cases hstarts
      exact registered_register (Or.inl (Eq.refl _))
  | startReturns g' => exact hadvance (by simp) h
  | batchGet g' keys qo' => exact hadvance (fun _ _ hstarts => (hremaining _ _ _ _ hstarts).elim) h
  | load g' => exact hadvance (by simp) h
  | loaded g' reply => exact hadvance (fun _ _ hstarts => (hremaining _ _ _ _ hstarts).elim) h
  | begin => exact Or.inl h
  | visit => exact Or.inl h
  | reread => exact Or.inl h
  | reply reply => exact Or.inl h
  | finish => exact Or.inl h

/-- The round after a step was there before, with the same keys and options, or has just begun. -/
theorem round_of_takes (hstep : Takes shard s a t) {r : Tour Q} (h : t.round = some r) :
    (∃ r', s.round = some r' ∧ r.due = r'.due ∧ r.started = r'.started) ∨
      (t.client = s.client ∧ t.started = s.started ∧ r.due = s.client.watchCallback.items.map Prod.fst ∧
        r.started = s.started) := by
  cases hstep with
  | begin honce hsleep =>
      cases h
      exact Or.inr (by simp)
  | visit hround =>
      cases h
      exact Or.inl ⟨_, hround, by simp⟩
  | reread hround =>
      cases h
      exact Or.inl ⟨_, hround, by simp⟩
  | reply reply hround =>
      cases h
      exact Or.inl ⟨_, hround, by simp⟩
  | finish => simp at h
  | _ => exact Or.inl ⟨r, h, Eq.refl _, Eq.refl _⟩

theorem Inv.step (h : s.Inv) (hstep : Takes shard s a t) : t.Inv := by
  have hgrows := grows_of_takes hstep
  constructor
  · intro key hkey
    cases hstep with
    | @startReturns key' qo g hcall =>
        by_cases heq : key = key'
        · refine ⟨by simp [restart, advance], hgrows.registered key ?_⟩
          rw [heq]
          exact h.pending g key' qo hcall
        · have hold : (s.started key).isSome = true := by
            simp only [restart, advance] at hkey
            split at hkey
            · simpa [heq] using hkey
            · exact hkey
          exact ⟨hgrows.once (h.started key hold).1, hgrows.registered key (h.started key hold).2⟩
    | _ => exact ⟨hgrows.once (h.started key hkey).1, hgrows.registered key (h.started key hkey).2⟩
  · intro g key qo hcall
    rcases pending_of_takes hstep hcall with hold | hnew
    · exact hgrows.registered key (h.pending g key qo hold)
    · exact hnew
  · intro r hr key hkey
    rcases round_of_takes hstep hr with ⟨r', hr', hdue, -⟩ | ⟨hclient, -, hdue, -⟩
    · exact hgrows.registered key (h.due r' hr' key (hdue ▸ hkey))
    · rw [hdue] at hkey
      obtain ⟨⟨key', cb⟩, hmem, rfl⟩ := List.mem_map.mp hkey
      have hget : s.client.watchCallback.get key' = some cb := ConcurrentMap.mem_items.mp hmem
      simp [Registered, hclient, hget]
  · intro r hr key hkey
    rcases round_of_takes hstep hr with ⟨r', hr', -, hstarted⟩ | ⟨-, hnew, -, hstarted⟩
    · exact hgrows.started key (h.covered r' hr' key (hstarted ▸ hkey))
    · rw [hnew, ← hstarted]
      exact hkey

/-! ## The options in the map -/

theorem store_get_of_ne {α : Type} {cu : ConsulClient Q C} {key key' : String} (qo : Option Q) (reply : Except E α)
    (h : key' ≠ key) : (cu.store key qo reply).queryOption.get key' = cu.queryOption.get key' := by
  unfold ConsulClient.store
  split
  · exact ConcurrentMap.get_set_of_ne _ _ h
  · simp
  · simp

/-- A load that keeps options leaves them in the map. -/
theorem kept_of_takes (h : Takes shard s a t) {key : String} {qo : Q} (hkept : s.kept a = some (key, qo)) :
    t.client.queryOption.get key = some qo ∧ t.started = s.started := by
  cases h with
  | @loaded key' keys qo' param g reply hcall =>
      rcases reply with err | index
      · simp [kept] at hkept
      · rcases qo' with _ | qo'
        · simp [kept, hcall] at hkept
        · simp only [kept, hcall, Option.some.injEq, Prod.mk.injEq] at hkept
          obtain ⟨rfl, rfl⟩ := hkept
          simp [advance, ConsulClient.store]
  | @reply r key' qo' reply hround hvisiting =>
      rcases reply with err | index
      · simp [kept] at hkept
      · rcases qo' with _ | qo'
        · simp [kept, hround, hvisiting] at hkept
        · simp only [kept, hround, hvisiting, Option.bind_some, Option.some.injEq, Prod.mk.injEq] at hkept
          obtain ⟨rfl, rfl⟩ := hkept
          simp [ConsulClient.store]
  | _ => simp [kept] at hkept

/-- Where a step changes the options of a key, a load has kept them or they were set. -/
theorem queryOption_of_takes (h : Takes shard s a t) (key : String) :
    (t.started key = s.started key ∧ t.client.queryOption.get key = s.client.queryOption.get key) ∨
      (∃ qo, s.kept a = some (key, qo)) ∨ t.client.queryOption.get key = t.started key := by
  cases h with
  | startWatch g key' f qo => exact Or.inl (by simp [advance])
  | @startReturns key' qo g hcall =>
      rcases qo with _ | qo
      · exact Or.inl (by simp [advance, restart, ConsulClient.configure])
      · by_cases heq : key = key'
        · exact Or.inr (Or.inr (by simp [advance, restart, ConsulClient.configure, heq]))
        · refine Or.inl ⟨by simp [advance, restart, heq], ?_⟩
          exact ConcurrentMap.get_set_of_ne _ _ heq
  | batchGet g keys qo => exact Or.inl (by simp [advance])
  | load g => exact Or.inl (by simp [advance])
  | @loaded key' keys qo param g reply hcall =>
      by_cases heq : key = key'
      · rcases reply with err | index
        · exact Or.inl (by simp [advance, ConsulClient.store])
        · rcases qo with _ | qo
          · exact Or.inl (by simp [advance, ConsulClient.store])
          · exact Or.inr (Or.inl ⟨qo, by simp [kept, hcall, heq]⟩)
      · exact Or.inl ⟨by simp [advance], store_get_of_ne qo reply heq⟩
  | begin => exact Or.inl (by simp)
  | visit => exact Or.inl (by simp)
  | reread => exact Or.inl (by simp)
  | @reply r key' qo reply hround hvisiting =>
      by_cases heq : key = key'
      · rcases reply with err | index
        · exact Or.inl (by simp [ConsulClient.store])
        · rcases qo with _ | qo
          · exact Or.inl (by simp [ConsulClient.store])
          · exact Or.inr (Or.inl ⟨qo, by simp [kept, hround, hvisiting, heq]⟩)
      · refine Or.inl ⟨by simp, ?_⟩
        rw [ConsulClient.replied_queryOption]
        exact store_get_of_ne qo reply heq
  | finish => exact Or.inl (by simp)

/-- The options in the map are those that were set last. -/
def Current (s : Service Q C) : Prop :=
  ∀ key, (s.started key).isSome = true → s.client.queryOption.get key = s.started key

theorem current_init : (init : Service Q C).Current := by
  intro key hkey
  simp [init] at hkey

theorem Current.step (h : s.Current) (hstep : Takes shard s a t) (hkeeps : s.KeepsOptions a) : t.Current := by
  intro key hkey
  rcases queryOption_of_takes hstep key with ⟨hstarted, hget⟩ | ⟨qo, hkept⟩ | hset
  · rw [hstarted] at hkey
    rw [hget, hstarted]
    exact h key hkey
  · obtain ⟨hget, hstarted⟩ := kept_of_takes hstep hkept
    rw [hstarted] at hkey
    rw [hget, hstarted]
    exact (hkeeps key qo hkept hkey).symm
  · exact hset

/-- With those in the map, a poll is right. -/
theorem Current.pollRight (h : s.Current) (hinv : s.Inv) (a : Action Q C E) : s.PollRight a := by
  intro key param r hpolled hr hcovered
  have hcurrent := h key (hinv.covered r hr key hcovered)
  cases a with
  | visit key' =>
      obtain ⟨qo, hget, heq⟩ := Option.map_eq_some_iff.mp hpolled
      obtain ⟨rfl, rfl⟩ := Prod.mk.inj heq
      rw [← hcurrent, hget]
  | reread =>
      obtain ⟨r', hr', hpolled⟩ := Option.bind_eq_some_iff.mp hpolled
      obtain ⟨v, -, hpolled⟩ := Option.bind_eq_some_iff.mp hpolled
      obtain ⟨rfl, rfl⟩ := Prod.mk.inj (Option.some.inj hpolled)
      exact hcurrent
  | _ => simp [polled] at hpolled

/-! ## Stale options -/

/-- The map has other options than those that were set last. -/
structure Stale (s : Service Q C) (key : String) : Prop where
  started : (s.started key).isSome = true
  stale : ∃ qo, s.client.queryOption.get key = some qo ∧ s.started key ≠ some qo

/-- A load that keeps other options makes them stale. -/
theorem stale_of_takes (h : Takes shard s a t) (hkeeps : ¬s.KeepsOptions a) : ∃ key, t.Stale key := by
  unfold KeepsOptions at hkeeps
  push Not at hkeeps
  obtain ⟨key, qo, hkept, hstarted, hne⟩ := hkeeps
  obtain ⟨hget, hsame⟩ := kept_of_takes h hkept
  rw [← hsame] at hstarted hne
  exact ⟨key, hstarted, qo, hget, hne⟩

end Steps

/-! ## Runs -/

/-- The loop goes on, and nothing answers it. -/
def Quiet : Action Q C E → Prop
  | .begin => True
  | .visit _ => True
  | .reread => True
  | .reply (.error _) => True
  | .finish => True
  | _ => False

/-- A quiet step. -/
def QuietTakes (shard : String → ℕ) (s : Service Q C) (a : Action Q C E) (t : Service Q C) : Prop :=
  Takes shard s a t ∧ Quiet a

/-- A step where only what `A` allows happens. -/
def TakesIn (shard : String → ℕ) (A : Service Q C → Action Q C E → Prop) (s : Service Q C) (a : Action Q C E)
    (t : Service Q C) : Prop :=
  Takes shard s a t ∧ A s a

section Runs

variable (shard : String → ℕ) {s t : Service Q C} {r : Tour Q} [Inhabited E]

/-- The state of the loop within a round. -/
def within (s : Service Q C) (r : Tour Q) : Service Q C := { s with round := some r }

/-- A visit under way can be brought to its end. -/
theorem visit_ends {v : Visiting Q} (hvisiting : r.visiting = some v) :
    ∃ as : List (Action Q C E), Run (QuietTakes shard) (s.within r) as
      (s.within { r with visited := v.key :: r.visited, visiting := none }) := by
  have hreply : ∀ (r : Tour Q) (key : String) (qo : Option Q), r.visiting = some (.polls key qo) →
      QuietTakes shard (s.within r) (.reply (.error (default : E)) : Action Q C E)
        (s.within { r with visited := key :: r.visited, visiting := none }) := by
    intro r key qo hvisiting
    have hstep : Takes shard (s.within r) _ _ := .reply (.error (default : E)) rfl hvisiting
    have hsame : (s.within r).client.replied key qo (.error (default : E)) = s.client := by
      simp [within, ConsulClient.replied, ConsulClient.store]
    rw [hsame] at hstep
    exact ⟨hstep, trivial⟩
  cases v with
  | polls key qo => exact ⟨_, .single (hreply r key qo hvisiting)⟩
  | rereads key =>
      have hreread : QuietTakes shard (s.within r) (.reread : Action Q C E)
          (s.within { r with visiting := some (.polls key none) }) := ⟨.reread rfl hvisiting, trivial⟩
      exact ⟨_, (Run.single hreread).snoc (hreply { r with visiting := some (.polls key none) } key none rfl)⟩

theorem visit_free (hfree : r.visiting = none) {key : String} (hreg : s.Registered key) (hnew : key ∉ r.visited) :
    ∃ as : List (Action Q C E), Run (QuietTakes shard) (s.within r) as
      (s.within { r with visited := key :: r.visited, visiting := none }) := by
  obtain ⟨cb, hcb⟩ := Option.isSome_iff_exists.mp hreg
  have hvisit : QuietTakes shard (s.within r) (.visit key : Action Q C E)
      (s.within { r with visiting := some ((s.within r).firstRead key) }) := ⟨.visit rfl hfree hcb hnew, trivial⟩
  obtain ⟨as, hrun⟩ := visit_ends (E := E) shard (s := s)
    (r := { r with visiting := some ((s.within r).firstRead key) }) rfl
  have hkey : ((s.within r).firstRead key).key = key := by
    unfold firstRead
    split <;> simp [Visiting.key]
  rw [hkey] at hrun
  exact ⟨_, .cons hvisit hrun⟩

/-- A round can visit all of some keys. -/
theorem visit_all (keys : List String) (hfree : r.visiting = none) (hreg : ∀ key ∈ keys, s.Registered key) :
    ∃ (as : List (Action Q C E)) (r' : Tour Q), Run (QuietTakes shard) (s.within r) as (s.within r') ∧
      r'.due = r.due ∧ r'.visiting = none ∧ ∀ key, key ∈ keys ∨ key ∈ r.visited → key ∈ r'.visited := by
  induction keys generalizing r with
  | nil => exact ⟨[], r, .nil, rfl, hfree, by simp⟩
  | cons key keys ih =>
      have hrest : ∀ key ∈ keys, s.Registered key := fun key hkey => hreg key (List.mem_cons_of_mem _ hkey)
      by_cases hold : key ∈ r.visited
      · obtain ⟨as, r', hrun, hdue, hfree', hvisited⟩ := ih hfree hrest
        refine ⟨as, r', hrun, hdue, hfree', ?_⟩
        rintro key' (hkey' | hkey')
        · rcases List.mem_cons.mp hkey' with rfl | hkey'
          · exact hvisited key' (Or.inr hold)
          · exact hvisited key' (Or.inl hkey')
        · exact hvisited key' (Or.inr hkey')
      · obtain ⟨as, hrun⟩ := visit_free (E := E) shard hfree (hreg key List.mem_cons_self) hold
        obtain ⟨as', r', hrun', hdue, hfree', hvisited⟩ :=
          ih (r := { r with visited := key :: r.visited, visiting := none }) rfl hrest
        refine ⟨as ++ as', r', hrun.append hrun', hdue, hfree', ?_⟩
        rintro key' (hkey' | hkey')
        · rcases List.mem_cons.mp hkey' with rfl | hkey'
          · exact hvisited key' (Or.inr List.mem_cons_self)
          · exact hvisited key' (Or.inl hkey')
        · exact hvisited key' (Or.inr (List.mem_cons_of_mem _ hkey'))

/-- A round can be brought to its end. -/
theorem Inv.round_ends (h : s.Inv) :
    ∃ as : List (Action Q C E), Run (QuietTakes shard) s as { s with round := none } := by
  cases hround : s.round with
  | none =>
      have hsame : { s with round := none } = s := by
        cases s
        simpa using hround.symm
      rw [hsame]
      exact ⟨[], .nil⟩
  | some r =>
      have hwithin : s.within r = s := by
        cases s
        simpa [within] using hround.symm
      -- the visit under way, if there is one
      obtain ⟨as, r', hrun, hdue, hfree⟩ : ∃ (as : List (Action Q C E)) (r' : Tour Q),
          Run (QuietTakes shard) (s.within r) as (s.within r') ∧ r'.due = r.due ∧ r'.visiting = none := by
        cases hvisiting : r.visiting with
        | none => exact ⟨[], r, .nil, rfl, hvisiting⟩
        | some v =>
            obtain ⟨as, hrun⟩ := visit_ends (E := E) shard (s := s) hvisiting
            exact ⟨as, _, hrun, rfl, rfl⟩
      have hreg : ∀ key ∈ r.due, s.Registered key := h.due r hround
      obtain ⟨as', r'', hrun', hdue', hfree', hvisited⟩ := visit_all (E := E) shard r.due hfree hreg
      have hfinish : QuietTakes shard (s.within r'') (.finish : Action Q C E) { s with round := none } := by
        refine ⟨.finish rfl hfree' ?_, trivial⟩
        intro key hkey
        rw [hdue', hdue] at hkey
        exact hvisited key (Or.inl hkey)
      rw [hwithin] at hrun
      exact ⟨_, (hrun.append hrun').snoc hfinish⟩

/-- A key with stale options is polled with them in the next round. -/
theorem Stale.poll_wrong {key : String} (h : s.Stale key) (hinv : s.Inv) :
    ∃ (as : List (Action Q C E)) (t u : Service Q C), Run (QuietTakes shard) s as t ∧
      QuietTakes shard t (.visit key : Action Q C E) u ∧ ¬t.PollRight (.visit key : Action Q C E) := by
  obtain ⟨honce, hreg⟩ := hinv.started key h.started
  obtain ⟨cb, hcb⟩ := Option.isSome_iff_exists.mp hreg
  obtain ⟨qo, hget, hne⟩ := h.stale
  obtain ⟨as, hrun⟩ := hinv.round_ends (E := E) shard
  let r : Tour Q := ⟨s.client.watchCallback.items.map Prod.fst, [], s.started, none⟩
  have hbegin : QuietTakes shard { s with round := none } (.begin : Action Q C E) (s.within r) :=
    ⟨.begin honce rfl, trivial⟩
  refine ⟨_, s.within r, _, hrun.snoc hbegin, ⟨.visit rfl rfl hcb List.not_mem_nil, trivial⟩, ?_⟩
  intro hright
  have hparam := hright key (some qo) r (by simp [polled, within, hget]) rfl h.started
  exact hne hparam.symm

variable (A : Service Q C → Action Q C E → Prop)

omit [Inhabited E] in
theorem inv_of_run {as : List (Action Q C E)} (h : Run (TakesIn shard A) init as s) : s.Inv :=
  h.preserves inv_init fun _ _ _ hinv hstep => hinv.step hstep.1

omit [Inhabited E] in
/-- In a run whose loads keep nothing else, the options in the map are those that were set last. -/
theorem current_of_run {as : List (Action Q C E)}
    (hkeeps : ∀ as s a t, Run (TakesIn shard A) init as s → TakesIn shard A s a t → s.KeepsOptions a)
    (h : Run (TakesIn shard A) init as s) : s.Current := by
  refine h.invariant (fun _ s => s.Current) current_init ?_
  intro as s a t hrun hcurrent hstep
  exact hcurrent.step hstep.1 (hkeeps as s a t hrun hstep)

/-- **Watch options.** Of the runs where only what `A` allows happens, every poll of a key whose options were set before
    the round is right, exactly when every load keeps for such a key nothing but the options that were set last. -/
theorem watch_options_iff (hquiet : ∀ s a, Quiet a → A s a) :
    (∀ as s a t, Run (TakesIn shard A) init as s → TakesIn shard A s a t → s.PollRight a) ↔
      ∀ as s a t, Run (TakesIn shard A) init as s → TakesIn shard A s a t → s.KeepsOptions a := by
  constructor
  · intro hright as s a t hrun hstep
    by_contra hkeeps
    have hinv : t.Inv := (inv_of_run shard A hrun).step hstep.1
    obtain ⟨key, hstale⟩ := stale_of_takes hstep.1 hkeeps
    obtain ⟨as', u, v, hrun', hvisit, hwrong⟩ := hstale.poll_wrong (E := E) shard hinv
    have hrun'' : Run (TakesIn shard A) t (as'.map id) u :=
      hrun'.map id fun s a t h => ⟨h.1, hquiet s a h.2⟩
    exact hwrong (hright _ u _ v ((hrun.snoc hstep).append hrun'') ⟨hvisit.1, hquiet _ _ hvisit.2⟩)
  · intro hkeeps as s a t hrun hstep
    exact (current_of_run shard A hkeeps hrun).pollRight (inv_of_run shard A hrun) a

end Runs

/-! ## Runs of one key -/

/-- `StartWatchService` sets the options `true`. -/
def starting : List (Action Bool Unit Unit) := [.startWatch 0 "key" () (some true), .startReturns 0]

/-- A call of `Get` with other options. -/
def getting : List (Action Bool Unit Unit) := [.batchGet 1 ["key"] (some false), .load 1, .loaded 1 (.ok none)]

/-- `StartWatchService` sets the options `false`, while the loop polls with those that it read before. -/
def restarting : List (Action Bool Unit Unit) :=
  [.startWatch 1 "key" () (some false), .begin, .visit "key", .startReturns 1, .reply (.ok none), .finish]

/-- Calls of `Get` of the key with the options that were set, and of another key with other options. -/
def gettingBoth : List (Action Bool Unit Unit) :=
  [.batchGet 1 ["key"] (some true), .load 1, .loaded 1 (.ok none),
    .batchGet 2 ["other"] (some false), .load 2, .loaded 2 (.ok none)]

/-- The options that were set are polled with. -/
theorem watch_options_started :
    ∃ s t : Service Bool Unit, Run (TakesIn (fun _ => 0) KeepsOptions) init (starting ++ gettingBoth ++ [.begin]) s ∧
      TakesIn (fun _ => 0) KeepsOptions s (.visit "key" : Action Bool Unit Unit) t ∧
      s.polled (.visit "key" : Action Bool Unit Unit) = some ("key", some true) ∧
      s.PollRight (.visit "key" : Action Bool Unit Unit) := by
  have hquiet : ∀ (s : Service Bool Unit) (a : Action Bool Unit Unit), Quiet a → s.KeepsOptions a := by
    rintro s (_ | _ | _ | _ | _ | _ | _ | _ | (_ | _) | _) h
    all_goals simp_all [Quiet, KeepsOptions, kept]
  have hinit : Run (TakesIn (E := Unit) (fun _ => 0) KeepsOptions) (init : Service Bool Unit) [] init := .nil
  have hstart := hinit.snoc (l := .startWatch 0 "key" () (some true))
    ⟨.startWatch 0 "key" () (some true) rfl (by simp) (by simp [init]), by simp [KeepsOptions, kept]⟩
  have hreturns := hstart.snoc (l := .startReturns 0) ⟨.startReturns 0 rfl, by simp [KeepsOptions, kept]⟩
  have hget := hreturns.snoc (l := .batchGet 1 ["key"] (some true))
    ⟨.batchGet 1 _ _ rfl, by simp [KeepsOptions, kept]⟩
  have hload := hget.snoc (l := .load 1) ⟨.load 1 rfl, by simp [KeepsOptions, kept]⟩
  have hloaded := hload.snoc (l := .loaded 1 (.ok none)) ⟨.loaded 1 (.ok none) rfl, by
    intro key qo hkept _
    obtain ⟨rfl, rfl⟩ := Prod.mk.inj (Option.some.inj (show some ("key", true) = some (key, qo) from hkept))
    rfl⟩
  have hother := hloaded.snoc (l := .batchGet 2 ["other"] (some false))
    ⟨.batchGet 2 _ _ rfl, by simp [KeepsOptions, kept]⟩
  have hload' := hother.snoc (l := .load 2) ⟨.load 2 rfl, by simp [KeepsOptions, kept]⟩
  have hloaded' := hload'.snoc (l := .loaded 2 (.ok none)) ⟨.loaded 2 (.ok none) rfl, by
    intro key qo hkept hstarted
    obtain ⟨rfl, rfl⟩ := Prod.mk.inj (Option.some.inj (show some ("other", false) = some (key, qo) from hkept))
    exact absurd hstarted (by decide)⟩
  have hbegin := hloaded'.snoc (l := .begin) ⟨.begin rfl rfl, hquiet _ .begin trivial⟩
  refine ⟨_, _, hbegin, ⟨.visit rfl rfl rfl List.not_mem_nil, hquiet _ (.visit "key") trivial⟩, rfl, ?_⟩
  exact (watch_options_iff (fun _ => 0) KeepsOptions hquiet).mpr (fun _ _ _ _ _ hstep => hstep.2) _ _ (.visit "key") _
    hbegin ⟨.visit rfl rfl rfl List.not_mem_nil, hquiet _ (.visit "key") trivial⟩

/-- **Options lost.** After a `Get` of the key with other options the loop polls with these; and the loop itself writes
    back what it read before `StartWatchService` was called again. -/
theorem watch_options_lost :
    (∃ s t : Service Bool Unit, Run (Takes fun _ => 0) init (starting ++ getting ++ [.begin]) s ∧
        Takes (fun _ => 0) s (.visit "key" : Action Bool Unit Unit) t ∧
        s.polled (.visit "key" : Action Bool Unit Unit) = some ("key", some false) ∧ s.started "key" = some true ∧
        ¬s.PollRight (.visit "key" : Action Bool Unit Unit)) ∧
      ∃ s t : Service Bool Unit, Run (Takes fun _ => 0) init (starting ++ restarting ++ [.begin]) s ∧
        Takes (fun _ => 0) s (.visit "key" : Action Bool Unit Unit) t ∧
        s.polled (.visit "key" : Action Bool Unit Unit) = some ("key", some true) ∧ s.started "key" = some false ∧
        ¬s.PollRight (.visit "key" : Action Bool Unit Unit) := by
  have hinit : Run (Takes (E := Unit) fun _ => 0) (init : Service Bool Unit) [] init := .nil
  have hstart := hinit.snoc (l := .startWatch 0 "key" () (some true))
    (.startWatch 0 "key" () (some true) rfl (by simp) (by simp [init]))
  have hreturns := hstart.snoc (l := .startReturns 0) (.startReturns 0 rfl)
  constructor
  · have hget := hreturns.snoc (l := .batchGet 1 ["key"] (some false)) (.batchGet 1 _ _ rfl)
    have hload := hget.snoc (l := .load 1) (.load 1 rfl)
    have hloaded := hload.snoc (l := .loaded 1 (.ok none)) (.loaded 1 (.ok none) rfl)
    have hbegin := hloaded.snoc (l := .begin) (.begin rfl rfl)
    refine ⟨_, _, hbegin, .visit rfl rfl rfl List.not_mem_nil, by decide, by decide, ?_⟩
    intro hright
    have hparam := hright "key" (some false) _ rfl rfl rfl
    exact absurd hparam (by decide)
  · have hagain := hreturns.snoc (l := .startWatch 1 "key" () (some false))
      (.startWatch 1 "key" () (some false) rfl (by simp) (by simp [init, advance, restart]))
    have hbegin := hagain.snoc (l := .begin) (.begin rfl rfl)
    have hvisit := hbegin.snoc (l := .visit "key") (.visit rfl rfl rfl List.not_mem_nil)
    have hset := hvisit.snoc (l := .startReturns 1) (.startReturns 1 rfl)
    have hreply := hset.snoc (l := .reply (.ok none)) (.reply (.ok none) rfl rfl)
    have hfinish := hreply.snoc (l := .finish) (.finish rfl rfl (by decide))
    have hbegin' := hfinish.snoc (l := .begin) (.begin rfl rfl)
    refine ⟨_, _, hbegin', .visit rfl rfl rfl List.not_mem_nil, by decide, by decide, ?_⟩
    intro hright
    have hparam := hright "key" (some true) _ rfl rfl rfl
    exact absurd hparam (by decide)


end Service

end Consul
end ServiceKit
