import ServiceKit.Sqlc.CachedConn

/-!
# `Sqlc.Correctness.Staleness` — when a cached row is not the row of the database

For each key the system is a cache beside a store (`aside`), so an entry that does not stand for what its query would
find has one of the three causes of `Lib.CacheAside` (`stale_entry`): the last statement that changed it did not name its
key or reported an error, the deletion of its key is still to come or was given up by the cleaner, or a thread that had
queried before that statement set it afterwards.
-/

namespace ServiceKit
namespace Sqlc

open Lib

variable {τ δ κ ν η : Type} {c : CachedConn δ κ ν η} {key key' : κ}

/-! ## The deletions of a call -/

theorem mem_nodeBatches {node : η} {keys : List κ} (hkey : key ∈ keys) : ∃ b ∈ c.nodeBatches node keys, key ∈ b := by
  have hlength : keys.length ≠ 0 := fun h => by
    rw [List.length_eq_zero_iff] at h
    rw [h] at hkey
    cases hkey
  rw [CachedConn.nodeBatches, if_neg hlength]
  split
  · exact ⟨[key], List.mem_map.mpr ⟨key, hkey, rfl⟩, List.mem_singleton_self key⟩
  · exact ⟨keys, List.mem_singleton_self keys, hkey⟩

/-- Every key is in a deletion. -/
theorem mem_batches [DecidableEq η] {keys : List κ} (hkey : key ∈ keys) : ∃ b ∈ c.batches keys, key ∈ b := by
  unfold CachedConn.batches
  split
  · exact mem_nodeBatches hkey
  · split
    · cases hkey
    · exact mem_nodeBatches hkey
    · -- the keys of its node are deleted together
      have hfile : key ∈ keys.filter fun k => some (c.dispatcher k) = some (c.dispatcher key) :=
        List.mem_filter.mpr ⟨hkey, by simp⟩
      have hlookup : (collect (fun k => some (c.dispatcher k)) ∅ keys).lookup (c.dispatcher key) =
          some (keys.filter fun k => some (c.dispatcher k) = some (c.dispatcher key)) :=
        (lookup_collect _).mpr ⟨List.ne_nil_of_mem hfile, rfl⟩
      obtain ⟨b, hb, hmem⟩ := mem_nodeBatches (c := c) hfile
      exact ⟨b, List.mem_flatMap.mpr ⟨_, c.order.mem_range.mpr (AList.mem_lookup_iff.mp hlookup), hb⟩, hmem⟩

/-! ## What a thread is about to do -/

/-- The thread is about to set this entry. -/
def Pc.Loads (key : κ) (data : Text) : Pc κ → Prop
  | .placing key' => key' = key ∧ data = notFoundPlaceholder
  | .setting sets => (key, data) ∈ sets
  | _ => False

/-- The thread is about to delete the key. -/
def Pc.Deletes (key : κ) : Pc κ → Prop
  | .deleting batches => ∃ b ∈ batches, key ∈ b
  | _ => False

/-- The entries that stand for what a query finds. -/
def Current (c : CachedConn δ κ ν η) (found : Option ν) (data : Text) : Prop :=
  match found with
  | none => data = notFoundPlaceholder
  | some v => c.marshal v = some data

theorem loads_toSet {sets : List (κ × Text)} {data : Text} :
    (CachedConn.toSet sets).Loads key data ↔ (key, data) ∈ sets := by
  cases sets with
  | nil => exact ⟨False.elim, fun h => by cases h⟩
  | cons e sets => exact Iff.rfl

theorem deletes_toDelete {batches : List (List κ)} :
    (State.toDelete batches).Deletes key ↔ ∃ b ∈ batches, key ∈ b := by
  cases batches with
  | nil => exact ⟨False.elim, fun ⟨b, hb, _⟩ => by cases hb⟩
  | cons b batches => exact Iff.rfl

theorem not_loads_fetched {data data' : Text} {index : Bool} : ¬ (c.fetched key' index data).Loads key data' := by
  intro h
  rw [CachedConn.fetched] at h
  split at h
  · exact h
  · split at h
    · exact h
    · split at h <;> exact h

/-- What a thread sets is what its query found. -/
theorem current_of_queried {db : δ} {index : Bool} {p : Pc κ} {data : Text} (hp : c.queried db key' index = some p)
    (hloads : p.Loads key data) : Current c (c.value db key) data := by
  have hentry : ∀ {k : κ} {v : ν}, c.value db k = some v →
      (key, data) ∈ (c.marshal v).toList.map (fun data => (k, data)) → Current c (c.value db key) data := by
    intro k v hv hmem
    obtain ⟨data', hdata', heq⟩ := List.mem_map.mp hmem
    obtain ⟨rfl, rfl⟩ := Prod.mk.inj heq
    rw [hv]
    exact Option.mem_toList.mp hdata'
  have hplacing : c.value db key' = none → (Pc.placing key').Loads key data → Current c (c.value db key) data := by
    rintro hnone ⟨rfl, rfl⟩
    rw [hnone]
    rfl
  cases index with
  | false =>
      rw [CachedConn.queried] at hp
      cases hv : c.value db key' with
      | none =>
          rw [hv] at hp
          exact hplacing hv (Option.some.inj hp ▸ hloads)
      | some v =>
          rw [hv] at hp
          rw [← Option.some.inj hp, loads_toSet] at hloads
          exact hentry hv hloads
  | true =>
      rw [CachedConn.queried] at hp
      cases hv : c.value db key' with
      | none =>
          rw [hv] at hp
          exact hplacing hv (Option.some.inj hp ▸ hloads)
      | some primary =>
          rw [hv] at hp
          simp only at hp
          cases hrow : c.value db (c.keyer primary) with
          | none =>
              rw [hrow] at hp
              cases hp
          | some v =>
              rw [hrow] at hp
              simp only at hp
              cases hm : c.marshal v with
              | none =>
                  rw [hm] at hp
                  rw [← Option.some.inj hp] at hloads
                  exact hloads.elim
              | some row =>
                  rw [hm] at hp
                  rw [← Option.some.inj hp, loads_toSet] at hloads
                  rcases List.mem_cons.mp hloads with heq | hmem
                  · obtain ⟨rfl, rfl⟩ := Prod.mk.inj heq
                    rw [hrow]
                    exact hm
                  · exact hentry hv hmem

/-! ## What a step can do -/

section Steps

variable [DecidableEq τ] [DecidableEq κ] [DecidableEq η] {s s' : State τ δ κ} {e : Event τ δ κ}

/-- The steps, each with the statement where its thread is. -/
inductive Does (c : CachedConn δ κ ν η) (s : State τ δ κ) : Event τ δ κ → State τ δ κ → Prop where
  | get {t : τ} {k : κ} {index failed : Bool} (hpc : s.pc t = .idle) :
      Does c s (.get t k index failed)
        (s.goto t (if failed then .idle else c.fetched k index ((s.redis k).getD [])))
  | purge {t : τ} {k : κ} {index applied : Bool} (hpc : s.pc t = .purging k index) :
      Does c s (.purge t k applied) ((s.erase [k] applied).goto t (.querying k index))
  | fail {t : τ} {k : κ} {index : Bool} (hpc : s.pc t = .querying k index) :
      Does c s (.query t k true) (s.goto t .idle)
  | answer {t : τ} {k : κ} {index : Bool} {p : Pc κ} (hpc : s.pc t = .querying k index)
      (hp : c.queried s.db k index = some p) :
      Does c s (.query t k false) (s.goto t p)
  | place {t : τ} {k : κ} {applied : Bool} (hpc : s.pc t = .placing k) :
      Does c s (.place t k applied)
        ((s.put k notFoundPlaceholder (applied && (s.redis k).isNone)).goto t .idle)
  | set {t : τ} {k : κ} {data : Text} {sets : List (κ × Text)} {applied ok : Bool}
      (hpc : s.pc t = .setting ((k, data) :: sets)) :
      Does c s (.set t k applied ok)
        ((s.put k data applied).goto t (if ok then CachedConn.toSet sets else .idle))
  | exec {t : τ} {db : δ} {keys : List κ} {ok : Bool} (hpc : s.pc t = .idle) :
      Does c s (.exec t db keys ok)
        (({ s with db := db } : State τ δ κ).goto t (if ok then State.toDelete (c.batches keys) else .idle))
  | del {t : τ} {keys : List κ} {batches : List (List κ)} {applied ok : Bool}
      (hpc : s.pc t = .deleting (keys :: batches)) (hok : ok = true → applied = true) :
      Does c s (.del t keys applied ok)
        { (s.erase keys applied).goto t (State.toDelete batches) with
          tasks := if ok then s.tasks else s.tasks ++ [(1, keys)] }
  | clean {i delay : Nat} {keys : List κ} {applied : Bool} (htask : s.tasks[i]? = some (delay, keys)) (happlied : applied = true) :
      Does c s (.clean i delay keys applied true)
        { s.erase keys applied with tasks := s.tasks.eraseIdx i }
  | again {i delay next : Nat} {keys : List κ} {applied : Bool} (htask : s.tasks[i]? = some (delay, keys))
      (hnext : nextDelay delay = some next) :
      Does c s (.clean i delay keys applied false)
        { s.erase keys applied with tasks := s.tasks.set i (next, keys) }
  | drop {i delay : Nat} {keys : List κ} {applied : Bool} (htask : s.tasks[i]? = some (delay, keys))
      (hnext : nextDelay delay = none) :
      Does c s (.clean i delay keys applied false)
        { s.erase keys applied with tasks := s.tasks.eraseIdx i }
  | expire {k : κ} : Does c s (.expire k) (s.erase [k] true)

theorem does_of_step (h : s.Step c e s') : Does c s e s' := by
  cases e with
  | get t key index failed =>
      simp only [State.Step, State.step] at h
      split at h
      · next hpc => exact Option.some.inj h ▸ .get hpc
      · cases h
  | purge t key applied =>
      simp only [State.Step, State.step] at h
      split at h
      · next key' index hpc =>
          split at h
          · next heq => exact Option.some.inj h ▸ .purge (heq ▸ hpc)
          · cases h
      · cases h
  | query t key failed =>
      simp only [State.Step, State.step] at h
      split at h
      · next key' index hpc =>
          split at h
          · next heq =>
              subst heq
              cases failed with
              | true => exact Option.some.inj h ▸ .fail hpc
              | false =>
                  obtain ⟨p, hp, rfl⟩ := Option.map_eq_some_iff.mp h
                  exact .answer hpc hp
          · cases h
      · cases h
  | place t key applied =>
      simp only [State.Step, State.step] at h
      split at h
      · next key' hpc =>
          split at h
          · next heq => exact Option.some.inj h ▸ .place (heq ▸ hpc)
          · cases h
      · cases h
  | set t key applied ok =>
      simp only [State.Step, State.step] at h
      split at h
      · next key' data sets hpc =>
          split at h
          · next heq => exact Option.some.inj h ▸ .set (heq.1 ▸ hpc)
          · cases h
      · cases h
  | exec t db keys ok =>
      simp only [State.Step, State.step] at h
      split at h
      · next hpc => exact Option.some.inj h ▸ .exec hpc
      · cases h
  | del t keys applied ok =>
      simp only [State.Step, State.step] at h
      split at h
      · next keys' batches hpc =>
          split at h
          · next heq => exact Option.some.inj h ▸ .del (heq.1 ▸ hpc) heq.2
          · cases h
      · cases h
  | clean i delay keys applied ok =>
      simp only [State.Step, State.step] at h
      split at h
      · next heq =>
          cases ok with
          | true => exact Option.some.inj h ▸ .clean heq.1 (heq.2 rfl)
          | false =>
              cases hnext : nextDelay delay with
              | some next =>
                  rw [hnext] at h
                  exact Option.some.inj h ▸ .again heq.1 hnext
              | none =>
                  rw [hnext] at h
                  exact Option.some.inj h ▸ .drop heq.1 hnext
      · cases h
  | expire key => exact Option.some.inj h ▸ .expire

omit [DecidableEq κ] in
theorem goto_self (s : State τ δ κ) (t : τ) (p : Pc κ) : (s.goto t p).pc t = p := Function.update_self _ _ _

omit [DecidableEq κ] in
theorem goto_ne {t r : τ} (h : r ≠ t) (p : Pc κ) : (s.goto t p).pc r = s.pc r := Function.update_of_ne h _ _

omit [DecidableEq τ] in
theorem redis_erase {keys : List κ} {applied : Bool} {data : Text} (h : (s.erase keys applied).redis key = some data) :
    s.redis key = some data ∧ ¬ (applied = true ∧ key ∈ keys) := by
  simp only [State.erase] at h
  split at h
  · cases h
  · next hnot => exact ⟨h, hnot⟩

omit [DecidableEq τ] in
theorem redis_put {data data' : Text} {applied : Bool} (h : (s.put key' data' applied).redis key = some data) :
    s.redis key = some data ∨ key = key' ∧ data = data' := by
  simp only [State.put] at h
  split at h
  · by_cases heq : key = key'
    · rw [heq, Function.update_self] at h
      exact .inr ⟨heq, (Option.some.inj h).symm⟩
    · rw [Function.update_of_ne heq] at h
      exact .inl h
  · exact .inl h

/-! ## The laws -/

/-- The thread begins to read. -/
def Event.begins (r : τ) : Event τ δ κ → Prop
  | .get t _ _ _ => t = r
  | _ => False

/-- A statement that succeeds and names the key. -/
def Event.announces (key : κ) : Event τ δ κ → Prop
  | .exec _ _ keys ok => ok = true ∧ key ∈ keys
  | _ => False

/-- The cleaner gives a deletion of the key up. -/
def Event.drops (key : κ) : Event τ δ κ → Prop
  | .clean _ delay keys _ ok => ok = false ∧ nextDelay delay = none ∧ key ∈ keys
  | _ => False

/-- A deletion of the key is to come: from a thread, or from the cleaner. -/
def State.Owes (key : κ) (s : State τ δ κ) : Prop := (∃ t, (s.pc t).Deletes key) ∨ ∃ task ∈ s.tasks, key ∈ task.2

/-- An entry is there already, or a thread had it to set. -/
theorem entry_step (hstep : Does c s e s') {data : Text} (h : s'.redis key = some data) :
    s.redis key = some data ∨ c.value s'.db key = c.value s.db key ∧ ∃ r, (s.pc r).Loads key data := by
  cases hstep with
  | get hpc => exact .inl h
  | purge hpc => exact .inl (redis_erase h).1
  | fail hpc => exact .inl h
  | answer hpc hp => exact .inl h
  | @place t key' applied hpc =>
      rcases redis_put h with h | ⟨heq, hdata⟩
      · exact .inl h
      · exact .inr ⟨rfl, t, by rw [hpc]; exact ⟨heq.symm, hdata⟩⟩
  | @set t key' data' sets applied ok hpc =>
      rcases redis_put h with h | ⟨heq, hdata⟩
      · exact .inl h
      · exact .inr ⟨rfl, t, by rw [hpc, heq, hdata]; exact List.mem_cons_self⟩
  | exec hpc => exact .inl h
  | del hpc hok => exact .inl (redis_erase h).1
  | clean htask happlied => exact .inl (redis_erase h).1
  | again htask hnext => exact .inl (redis_erase h).1
  | drop htask hnext => exact .inl (redis_erase h).1
  | expire => exact .inl (redis_erase h).1

/-- What a thread has to set, it had already, or its query just found it. -/
theorem loaded_step (hstep : Does c s e s') {r : τ} {data : Text} (h : (s'.pc r).Loads key data) :
    (s.pc r).Loads key data ∧ ¬ e.begins r ∨ Current c (c.value s'.db key) data := by
  -- the threads that do not move
  have hother : ∀ {t : τ} {p : Pc κ} {u : State τ δ κ}, u.pc = s.pc → ((u.goto t p).pc r).Loads key data → r ≠ t →
      (s.pc r).Loads key data := by
    intro t p u hu hl hne
    rw [goto_ne hne, hu] at hl
    exact hl
  cases hstep with
  | @get t key' index failed hpc =>
      by_cases heq : r = t
      · rw [heq, goto_self] at h
        cases failed with
        | true => exact h.elim
        | false => exact absurd h not_loads_fetched
      · exact .inl ⟨hother rfl h heq, fun hb => heq hb.symm⟩
  | @purge t key' index applied hpc =>
      by_cases heq : r = t
      · rw [heq, goto_self] at h
        exact h.elim
      · exact .inl ⟨hother rfl h heq, id⟩
  | @fail t key' index hpc =>
      by_cases heq : r = t
      · rw [heq, goto_self] at h
        exact h.elim
      · exact .inl ⟨hother rfl h heq, id⟩
  | @answer t key' index p hpc hp =>
      by_cases heq : r = t
      · rw [heq, goto_self] at h
        exact .inr (current_of_queried hp h)
      · exact .inl ⟨hother rfl h heq, id⟩
  | @place t key' applied hpc =>
      by_cases heq : r = t
      · rw [heq, goto_self] at h
        exact h.elim
      · exact .inl ⟨hother rfl h heq, id⟩
  | @set t key' data' sets applied ok hpc =>
      by_cases heq : r = t
      · rw [heq, goto_self] at h
        cases ok with
        | false => exact h.elim
        | true =>
            rw [heq, hpc]
            exact .inl ⟨List.mem_cons_of_mem _ (loads_toSet.mp h), id⟩
      · exact .inl ⟨hother rfl h heq, id⟩
  | @exec t db keys ok hpc =>
      by_cases heq : r = t
      · rw [heq, goto_self] at h
        cases ok with
        | false => exact h.elim
        | true =>
            simp only [if_true] at h
            cases hbatches : c.batches keys with
            | nil => rw [hbatches] at h; exact h.elim
            | cons b bs => rw [hbatches] at h; exact h.elim
      · exact .inl ⟨hother rfl h heq, id⟩
  | @del t keys batches applied ok hpc hok =>
      by_cases heq : r = t
      · rw [heq] at h
        have h' : (((s.erase keys applied).goto t (State.toDelete batches)).pc t).Loads key data := h
        rw [goto_self] at h'
        cases batches with
        | nil => exact h'.elim
        | cons b bs => exact h'.elim
      · exact .inl ⟨hother (u := s.erase keys applied) rfl h heq, id⟩
  | clean htask happlied => exact .inl ⟨h, id⟩
  | again htask hnext => exact .inl ⟨h, id⟩
  | drop htask hnext => exact .inl ⟨h, id⟩
  | expire => exact .inl ⟨h, id⟩

omit [DecidableEq κ] in
/-- What stays of the tasks when one of them has run. -/
theorem task_kept {tasks : List (Nat × List κ)} {i : Nat} {ran task : Nat × List κ} (hran : tasks[i]? = some ran)
    (htask : task ∈ tasks) (hne : task ≠ ran) : task ∈ tasks.eraseIdx i ∧ ∀ task', task ∈ tasks.set i task' := by
  obtain ⟨j, hj⟩ := List.mem_iff_getElem?.mp htask
  have hji : j ≠ i := fun heq => by
    rw [heq, hran] at hj
    exact hne (Option.some.inj hj).symm
  refine ⟨List.mem_eraseIdx_iff_getElem?.mpr ⟨j, hji, hj⟩, fun task' => List.mem_iff_getElem?.mpr ⟨j, ?_⟩⟩
  rw [List.getElem?_set_ne hji.symm, hj]

omit [DecidableEq τ] in
theorem not_erased {keys : List κ} {applied : Bool} (h : (s.erase keys applied).redis key ≠ none) :
    applied = true → key ∉ keys := by
  intro happlied hkey
  obtain ⟨data, hdata⟩ := Option.ne_none_iff_exists'.mp h
  exact (redis_erase hdata).2 ⟨happlied, hkey⟩

/-- A deletion to come stays so, until it takes effect or is given up. -/
theorem owed_step (hstep : Does c s e s') (h : s.Owes key) (hentry : s'.redis key ≠ none) :
    s'.Owes key ∨ e.drops key := by
  rcases h with ⟨r, hr⟩ | ⟨task, htask, hkey⟩
  · -- a thread is in `DelCtx`
    have hmove : ∀ {t : τ} {p : Pc κ} {u : State τ δ κ}, u.pc = s.pc → r ≠ t → (u.goto t p).Owes key := by
      intro t p u hu hne
      refine .inl ⟨r, ?_⟩
      rw [goto_ne hne, hu]
      exact hr
    have hne : ∀ {t : τ}, ¬ (s.pc t).Deletes key → r ≠ t := fun hnot heq => hnot (heq ▸ hr)
    cases hstep with
    | get hpc => exact .inl (hmove rfl (hne (by rw [hpc]; exact id)))
    | purge hpc => exact .inl (hmove rfl (hne (by rw [hpc]; exact id)))
    | fail hpc => exact .inl (hmove rfl (hne (by rw [hpc]; exact id)))
    | answer hpc hp => exact .inl (hmove rfl (hne (by rw [hpc]; exact id)))
    | place hpc => exact .inl (hmove rfl (hne (by rw [hpc]; exact id)))
    | set hpc => exact .inl (hmove rfl (hne (by rw [hpc]; exact id)))
    | exec hpc => exact .inl (hmove rfl (hne (by rw [hpc]; exact id)))
    | @del t keys batches applied ok hpc hok =>
        by_cases heq : r = t
        · rw [heq, hpc] at hr
          obtain ⟨b, hb, hkey⟩ := hr
          rcases List.mem_cons.mp hb with rfl | hb
          · -- this deletion has not taken effect: it is the cleaner's now
            cases ok with
            | true => exact absurd hkey (not_erased hentry (hok rfl))
            | false => exact .inl (.inr ⟨(1, b), List.mem_append_right _ (List.mem_singleton_self _), hkey⟩)
          · refine .inl (.inl ⟨t, ?_⟩)
            show (((s.erase keys applied).goto t (State.toDelete batches)).pc t).Deletes key
            rw [goto_self, deletes_toDelete]
            exact ⟨b, hb, hkey⟩
        · refine .inl (.inl ⟨r, ?_⟩)
          show (((s.erase keys applied).goto t (State.toDelete batches)).pc r).Deletes key
          rw [goto_ne heq]
          exact hr
    | clean htask happlied => exact .inl (.inl ⟨r, hr⟩)
    | again htask hnext => exact .inl (.inl ⟨r, hr⟩)
    | drop htask hnext => exact .inl (.inl ⟨r, hr⟩)
    | expire => exact .inl (.inl ⟨r, hr⟩)
  · -- the cleaner has a task
    cases hstep with
    | get hpc => exact .inl (.inr ⟨task, htask, hkey⟩)
    | purge hpc => exact .inl (.inr ⟨task, htask, hkey⟩)
    | fail hpc => exact .inl (.inr ⟨task, htask, hkey⟩)
    | answer hpc hp => exact .inl (.inr ⟨task, htask, hkey⟩)
    | place hpc => exact .inl (.inr ⟨task, htask, hkey⟩)
    | set hpc => exact .inl (.inr ⟨task, htask, hkey⟩)
    | exec hpc => exact .inl (.inr ⟨task, htask, hkey⟩)
    | @del t keys batches applied ok hpc hok =>
        refine .inl (.inr ⟨task, ?_, hkey⟩)
        cases ok with
        | true => exact htask
        | false => exact List.mem_append_left _ htask
    | @clean i delay keys applied hran happlied =>
        have hne : task ≠ (delay, keys) := fun heq => by
          rw [heq] at hkey
          exact not_erased hentry happlied hkey
        exact .inl (.inr ⟨task, (task_kept hran htask hne).1, hkey⟩)
    | @again i delay next keys applied hran hnext =>
        by_cases heq : task = (delay, keys)
        · obtain ⟨hlt, -⟩ := List.getElem?_eq_some_iff.mp hran
          rw [heq] at hkey
          exact .inl (.inr ⟨(next, keys), List.mem_set hlt _, hkey⟩)
        · exact .inl (.inr ⟨task, (task_kept hran htask heq).2 _, hkey⟩)
    | @drop i delay keys applied hran hnext =>
        by_cases heq : task = (delay, keys)
        · rw [heq] at hkey
          exact .inr ⟨rfl, hnext, hkey⟩
        · exact .inl (.inr ⟨task, (task_kept hran htask heq).1, hkey⟩)
    | expire => exact .inl (.inr ⟨task, htask, hkey⟩)

/-- Only a statement changes what a query finds, and if it announces so, its thread goes to `DelCtx`. -/
theorem write_step (hstep : Does c s e s') (hne : c.value s'.db key ≠ c.value s.db key) (hann : e.announces key) :
    s'.Owes key := by
  cases hstep with
  | @exec t db keys ok hpc =>
      obtain ⟨rfl, hkey⟩ := hann
      refine .inl ⟨t, ?_⟩
      rw [goto_self, if_pos rfl, deletes_toDelete]
      exact mem_batches hkey
  | get hpc => exact absurd rfl hne
  | purge hpc => exact absurd rfl hne
  | fail hpc => exact absurd rfl hne
  | answer hpc hp => exact absurd rfl hne
  | place hpc => exact absurd rfl hne
  | set hpc => exact absurd rfl hne
  | del hpc hok => exact absurd rfl hne
  | clean htask happlied => exact absurd rfl hne
  | again htask hnext => exact absurd rfl hne
  | drop htask hnext => exact absurd rfl hne
  | expire => exact absurd rfl hne

/-! ## Stale entries -/

/-- A key, with its entry in redis, is a cache beside the database. -/
def aside (c : CachedConn δ κ ν η) (key : κ) : CacheAside (State τ δ κ) (Event τ δ κ) τ (Option ν) Text where
  Step := State.Step c
  value s := c.value s.db key
  entry s := s.redis key
  Current := Current c
  Loaded s r data := (s.pc r).Loads key data
  Owed := State.Owes key
  Begins := Event.begins
  Announces := Event.announces key
  Drops := Event.drops key
  entry_step h hentry := entry_step (does_of_step h) hentry
  loaded_step h hloaded := loaded_step (does_of_step h) hloaded
  owed_step h howes hentry := owed_step (does_of_step h) howes hentry
  write_step h hne hann := write_step (does_of_step h) hne hann

/-- **Why a cached row is stale.** In every run of any number of readers and writers, with commands and statements that
    fail before or after they took effect: where redis has an entry that is not what its query would find, the last
    statement that changed it did not name its key or failed, or the deletion is still to come or was given up, or a
    thread that had queried before that statement set the entry after it. -/
theorem stale_entry {db : δ} {ls : List (Event τ δ κ)} {data : Text} (h : Run (State.Step c) (State.init db) ls s)
    (hentry : s.redis key = some data) (hstale : ¬ Current c (c.value s.db key) data) :
    ∃ u e u' post, (aside c key).LastChange (State.init db) ls s u e u' post ∧
      (aside c key).Cause data u e u' post s :=
  (aside c key).stale rfl (fun _ _ hloads => hloads) h hentry hstale

end Steps

/-- One row, which is a number, under every key. -/
def oneRow : CachedConn (Option Nat) Nat Nat Nat where
  value db _ := db
  keyer _ := 0
  marshal v := some (Nat.toDigits 10 v)
  unmarshal _ := some 0
  nodes := 1
  dispatcher _ := 0
  single := 0
  nodeType _ := .node
  order := .listed

/-- A reader that is overtaken by a writer. -/
def overtaking : List (Event Nat (Option Nat) Nat) :=
  [.get 0 7 false false, .query 0 7 false, .exec 1 (some 2) [7] true, .del 1 [7] true true, .set 0 7 true true]

theorem stale_entry_overtaken :
    ∃ s : State Nat (Option Nat) Nat, follow (State.step oneRow) (State.init (some 1)) overtaking = some s ∧
      s.redis 7 = some (Nat.toDigits 10 1) ∧
      ∃ u e u' post, (aside oneRow 7).LastChange (State.init (some 1)) overtaking s u e u' post ∧
        (aside oneRow 7).Cause (Nat.toDigits 10 1) u e u' post s := by
  refine ⟨_, rfl, rfl, stale_entry (run_of_follow (show follow _ _ overtaking = some _ from rfl)) rfl ?_⟩
  show ¬ some (Nat.toDigits 10 2) = some (Nat.toDigits 10 1)
  decide

end Sqlc
end ServiceKit
