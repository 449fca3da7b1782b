import ServiceKit.Collection.Correctness.Wheel

/-!
# `Collection.Correctness.Timers` — a timing wheel counts ticks

The wheel is a set of timers that count ticks (`Lib.Countdown`): `step_simulates` says which act each turn of its loop
is, `wheel_simulates` lifts it to runs. A key that is set anew is executed on time (`set_fires_on_time`). A key that
is set again or moved keeps its entry where it waits, and the way on from there is reckoned without regard to the
hand: `aim` says when it is executed, `moved_on_time` when that is on time. What `Drain` executes stays in
`timers`, and is set in vain afterwards (`set_after_drain`).
-/

namespace ServiceKit
namespace Collection
namespace TimingWheel

open Lib Countdown

variable {n : Nat} [NeZero n] {κ ν : Type} [DecidableEq κ] {w : TimingWheel n κ ν} {k : κ} {v : ν}
  {t : PositionEntry n} {e : TimingEntry n κ ν}

/-! ## When an entry that is moved is executed -/

/-- The slot that is `s` ticks away. -/
def target (T : Fin n) (s : Nat) : Fin n := Fin.ofNat n (T.val + s)

/-- The circles and the way to the slot make up the ticks. -/
theorem circle_add_away (T : Fin n) {s : Nat} (hs : 0 < s) : (s - 1) / n * n + away T (target T s) = s := by
  have hT := T.isLt
  have hdiv := Nat.div_add_mod (s - 1) n
  have hmod := Nat.mod_lt (s - 1) (Nat.pos_of_neZero n)
  have hval : (target T s).val = if T.val + (s - 1) % n + 1 < n then T.val + (s - 1) % n + 1 else
      T.val + (s - 1) % n + 1 - n := by
    have hsum : T.val + s = T.val + (s - 1) % n + 1 + n * ((s - 1) / n) := by omega
    rw [target, Fin.val_ofNat, hsum, Nat.add_mul_mod_self_left]
    split
    · next h => exact Nat.mod_eq_of_lt h
    · rw [Nat.mod_eq_sub_mod (by omega)]
      exact Nat.mod_eq_of_lt (by omega)
  rw [Nat.mul_comm]
  unfold away
  rw [hval]
  split_ifs <;> omega

/-- The ticks after which an entry that waits in slot `p` is executed, when it is moved by `s` ticks. It is a circle
    late where the hand has passed `p` and not yet the slot to reach, and a circle early the other way round. -/
def aim (T p : Fin n) (s : Nat) : Nat :=
  if p.val ≤ (target T s).val then
    if p.val ≤ T.val ∧ T.val < (target T s).val then s + n else s
  else if n < s ∧ (target T s).val ≤ T.val ∧ T.val < p.val then s - n else s

theorem circle_pos_iff {s : Nat} (hs : 0 < s) : 0 < (s - 1) / n ↔ n < s := by
  rw [Nat.div_pos_iff]
  have hn := Nat.pos_of_neZero n
  omega

/-- A slot to reach that comes after the slot of the entry. -/
theorem aim_of_le {T p : Fin n} {s : Nat} (hs : 0 < s) (hle : p.val ≤ (target T s).val) :
    away T p + (s - 1) / n * n + ((target T s).val - p.val) = aim T p s := by
  have hsum := circle_add_away T hs
  have hT := T.isLt
  have hp := p.isLt
  rw [aim, if_pos hle]
  unfold away at hsum ⊢
  split_ifs at hsum ⊢ <;> omega

/-- A slot to reach that comes before it, with a circle to go. -/
theorem aim_of_lt {T p : Fin n} {s : Nat} (hs : 0 < s) (hlt : (target T s).val < p.val) (hcircle : 0 < (s - 1) / n) :
    away T p + ((s - 1) / n - 1) * n + (n + (target T s).val - p.val) = aim T p s := by
  have hsum := circle_add_away T hs
  have hT := T.isLt
  have hp := p.isLt
  have hmore := (circle_pos_iff hs).mp hcircle
  obtain ⟨c, hc⟩ := Nat.exists_eq_succ_of_ne_zero (Nat.pos_iff_ne_zero.mp hcircle)
  rw [hc, Nat.succ_mul] at hsum
  rw [aim, if_neg (Nat.not_le.mpr hlt), hc, Nat.succ_sub_one]
  unfold away at hsum ⊢
  split_ifs at hsum ⊢ <;> omega

/-- A slot to reach that comes before it, on this circle. -/
theorem aim_of_near {T p : Fin n} {s : Nat} (hlt : (target T s).val < p.val) (hnear : s ≤ n) : aim T p s = s := by
  rw [aim, if_neg (Nat.not_le.mpr hlt), if_neg fun hc => absurd hc.1 (Nat.not_lt.mpr hnear)]

/-- The ticks left of the timer of `k` when it is moved by `s` ticks; an entry in no slot stays there, but where a new
    one is made. -/
def aimed (w : TimingWheel n κ ν) (t : PositionEntry n) (s : Nat) : Option Nat :=
  if t.item ∈ w.slots t.pos then some (aim w.tickedPos t.pos s)
  else if (target w.tickedPos s).val < t.pos.val ∧ s ≤ n then some s else none

omit [NeZero n] in
/-- A new entry for a key that has none. -/
theorem Vacant.put (h : w.Vacant k) (pos : Fin n) (hkey : e.key = k) (hlive : e.removed = false) :
    ((w.alloc e).file pos w.items.length).WF ∧
      ((w.alloc e).file pos w.items.length).view =
        Function.update w.view k (some ⟨e.value, some (away w.tickedPos pos + e.circle * n + e.diff.val)⟩) := by
  subst hkey
  have he : (w.alloc e).items[w.items.length]? = some e := List.getElem?_concat_length
  have hnew : ∀ p, w.items.length ∉ (w.alloc e).slots p := fun p hp => by
    obtain ⟨e', he', -⟩ := h.listed hp
    exact lt_irrefl _ (List.getElem?_eq_some_iff.mp he').1
  have hother : ∀ k' t', k' ≠ e.key → (w.alloc e).timers.lookup k' = some t' → t'.item ≠ w.items.length := by
    intro k' t' hne ht' heq
    obtain ⟨e', he', -⟩ := h.named hne ht'
    rw [heq] at he'
    exact lt_irrefl _ (List.getElem?_eq_some_iff.mp he').1
  refine ⟨(h.alloc e).file pos he hlive hnew, ?_⟩
  rw [view, viewDuring_file he hother List.not_mem_nil]
  refine funext fun k' => ?_
  by_cases hne : k' = e.key
  · rw [hne, Function.update_self, Function.update_self]
    rfl
  · rw [Function.update_of_ne hne, Function.update_of_ne hne]
    refine viewDuring_congr rfl rfl fun t ht => ⟨?_, Iff.rfl, Iff.rfl⟩
    obtain ⟨e', he', -⟩ := h.named hne ht
    exact List.getElem?_append_left (List.getElem?_eq_some_iff.mp he').1

omit [NeZero n] in
/-- The mark on the entry of one key is not seen by the others. -/
theorem WF.update_mark (h : w.WF) (hk : w.timers.lookup k = some t) (x : Option (Timer ν)) :
    Function.update (w.mark t.item).view k x = Function.update w.view k x := by
  obtain ⟨e, he, -, -⟩ := h.named hk
  rw [view, mark, h.viewDuring_modifyItem hk he, Function.update_idem]
  rfl

/-- `moveTask`, for a delay of one tick or more: nothing is executed, and the ticks left are those of `aimed`. -/
theorem moveTask_spec (h : w.WF) (hk : w.timers.lookup k = some t) (he : w.items[t.item]? = some e) {delay : Nat}
    (hdelay : w.interval ≤ delay) :
    (w.moveTask k delay).1 = [] ∧ (w.moveTask k delay).2.WF ∧ (w.moveTask k delay).2.interval = w.interval ∧
      (w.moveTask k delay).2.view =
        Function.update w.view k (some ⟨e.value, w.aimed t (w.steps delay)⟩) := by
  have hs : 0 < w.steps delay := Nat.div_pos hdelay w.interval_pos
  have hpos : (w.getPositionAndCircle delay).1 = target w.tickedPos (w.steps delay) := rfl
  have hcircle : (w.getPositionAndCircle delay).2 = (w.steps delay - 1) / n := rfl
  simp only [moveTask, hk, he, if_neg (Nat.not_lt.mpr hdelay), hpos, hcircle]
  by_cases hle : t.pos ≤ target w.tickedPos (w.steps delay)
  · -- the slot to reach comes after the slot of the entry
    rw [dif_pos hle]
    refine ⟨rfl, h.modifyItem _ _ (fun _ => rfl) (fun _ => rfl), rfl, ?_⟩
    rw [view, h.viewDuring_modifyItem hk he, aimed]
    by_cases hin : t.item ∈ w.slots t.pos
    · rw [ticksLeft_of_mem hin, if_pos hin, ← aim_of_le hs hle, if_neg List.not_mem_nil]
      rfl
    · rw [ticksLeft_of_not_mem hin, if_neg hin, if_neg fun hc => absurd hle (Nat.not_le.mpr hc.1)]
      rfl
  · have hlt : (target w.tickedPos (w.steps delay)).val < t.pos.val := Nat.lt_of_not_le hle
    rw [dif_neg hle]
    by_cases hpositive : 0 < (w.steps delay - 1) / n
    · rw [if_pos hpositive]
      refine ⟨rfl, h.modifyItem _ _ (fun _ => rfl) (fun _ => rfl), rfl, ?_⟩
      rw [view, h.viewDuring_modifyItem hk he, aimed]
      by_cases hin : t.item ∈ w.slots t.pos
      · rw [ticksLeft_of_mem hin, if_pos hin, ← aim_of_lt hs hlt hpositive, if_neg List.not_mem_nil]
        rfl
      · have hmore := (circle_pos_iff hs).mp hpositive
        rw [ticksLeft_of_not_mem hin, if_neg hin, if_neg fun hc => absurd hc.2 (Nat.not_le.mpr hmore)]
        rfl
    · -- a new entry takes the place of the old one
      rw [if_neg hpositive]
      have hnear : w.steps delay ≤ n := Nat.not_lt.mp fun hc => hpositive ((circle_pos_iff hs).mpr hc)
      have hcount : w.aimed t (w.steps delay) = some (away w.tickedPos (target w.tickedPos (w.steps delay))) := by
        have hsum := circle_add_away w.tickedPos hs
        rw [Nat.eq_zero_of_not_pos hpositive, Nat.zero_mul, Nat.zero_add] at hsum
        rw [hsum, aimed, aim_of_near hlt hnear, if_pos (And.intro hlt hnear), ite_self]
      obtain ⟨hwf, hview⟩ := (h.vacant_mark hk).put (e := ⟨k, e.value, 0, 0, false⟩)
        (target w.tickedPos (w.steps delay)) rfl rfl
      have hlength : (w.mark t.item).items.length = w.items.length := List.length_modify _ _ _
      rw [hlength] at hwf hview
      refine ⟨rfl, hwf, (file_frame _ _).2.2.2, hview.trans ?_⟩
      rw [h.update_mark hk, hcount, Nat.zero_mul]
      rfl

/-! ## The other operations -/

/-- The ticks that `SetTimer` asks for: one at least. -/
def due (w : TimingWheel n κ ν) (delay : Nat) : Nat := w.steps (if delay < w.interval then w.interval else delay)

omit [NeZero n] [DecidableEq κ] in
theorem due_eq (delay : Nat) : w.due delay = max 1 (delay / w.interval) := by
  have hpos := w.interval_pos
  rw [due, steps]
  split
  · next hlt => rw [Nat.div_self hpos, Nat.div_eq_of_lt hlt, Nat.max_eq_left (Nat.zero_le 1)]
  · next hge => rw [Nat.max_eq_right (Nat.div_pos (Nat.not_lt.mp hge) hpos)]

omit [NeZero n] [DecidableEq κ] in
theorem due_pos (delay : Nat) : 0 < w.due delay := by
  rw [due_eq]
  exact Nat.lt_of_lt_of_le Nat.zero_lt_one (Nat.le_max_left _ _)

/-- `setTask`, for a key that has no timer -/
theorem setTask_new (h : w.WF) (hk : w.timers.lookup k = none) (v : ν) (delay : Nat) :
    (w.setTask k v delay).1 = [] ∧ (w.setTask k v delay).2.WF ∧ (w.setTask k v delay).2.interval = w.interval ∧
      (w.setTask k v delay).2.view = Function.update w.view k (some ⟨v, some (w.due delay)⟩) := by
  have hsum := circle_add_away w.tickedPos (w.due_pos delay)
  obtain ⟨hwf, hview⟩ := (h.vacant hk).put (e := ⟨k, v, (w.due delay - 1) / n, 0, false⟩)
    (target w.tickedPos (w.due delay)) rfl rfl
  simp only [setTask, hk]
  refine ⟨trivial, hwf, (file_frame _ _).2.2.2, hview.trans ?_⟩
  simp only [Fin.val_zero, Nat.add_zero, Nat.add_comm (away _ _), hsum]

/-- `setTask`, for a key that has one -/
theorem setTask_again (h : w.WF) (hk : w.timers.lookup k = some t) (v : ν) (delay : Nat) :
    (w.setTask k v delay).1 = [] ∧ (w.setTask k v delay).2.WF ∧ (w.setTask k v delay).2.interval = w.interval ∧
      (w.setTask k v delay).2.view = Function.update w.view k (some ⟨v, w.aimed t (w.due delay)⟩) := by
  obtain ⟨e, he, -, -⟩ := h.named hk
  have hvalued := h.modifyItem t.item (fun e => { e with value := v }) (fun _ => rfl) (fun _ => rfl)
  have hdelay : w.interval ≤ if delay < w.interval then w.interval else delay := by
    split <;> omega
  obtain ⟨htasks, hwf, hinterval, hview⟩ := moveTask_spec hvalued hk
    (getElem?_modifyItem_self (fun e => { e with value := v }) he) hdelay
  simp only [setTask, hk]
  refine ⟨htasks, hwf, hinterval, hview.trans ?_⟩
  rw [view, h.viewDuring_modifyItem hk he, Function.update_idem]
  rfl

omit [NeZero n] in
theorem removeTask_spec (h : w.WF) (k : κ) :
    (w.removeTask k).WF ∧ (w.removeTask k).interval = w.interval ∧
      (w.removeTask k).view = Function.update w.view k none := by
  rw [removeTask]
  cases hk : w.timers.lookup k with
  | none => exact ⟨h, rfl, (Function.update_eq_self_iff.mpr (viewDuring_none hk).symm).symm⟩
  | some t =>
      refine ⟨(h.vacant_mark hk).delTimer, rfl, ?_⟩
      show ((w.mark t.item).delTimer k).view = _
      rw [view, viewDuring_delTimer]
      exact h.update_mark hk none

/-- The addresses that the slots list. -/
def addrs (w : TimingWheel n κ ν) : List Addr := (List.finRange n).flatMap w.slots

omit [NeZero n] in
theorem WF.nodup_addrs (h : w.WF) : w.addrs.Nodup := by
  refine List.nodup_flatMap.mpr ⟨fun p _ => h.nodup p, (List.nodup_finRange n).imp fun hne => ?_⟩
  exact fun a ha hb => hne (h.apart ha hb)

omit [NeZero n] [DecidableEq κ] in
theorem drainAll_eq : w.drainAll.1 = w.addrs.filterMap w.drained := by
  rw [drainAll, addrs, List.filterMap_flatMap]

omit [NeZero n] in
/-- The entries that `drainAll` comes to are those that `timers` names in their slot. -/
theorem drained_some (h : w.WF) {p : Fin n} {a : Addr} (ha : a ∈ w.slots p) {task : TimingTask κ ν} :
    w.drained a = some task ↔
      w.timers.lookup task.key = some ⟨p, a⟩ ∧ ∃ e, w.items[a]? = some e ∧ e.value = task.value := by
  obtain ⟨e, he, hnamed⟩ := h.listed ha
  simp only [drained, he]
  constructor
  · intro htask
    split at htask
    · cases htask
    · next hr =>
        obtain rfl := Option.some.inj htask
        exact ⟨hnamed (Bool.eq_false_of_not_eq_true hr), e, rfl, rfl⟩
  · rintro ⟨hk, e', he', hvalue⟩
    obtain rfl := Option.some.inj he'
    obtain ⟨e', he', hkey, hlive⟩ := h.named hk
    obtain rfl : e = e' := Option.some.inj (he.symm.trans he')
    rw [if_neg (by simp [hlive]), hkey, hvalue]

omit [NeZero n] in
theorem mem_drainAll (h : w.WF) {task : TimingTask κ ν} :
    task ∈ w.drainAll.1 ↔ ∃ t e, w.timers.lookup task.key = some t ∧ w.items[t.item]? = some e ∧
      t.item ∈ w.slots t.pos ∧ e.value = task.value := by
  rw [drainAll_eq, List.mem_filterMap]
  constructor
  · rintro ⟨a, ha, htask⟩
    obtain ⟨p, -, ha⟩ := List.mem_flatMap.mp ha
    obtain ⟨hk, e, he, hvalue⟩ := (drained_some h ha).mp htask
    exact ⟨⟨p, a⟩, e, hk, he, ha, hvalue⟩
  · rintro ⟨t, e, hk, he, ht, hvalue⟩
    exact ⟨t.item, List.mem_flatMap.mpr ⟨t.pos, List.mem_finRange t.pos, ht⟩,
      (drained_some h ht).mpr ⟨hk, e, he, hvalue⟩⟩

omit [NeZero n] in
theorem nodup_drainAll (h : w.WF) : (w.drainAll.1.map TimingTask.key).Nodup := by
  rw [drainAll_eq, List.Nodup, List.pairwise_map, List.pairwise_filterMap]
  refine h.nodup_addrs.imp_of_mem fun {a b} ha hb hne x hx y hy hkey => hne ?_
  obtain ⟨p, -, ha⟩ := List.mem_flatMap.mp ha
  obtain ⟨q, -, hb⟩ := List.mem_flatMap.mp hb
  have hka := ((drained_some h ha).mp hx).1
  have hkb := ((drained_some h hb).mp hy).1
  rw [hkey, hkb] at hka
  exact (congrArg PositionEntry.item (Option.some.inj hka)).symm

omit [NeZero n] in
/-- `drainAll` executes the timers that count, each once, and none of them counts on. -/
theorem drainAll_spec (h : w.WF) :
    w.drainAll.2.WF ∧ w.drainAll.2.interval = w.interval ∧ (w.drainAll.1.map TimingTask.key).Nodup ∧
      (∀ k v, ⟨k, v⟩ ∈ w.drainAll.1 ↔ ∃ d, w.view k = some ⟨v, some d⟩) ∧
      w.drainAll.2.view = strand w.view := by
  refine ⟨⟨fun p => List.nodup_nil, fun ha => absurd ha List.not_mem_nil, fun ha => absurd ha List.not_mem_nil,
    h.named⟩, rfl, nodup_drainAll h, fun k v => (mem_drainAll h).trans ?_, funext fun k => ?_⟩
  · constructor
    · rintro ⟨t, e, hk, he, ht, rfl⟩
      exact ⟨_, by rw [view, viewDuring_some hk he, ticksLeft_of_mem ht]⟩
    · rintro ⟨d, hd⟩
      cases hk : w.timers.lookup k with
      | none => exact absurd ((viewDuring_none hk).symm.trans hd) (Option.some_ne_none _).symm
      | some t =>
          obtain ⟨e, he, -, -⟩ := h.named hk
          rw [view, viewDuring_some hk he] at hd
          injection hd with hd
          injection hd with hvalue hleft
          refine ⟨t, e, rfl, he, ?_, hvalue⟩
          by_contra ht
          rw [ticksLeft_of_not_mem ht] at hleft
          cases hleft
  · rw [strand]
    cases hk : w.timers.lookup k with
    | none => rw [view, view, viewDuring_none hk, viewDuring_none (w := w.drainAll.2) hk, Option.map_none]
    | some t =>
        obtain ⟨e, he, -, -⟩ := h.named hk
        rw [view, view, viewDuring_some hk he, viewDuring_some (w := w.drainAll.2) hk he, Option.map_some,
          ticksLeft_of_not_mem List.not_mem_nil]

/-! ## The wheel as a set of timers -/

/-- What an event does to the timers. -/
def act (w : TimingWheel n κ ν) : Event κ ν → Act κ ν
  | .tick => .tick
  | .setTimer (some k) v delay =>
      if delay ≤ 0 then .idle
      else
        match w.timers.lookup k with
        | none => .arm k ⟨v, some (w.due delay.toNat)⟩
        | some t => .arm k ⟨v, w.aimed t (w.due delay.toNat)⟩
  | .moveTimer (some k) delay =>
      if delay ≤ 0 then .idle
      else
        match w.timers.lookup k, w.view k with
        | some t, some x =>
            if delay.toNat < w.interval then .call k else .arm k ⟨x.value, w.aimed t (w.steps delay.toNat)⟩
        | _, _ => .idle
  | .removeTimer (some k) => .disarm k
  | .drain => .strand
  | _ => .idle

/-- A task as the timers know it. -/
def pair (task : TimingTask κ ν) : κ × ν := (task.key, task.value)

/-- The acts of a run of the loop, with the tasks they execute. -/
def acts (w : TimingWheel n κ ν) : List (Event κ ν) → List (Act κ ν × List (κ × ν))
  | [] => []
  | event :: events =>
      match w.step event with
      | .error _ => (.idle, []) :: w.acts events
      | .ok (tasks, w') => (w.act event, tasks.map pair) :: w'.acts events

omit [NeZero n] [DecidableEq κ] in
theorem map_fst_pair (tasks : List (TimingTask κ ν)) : (tasks.map pair).map Prod.fst = tasks.map TimingTask.key := by
  rw [List.map_map]
  rfl

omit [NeZero n] [DecidableEq κ] in
theorem mem_map_pair {tasks : List (TimingTask κ ν)} : (k, v) ∈ tasks.map pair ↔ ⟨k, v⟩ ∈ tasks := by
  constructor
  · intro h
    obtain ⟨task, htask, heq⟩ := List.mem_map.mp h
    obtain ⟨rfl, rfl⟩ := Prod.mk.inj heq
    exact htask
  · exact fun h => List.mem_map.mpr ⟨⟨k, v⟩, h, rfl⟩

/-- **One turn of the loop** is one act on the timers, that executes the same tasks. -/
theorem step_simulates (h : w.WF) {event : Event κ ν} {tasks : List (TimingTask κ ν)} {w' : TimingWheel n κ ν}
    (hstep : w.step event = .ok (tasks, w')) :
    w'.WF ∧ w'.interval = w.interval ∧ Step w.view (w.act event, tasks.map pair) w'.view := by
  cases event with
  | tick =>
      obtain ⟨rfl, rfl⟩ := ok_pair_inj hstep
      obtain ⟨hwf, hinterval, hnodup, hmem, hview⟩ := onTick_spec h
      refine ⟨hwf, hinterval, hview ▸ .tick (map_fst_pair _ ▸ hnodup) fun k v => mem_map_pair.trans (hmem k v)⟩
  | setTimer key v delay =>
      cases key with
      | none => cases hstep
      | some k =>
          simp only [step] at hstep
          split at hstep
          · cases hstep
          · next hdelay =>
              have hres := Except.ok.inj hstep
              simp only [act, if_neg hdelay]
              cases hk : w.timers.lookup k with
              | none =>
                  obtain ⟨hnil, hwf, hinterval, hview⟩ := setTask_new h hk v delay.toNat
                  rw [hres] at hnil hwf hinterval hview
                  simp only at hnil
                  subst hnil
                  exact ⟨hwf, hinterval, hview ▸ .arm⟩
              | some t =>
                  obtain ⟨hnil, hwf, hinterval, hview⟩ := setTask_again h hk v delay.toNat
                  rw [hres] at hnil hwf hinterval hview
                  simp only at hnil
                  subst hnil
                  exact ⟨hwf, hinterval, hview ▸ .arm⟩
  | moveTimer key delay =>
      cases key with
      | none => cases hstep
      | some k =>
          simp only [step] at hstep
          split at hstep
          · cases hstep
          · next hdelay =>
              have hres := Except.ok.inj hstep
              simp only [act, if_neg hdelay]
              cases hk : w.timers.lookup k with
              | none =>
                  simp only [moveTask, hk] at hres
                  obtain ⟨rfl, rfl⟩ := Prod.mk.inj hres
                  exact ⟨h, rfl, .idle⟩
              | some t =>
                  obtain ⟨e, he, hkey, -⟩ := h.named hk
                  have hx : w.view k = some ⟨e.value, w.ticksLeft [] t e⟩ := viewDuring_some hk he
                  simp only [hx]
                  by_cases hnow : delay.toNat < w.interval
                  · simp only [moveTask, hk, he, if_pos hnow] at hres
                    obtain ⟨rfl, rfl⟩ := Prod.mk.inj hres
                    rw [if_pos hnow, hkey.symm]
                    exact ⟨h, rfl, .call (hkey ▸ hx)⟩
                  · obtain ⟨hnil, hwf, hinterval, hview⟩ := moveTask_spec h hk he (Nat.not_lt.mp hnow)
                    rw [hres] at hnil hwf hinterval hview
                    rw [if_neg hnow]
                    simp only at hnil
                    subst hnil
                    exact ⟨hwf, hinterval, hview ▸ .arm⟩
  | removeTimer key =>
      cases key with
      | none => cases hstep
      | some k =>
          obtain ⟨rfl, rfl⟩ := ok_pair_inj hstep
          obtain ⟨hwf, hinterval, hview⟩ := removeTask_spec h k
          exact ⟨hwf, hinterval, hview ▸ .disarm⟩
  | drain =>
      obtain ⟨rfl, rfl⟩ := ok_pair_inj hstep
      obtain ⟨hwf, hinterval, hnodup, hmem, hview⟩ := drainAll_spec h
      refine ⟨hwf, hinterval, hview ▸ .strand (map_fst_pair _ ▸ hnodup) fun k v => mem_map_pair.trans (hmem k v)⟩

theorem run_spec (h : w.WF) (events : List (Event κ ν)) :
    (w.run events).2.WF ∧ (w.run events).2.interval = w.interval ∧
      Run Step w.view (w.acts events) (w.run events).2.view ∧
      (w.acts events).flatMap Prod.snd = (w.run events).1.map pair := by
  induction events generalizing w with
  | nil => exact ⟨h, rfl, .nil, rfl⟩
  | cons event events ih =>
      rw [run, acts]
      cases hres : w.step event with
      | error err =>
          obtain ⟨hwf, hinterval, hrun, htasks⟩ := ih h
          exact ⟨hwf, hinterval, .cons .idle hrun, htasks⟩
      | ok r =>
          obtain ⟨hwf₁, hinterval₁, hstep⟩ := step_simulates h hres
          obtain ⟨hwf, hinterval, hrun, htasks⟩ := ih hwf₁
          refine ⟨hwf, hinterval.trans hinterval₁, .cons hstep hrun, ?_⟩
          rw [List.flatMap_cons, htasks, List.map_append]

/-! ## Runs -/

/-- The events that the timer of `k` stays out of. -/
def Event.Spares (k : κ) : Event κ ν → Prop
  | .tick => True
  | .setTimer key _ _ => key ≠ some k
  | .moveTimer key _ => key ≠ some k
  | .removeTimer key => key ≠ some k
  | .drain => False

def Event.isTick : Event κ ν → Bool
  | .tick => true
  | _ => false

/-- The values that a run executes for `k`. -/
def executions (w : TimingWheel n κ ν) (k : κ) (events : List (Event κ ν)) : List ν :=
  (w.run events).1.filterMap fun task => if task.key = k then some task.value else none

theorem act_spares {event : Event κ ν} (h : event.Spares k) : (w.act event).Spares k := by
  cases event with
  | tick => exact trivial
  | setTimer key v delay =>
      cases key with
      | none => exact trivial
      | some k' =>
          have hne : k' ≠ k := fun heq => h (congrArg some heq)
          simp only [act]
          split
          · exact trivial
          · split <;> exact hne
  | moveTimer key delay =>
      cases key with
      | none => exact trivial
      | some k' =>
          have hne : k' ≠ k := fun heq => h (congrArg some heq)
          simp only [act]
          split
          · exact trivial
          · split
            · split <;> exact hne
            · exact trivial
  | removeTimer key =>
      cases key with
      | none => exact trivial
      | some k' => exact fun heq => h (congrArg some heq)
  | drain => exact absurd h id

theorem acts_spare {events : List (Event κ ν)} (h : ∀ event ∈ events, event.Spares k) :
    ∀ l ∈ w.acts events, l.1.Spares k := by
  induction events generalizing w with
  | nil => exact List.forall_mem_nil _
  | cons event events ih =>
      obtain ⟨hevent, hevents⟩ := List.forall_mem_cons.mp h
      rw [acts]
      split
      · exact List.forall_mem_cons.mpr ⟨trivial, ih hevents⟩
      · exact List.forall_mem_cons.mpr ⟨act_spares hevent, ih hevents⟩

/-- A turn is a tick of the timers when it is one of the wheel. -/
theorem ticks_act (event : Event κ ν) (tasks : List (κ × ν)) (ls : List (Act κ ν × List (κ × ν))) :
    ticks ((w.act event, tasks) :: ls) = ticks ls + if event.isTick then 1 else 0 := by
  cases event with
  | tick => rfl
  | setTimer key v delay =>
      cases key with
      | none => rfl
      | some k =>
          simp only [act]
          split
          · rfl
          · split <;> rfl
  | moveTimer key delay =>
      cases key with
      | none => rfl
      | some k =>
          simp only [act]
          split
          · rfl
          · split
            · split <;> rfl
            · rfl
  | removeTimer key => cases key <;> rfl
  | drain => rfl

theorem ticks_acts (events : List (Event κ ν)) : ticks (w.acts events) = events.countP Event.isTick := by
  induction events generalizing w with
  | nil => rfl
  | cons event events ih =>
      rw [acts, List.countP_cons]
      split
      · next err hres =>
          -- a tick is never refused
          cases event with
          | tick => cases hres
          | _ => exact ih
      · rw [ticks_act, ih]

theorem executed_acts (h : w.WF) (events : List (Event κ ν)) :
    executed k (w.acts events) = w.executions k events := by
  rw [executed, (run_spec h events).2.2.2, List.filterMap_map]
  rfl

/-- **A timer that nobody touches** is executed once, at its last tick. -/
theorem executions_of_left (h : w.WF) {events : List (Event κ ν)} (hspares : ∀ event ∈ events, event.Spares k) {d : Nat}
    (hd : 0 < d) (hk : w.view k = some ⟨v, some d⟩) :
    w.executions k events = if events.countP Event.isTick < d then [] else [v] := by
  obtain ⟨d, rfl⟩ := Nat.exists_eq_succ_of_ne_zero (Nat.pos_iff_ne_zero.mp hd)
  obtain ⟨hbefore, hafter⟩ := fires_once (run_spec h events).2.2.1 (acts_spare hspares) hk
  rw [executed_acts h, ticks_acts] at hbefore hafter
  split
  · next hlt => exact (hbefore (Nat.le_of_lt_succ hlt)).2
  · next hge => exact (hafter (Nat.lt_of_succ_le (Nat.not_lt.mp hge))).2

/-- One that does not count is not executed, and stays. -/
theorem executions_of_stranded (h : w.WF) {events : List (Event κ ν)} (hspares : ∀ event ∈ events, event.Spares k)
    (hk : ∀ x, w.view k = some x → x.left = none) :
    (w.run events).2.view k = w.view k ∧ w.executions k events = [] := by
  have hsilent := silent (run_spec h events).2.2.1 (acts_spare hspares) hk
  rwa [executed_acts h] at hsilent

theorem run_cons {event : Event κ ν} {tasks : List (TimingTask κ ν)} {w' : TimingWheel n κ ν}
    (h : w.step event = .ok (tasks, w')) (events : List (Event κ ν)) :
    w.run (event :: events) = (tasks ++ (w'.run events).1, (w'.run events).2) := by
  rw [run, h]

theorem run_append (before after : List (Event κ ν)) :
    w.run (before ++ after) =
      ((w.run before).1 ++ ((w.run before).2.run after).1, ((w.run before).2.run after).2) := by
  induction before generalizing w with
  | nil => rfl
  | cons event before ih =>
      rw [List.cons_append, run, run]
      cases w.step event with
      | error err => exact ih
      | ok r => simp only [ih, List.append_assoc]

theorem new_wf (interval : Nat) (hpos : 0 < interval) : (new interval hpos : TimingWheel n κ ν).WF where
  nodup := fun _ => List.nodup_nil
  apart := fun ha => absurd ha List.not_mem_nil
  listed := fun ha => absurd ha List.not_mem_nil
  named := fun hk => absurd (hk.symm.trans (AList.lookup_empty _)) (Option.some_ne_none _)

theorem new_view (interval : Nat) (hpos : 0 < interval) : (new interval hpos : TimingWheel n κ ν).view = fun _ => none :=
  funext fun k => viewDuring_none (AList.lookup_empty k)

variable {interval : Nat} (hpos : 0 < interval)

theorem reachable_wf (events : List (Event κ ν)) :
    ((new interval hpos : TimingWheel n κ ν).run events).2.WF ∧
      ((new interval hpos : TimingWheel n κ ν).run events).2.interval = interval := by
  obtain ⟨hwf, hinterval, -, -⟩ := run_spec (new_wf (n := n) (κ := κ) (ν := ν) interval hpos) events
  exact ⟨hwf, hinterval⟩

/-- A set executes nothing itself. -/
theorem executions_set (h : w.WF) {delay : Int} (hdelay : 0 < delay) (events : List (Event κ ν)) :
    w.executions k (.setTimer (some k) v delay :: events) = (w.setTask k v delay.toNat).2.executions k events := by
  have hnil : (w.setTask k v delay.toNat).1 = [] := by
    cases hk : w.timers.lookup k with
    | none => exact (setTask_new h hk v delay.toNat).1
    | some t => exact (setTask_again h hk v delay.toNat).1
  have hstep : w.step (.setTimer (some k) v delay) = .ok ([], (w.setTask k v delay.toNat).2) := by
    rw [← hnil]
    exact if_neg (not_le.mpr hdelay)
  rw [executions, run_cons hstep]
  rfl

/-- **A timer that is set anew is on time**: in any run, if nothing touches it from there on, it is executed once, at the
    tick that its delay asks for, and at the next one where it asks for less. -/
theorem set_fires_on_time (before after : List (Event κ ν)) (k : κ) (v : ν) {delay : Int} (hdelay : 0 < delay)
    (hnew : ((new interval hpos : TimingWheel n κ ν).run before).2.timers.lookup k = none)
    (hafter : ∀ event ∈ after, event.Spares k) :
    ((new interval hpos : TimingWheel n κ ν).run before).2.executions k (.setTimer (some k) v delay :: after) =
      if after.countP Event.isTick < max 1 (delay.toNat / interval) then [] else [v] := by
  obtain ⟨hwf, hinterval⟩ := reachable_wf (n := n) (κ := κ) (ν := ν) hpos before
  obtain ⟨-, hset, -, hview⟩ := setTask_new hwf hnew v delay.toNat
  rw [executions_set hwf hdelay,
    executions_of_left hset hafter (due_pos delay.toNat) (by rw [hview, Function.update_self]), due_eq, hinterval]

/-- 25 ms are two ticks of 10 ms. -/
theorem set_fires_on_time_at_two :
    (((new 10 (Nat.succ_pos 9) : TimingWheel 4 Nat Nat).run []).2.executions 1 [.setTimer (some 1) 7 25, .tick, .tick] = [7] ∧
      ((new 10 (Nat.succ_pos 9) : TimingWheel 4 Nat Nat).run []).2.executions 1 [.setTimer (some 1) 7 25, .tick] = []) :=
  ⟨set_fires_on_time (Nat.succ_pos 9) [] [.tick, .tick] 1 7 (by decide) rfl (by simp [Event.Spares]),
    set_fires_on_time (Nat.succ_pos 9) [] [.tick] 1 7 (by decide) rfl (by simp [Event.Spares])⟩

/-- When a move is on time. -/
theorem aim_eq_iff (T p : Fin n) (s : Nat) :
    aim T p s = s ↔ ¬(p.val ≤ T.val ∧ T.val < (target T s).val) ∧
      ¬(n < s ∧ (target T s).val ≤ T.val ∧ T.val < p.val) := by
  have hn := Nat.pos_of_neZero n
  have hT := T.isLt
  rw [aim]
  split_ifs <;> omega

theorem aim_pos {T p : Fin n} {s : Nat} (hs : 0 < s) : 0 < aim T p s := by
  rw [aim]
  split_ifs <;> omega

/-- A wheel of four slots, three ticks after a task was set six ticks away. -/
def waiting : TimingWheel 4 Nat Nat :=
  ((new 1 Nat.one_pos : TimingWheel 4 Nat Nat).run [.setTimer (some 1) 7 6, .tick, .tick, .tick]).2

/-- **After `Drain`.** The entries that it executes stay in `timers`. A later `SetTimer` of such a key moves an entry that
    no slot lists: the task is executed only where a new entry is made, which is where the slot to reach comes before
    the old one, on this circle. -/
theorem set_after_drain (before between after : List (Event κ ν)) {k : κ} {p : PositionEntry n} (v : ν) (delay : Int)
    (hdelay : 0 < delay) (hk : ((new interval hpos : TimingWheel n κ ν).run before).2.timers.lookup k = some p)
    (hbetween : ∀ event ∈ between, event.Spares k) (hafter : ∀ event ∈ after, event.Spares k)
    (w : TimingWheel n κ ν) (htw : w = ((new interval hpos : TimingWheel n κ ν).run (before ++ .drain :: between)).2) :
    ∃ t, w.timers.lookup k = some t ∧ w.executions k (.setTimer (some k) v delay :: after) =
      if (target w.tickedPos (max 1 (delay.toNat / interval))).val < t.pos.val ∧ max 1 (delay.toNat / interval) ≤ n then
        if after.countP Event.isTick < max 1 (delay.toNat / interval) then [] else [v]
      else [] := by
  obtain ⟨hwf, hinterval⟩ := reachable_wf (n := n) (κ := κ) (ν := ν) hpos (before ++ .drain :: between)
  rw [← htw] at hwf hinterval
  -- the key is there, and does not count
  have hstranded : ∃ x, w.view k = some x ∧ x.left = none := by
    obtain ⟨hwf₀, -⟩ := reachable_wf (n := n) (κ := κ) (ν := ν) hpos before
    obtain ⟨hdrain, -, -, -, hview⟩ := drainAll_spec hwf₀
    obtain ⟨e₀, he₀, -, -⟩ := hwf₀.named hk
    have hleft : ((new interval hpos : TimingWheel n κ ν).run before).2.drainAll.2.view k = some ⟨e₀.value, none⟩ := by
      rw [hview, strand, view, viewDuring_some hk he₀, Option.map_some]
    obtain ⟨hstays, -⟩ := executions_of_stranded hdrain hbetween fun x hx => by
      rw [hleft] at hx
      rw [← Option.some.inj hx]
    refine ⟨⟨e₀.value, none⟩, ?_, rfl⟩
    rw [htw, run_append, ← hleft, ← hstays]
    rfl
  obtain ⟨x, hx, hnone⟩ := hstranded
  cases hlookup : w.timers.lookup k with
  | none => exact absurd ((viewDuring_none hlookup).symm.trans hx) (Option.some_ne_none x).symm
  | some t =>
      obtain ⟨e, he, -, -⟩ := hwf.named hlookup
      have hout : t.item ∉ w.slots t.pos := fun hin => by
        rw [view, viewDuring_some hlookup he, ticksLeft_of_mem hin] at hx
        rw [← Option.some.inj hx] at hnone
        cases hnone
      obtain ⟨-, hset, -, hview⟩ := setTask_again hwf hlookup v delay.toNat
      refine ⟨t, rfl, ?_⟩
      rw [executions_set hwf hdelay, ← hinterval, ← due_eq]
      split
      · next hnear =>
          refine executions_of_left hset hafter (due_pos delay.toNat) ?_
          rw [hview, Function.update_self, aimed, if_neg hout, if_pos hnear]
      · next hfar =>
          refine (executions_of_stranded hset hafter fun y hy => ?_).2
          rw [hview, Function.update_self, aimed, if_neg hout, if_neg hfar] at hy
          rw [← Option.some.inj hy]

/-- A task that was drained and is set again to the next tick is never executed. -/
theorem set_after_drain_lost :
    (((new 1 Nat.one_pos : TimingWheel 4 Nat Nat).run
      [.setTimer (some 1) 7 1, .drain]).2.executions 1 (.setTimer (some 1) 8 1 :: List.replicate 9 .tick)) = [] := by
  obtain ⟨t, ht, hlost⟩ := set_after_drain (n := 4) Nat.one_pos [.setTimer (some 1) 7 1] [] (List.replicate 9 .tick)
    (k := 1) (p := ⟨0, 0⟩) 8 1 (by decide) rfl (by simp) (by simp [Event.Spares]) _ rfl
  obtain rfl : t = ⟨0, 0⟩ := (Option.some.inj ht).symm
  exact hlost

end TimingWheel
end Collection
end ServiceKit
