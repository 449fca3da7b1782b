import ServiceKit.Lib.Countdown
import ServiceKit.Collection.TimingWheel
import Mathlib.Data.Nat.ModEq
import Mathlib.Tactic.Linarith

/-!
# `Collection.Correctness.Wheel` — the timing wheel, operation by operation

`WF` is what every operation keeps: an entry is in one slot at most, and the one that is not removed is the entry
`timers` names for its key. `timers` may also name an entry that is in no slot (after `drainAll`). `view` reads the
timers off a wheel: the ticks left are the way of the hand to the slot, the circles, and the rest of the way.
-/

namespace ServiceKit
namespace Collection
namespace TimingWheel

open Lib Countdown

variable {n : Nat} {κ ν : Type} [DecidableEq κ]

/-! ## The way of the hand -/

/-- The ticks until the hand comes to slot `p` next. -/
def away (T p : Fin n) : Nat := if T.val < p.val then p.val - T.val else n + p.val - T.val

theorem away_pos (T p : Fin n) : 0 < away T p := by
  unfold away
  have hT := T.isLt
  split <;> omega

theorem val_add (T d : Fin n) : (T + d).val = if T.val + d.val < n then T.val + d.val else T.val + d.val - n := by
  have hT := T.isLt
  have hd := d.isLt
  rw [Fin.val_add]
  split
  · next h => exact Nat.mod_eq_of_lt h
  · rw [Nat.mod_eq_sub_mod (by omega)]
    exact Nat.mod_eq_of_lt (by omega)

theorem away_self (T : Fin n) : away T T = n := by
  unfold away
  rw [if_neg (lt_irrefl T.val)]
  omega

section Hand

variable [NeZero n]

theorem val_succ (T : Fin n) : (T + 1).val = if T.val + 1 = n then 0 else T.val + 1 := by
  have hT := T.isLt
  rw [Fin.val_add, Fin.val_one', Nat.add_mod_mod]
  split
  · next h => rw [h, Nat.mod_self]
  · exact Nat.mod_eq_of_lt (by omega)

theorem away_succ {T p : Fin n} (h : p ≠ T + 1) : away (T + 1) p = away T p - 1 := by
  have hne : p.val ≠ (T + 1).val := fun heq => h (Fin.ext heq)
  have hT := T.isLt
  have hp := p.isLt
  unfold away
  rw [val_succ] at hne ⊢
  split_ifs at hne ⊢ <;> omega

theorem away_next (T : Fin n) : away T (T + 1) = 1 := by
  have hT := T.isLt
  unfold away
  rw [val_succ]
  split_ifs <;> omega

theorem away_add {T d : Fin n} (h : 0 < d) : away T (T + d) = d.val := by
  have hT := T.isLt
  have hd := d.isLt
  have hpos : 0 < d.val := h
  unfold away
  rw [val_add]
  split_ifs <;> omega

end Hand

/-! ## The invariant -/

/-- What every operation keeps. -/
structure WF (w : TimingWheel n κ ν) : Prop where
  nodup : ∀ p, (w.slots p).Nodup
  apart : ∀ {p q a}, a ∈ w.slots p → a ∈ w.slots q → p = q
  listed : ∀ {p a}, a ∈ w.slots p →
    ∃ e, w.items[a]? = some e ∧ (e.removed = false → w.timers.lookup e.key = some ⟨p, a⟩)
  named : ∀ {k t}, w.timers.lookup k = some t →
    ∃ e, w.items[t.item]? = some e ∧ e.key = k ∧ e.removed = false

/-- The same while an operation is about to say anew what `timers` holds for `k`. -/
structure Vacant (w : TimingWheel n κ ν) (k : κ) : Prop where
  nodup : ∀ p, (w.slots p).Nodup
  apart : ∀ {p q a}, a ∈ w.slots p → a ∈ w.slots q → p = q
  listed : ∀ {p a}, a ∈ w.slots p →
    ∃ e, w.items[a]? = some e ∧ (e.removed = false → e.key ≠ k ∧ w.timers.lookup e.key = some ⟨p, a⟩)
  named : ∀ {k' t}, k' ≠ k → w.timers.lookup k' = some t →
    ∃ e, w.items[t.item]? = some e ∧ e.key = k' ∧ e.removed = false

variable {w : TimingWheel n κ ν} {rest : List Addr} {k : κ} {a : Addr} {t : PositionEntry n}
  {e : TimingEntry n κ ν}

/-- Two keys name different entries. -/
theorem WF.item_ne (h : w.WF) {k' : κ} {t' : PositionEntry n} (hk : w.timers.lookup k = some t)
    (hk' : w.timers.lookup k' = some t') (hne : k' ≠ k) : t'.item ≠ t.item := by
  intro heq
  obtain ⟨e, he, hkey, -⟩ := h.named hk
  obtain ⟨e', he', hkey', -⟩ := h.named hk'
  rw [heq, he] at he'
  exact hne (by rw [← hkey', ← hkey, Option.some.inj he'])

/-! ## The view -/

/-- The ticks left of an entry; the hand has yet to visit those of `rest` in its slot. -/
def ticksLeft (w : TimingWheel n κ ν) (rest : List Addr) (t : PositionEntry n) (e : TimingEntry n κ ν) : Option Nat :=
  if t.item ∈ w.slots t.pos then
    some ((if t.item ∈ rest then 0 else away w.tickedPos t.pos) + e.circle * n + e.diff.val)
  else none

omit [DecidableEq κ] in
theorem ticksLeft_of_mem (h : t.item ∈ w.slots t.pos) : w.ticksLeft rest t e =
    some ((if t.item ∈ rest then 0 else away w.tickedPos t.pos) + e.circle * n + e.diff.val) := if_pos h

omit [DecidableEq κ] in
theorem ticksLeft_of_not_mem (h : t.item ∉ w.slots t.pos) : w.ticksLeft rest t e = none := if_neg h

/-- The timers in the middle of a scan. -/
def viewDuring (w : TimingWheel n κ ν) (rest : List Addr) : Timers κ ν := fun k =>
  (w.timers.lookup k).bind fun t => (w.items[t.item]?).map fun e => ⟨e.value, w.ticksLeft rest t e⟩

/-- The timers of a wheel. -/
def view (w : TimingWheel n κ ν) : Timers κ ν := w.viewDuring []

theorem viewDuring_some (hk : w.timers.lookup k = some t) (he : w.items[t.item]? = some e) :
    w.viewDuring rest k = some ⟨e.value, w.ticksLeft rest t e⟩ := by
  rw [viewDuring, hk, Option.bind_some, he, Option.map_some]

theorem viewDuring_none (hk : w.timers.lookup k = none) : w.viewDuring rest k = none := by
  rw [viewDuring, hk, Option.bind_none]

/-- What a timer is seen as depends on its own entry only. -/
theorem viewDuring_congr {w' : TimingWheel n κ ν} {rest' : List Addr}
    (hk : w'.timers.lookup k = w.timers.lookup k) (hT : w'.tickedPos = w.tickedPos)
    (h : ∀ t, w.timers.lookup k = some t → w'.items[t.item]? = w.items[t.item]? ∧
      (t.item ∈ w'.slots t.pos ↔ t.item ∈ w.slots t.pos) ∧ (t.item ∈ rest' ↔ t.item ∈ rest)) :
    w'.viewDuring rest' k = w.viewDuring rest k := by
  rw [viewDuring, viewDuring, hk]
  cases hl : w.timers.lookup k with
  | none => rfl
  | some t =>
      obtain ⟨hitems, hslots, hrest⟩ := h t hl
      simp only [Option.bind_some, hitems, ticksLeft, hslots, hrest, hT]

/-- A view that is known away from `k` and at `k`. -/
theorem viewDuring_update {w' : TimingWheel n κ ν} {rest' : List Addr} {x : Option (Timer ν)}
    (hne : ∀ k', k' ≠ k → w'.viewDuring rest' k' = w.viewDuring rest k') (hk : w'.viewDuring rest' k = x) :
    w'.viewDuring rest' = Function.update (w.viewDuring rest) k x := by
  funext k'
  by_cases heq : k' = k
  · rw [heq, hk, Function.update_self]
  · rw [hne k' heq, Function.update_of_ne heq]

/-! ## Changes in place -/

omit [DecidableEq κ] in
theorem getElem?_modifyItem_self (f : TimingEntry n κ ν → TimingEntry n κ ν) (he : w.items[a]? = some e) :
    (w.modifyItem a f).items[a]? = some (f e) := by
  rw [modifyItem, List.getElem?_modify_eq, he]
  rfl

omit [DecidableEq κ] in
theorem getElem?_modifyItem_ne (f : TimingEntry n κ ν → TimingEntry n κ ν) {b : Addr} (h : b ≠ a) :
    (w.modifyItem a f).items[b]? = w.items[b]? :=
  List.getElem?_modify_ne _ _ (Ne.symm h)

/-- What a change of value, circle and way keeps. -/
theorem WF.modifyItem (h : w.WF) (a : Addr) (f : TimingEntry n κ ν → TimingEntry n κ ν)
    (hkey : ∀ e, (f e).key = e.key) (hremoved : ∀ e, (f e).removed = e.removed) : (w.modifyItem a f).WF where
  nodup := h.nodup
  apart := h.apart
  listed := by
    intro p b hb
    obtain ⟨e, he, hlive⟩ := h.listed hb
    by_cases hab : b = a
    · subst hab
      exact ⟨f e, getElem?_modifyItem_self f he, fun hr => by rw [hkey]; exact hlive (hremoved e ▸ hr)⟩
    · exact ⟨e, by rw [getElem?_modifyItem_ne f hab, he], hlive⟩
  named := by
    intro k t hk
    obtain ⟨e, he, hek, hlive⟩ := h.named hk
    by_cases hab : t.item = a
    · subst hab
      exact ⟨f e, getElem?_modifyItem_self f he, (hkey e).trans hek, (hremoved e).trans hlive⟩
    · exact ⟨e, by rw [getElem?_modifyItem_ne f hab, he], hek, hlive⟩

/-- What it does to the timers. -/
theorem WF.viewDuring_modifyItem (h : w.WF) (hk : w.timers.lookup k = some t) (he : w.items[t.item]? = some e)
    (f : TimingEntry n κ ν → TimingEntry n κ ν) :
    (w.modifyItem t.item f).viewDuring rest =
      Function.update (w.viewDuring rest) k (some ⟨(f e).value, w.ticksLeft rest t (f e)⟩) := by
  refine viewDuring_update (fun k' hne => viewDuring_congr rfl rfl fun t' ht' => ?_)
    (viewDuring_some hk (getElem?_modifyItem_self f he))
  exact ⟨getElem?_modifyItem_ne f (h.item_ne hk ht' hne), Iff.rfl, Iff.rfl⟩

/-! ## A key without an entry -/

theorem WF.vacant (h : w.WF) (hk : w.timers.lookup k = none) : w.Vacant k where
  nodup := h.nodup
  apart := h.apart
  listed := by
    intro p a ha
    obtain ⟨e, he, hlive⟩ := h.listed ha
    refine ⟨e, he, fun hr => ⟨fun hek => ?_, hlive hr⟩⟩
    have hnamed := hlive hr
    rw [hek, hk] at hnamed
    cases hnamed
  named := fun _ hk' => h.named hk'

/-- The mark `removed` on the entry of `k`. -/
def mark (w : TimingWheel n κ ν) (a : Addr) : TimingWheel n κ ν := w.modifyItem a fun e => { e with removed := true }

theorem WF.vacant_mark (h : w.WF) (hk : w.timers.lookup k = some t) : (w.mark t.item).Vacant k where
  nodup := h.nodup
  apart := h.apart
  listed := by
    intro p b hb
    obtain ⟨e, he, hlive⟩ := h.listed hb
    by_cases hab : b = t.item
    · subst hab
      exact ⟨_, getElem?_modifyItem_self _ he, fun hr => by cases hr⟩
    · refine ⟨e, by rw [mark, getElem?_modifyItem_ne _ hab, he], fun hr => ⟨fun hek => ?_, hlive hr⟩⟩
      have hnamed := hlive hr
      rw [hek, hk] at hnamed
      exact hab (congrArg PositionEntry.item (Option.some.inj hnamed)).symm
  named := by
    intro k' t' hne hk'
    obtain ⟨e, he, hek⟩ := h.named hk'
    exact ⟨e, by rw [mark, getElem?_modifyItem_ne _ (h.item_ne hk hk' hne), he], hek⟩

omit [DecidableEq κ] in
theorem unlink_slots_self : (w.unlink a).slots w.tickedPos = (w.slots w.tickedPos).erase a :=
  Function.update_self _ _ _

omit [DecidableEq κ] in
theorem unlink_slots_ne {p : Fin n} (h : p ≠ w.tickedPos) : (w.unlink a).slots p = w.slots p :=
  Function.update_of_ne h _ _

theorem mem_unlink {p : Fin n} {b : Addr} (h : w.WF) :
    b ∈ (w.unlink a).slots p ↔ b ∈ w.slots p ∧ ¬(p = w.tickedPos ∧ b = a) := by
  by_cases hp : p = w.tickedPos
  · subst hp
    rw [unlink_slots_self, (h.nodup _).mem_erase_iff]
    simp [and_comm]
  · rw [unlink_slots_ne hp]
    simp [hp]

theorem unlink_nodup (h : w.WF) (p : Fin n) : ((w.unlink a).slots p).Nodup := by
  by_cases hp : p = w.tickedPos
  · subst hp
    rw [unlink_slots_self]
    exact (h.nodup _).erase a
  · rw [unlink_slots_ne hp]
    exact h.nodup p

/-- An entry taken out of the list that is scanned. -/
theorem WF.unlink (h : w.WF) (a : Addr) : (w.unlink a).WF where
  nodup := unlink_nodup h
  apart := fun hp hq => h.apart ((mem_unlink h).mp hp).1 ((mem_unlink h).mp hq).1
  listed := fun ha => h.listed ((mem_unlink h).mp ha).1
  named := h.named

theorem WF.vacant_unlink (h : w.WF) (ha : a ∈ w.slots w.tickedPos) (he : w.items[a]? = some e)
    (hlive : e.removed = false) : (w.unlink a).Vacant e.key where
  nodup := unlink_nodup h
  apart := (h.unlink a).apart
  listed := by
    intro p b hb
    obtain ⟨hb, hne⟩ := (mem_unlink h).mp hb
    obtain ⟨e', he', hnamed'⟩ := h.listed hb
    obtain ⟨e'', he'', hnamed⟩ := h.listed ha
    obtain rfl : e = e'' := Option.some.inj (he.symm.trans he'')
    refine ⟨e', he', fun hr => ⟨fun hkey => hne ?_, hnamed' hr⟩⟩
    have heq := hnamed' hr
    rw [hkey, hnamed hlive] at heq
    injection heq with heq
    injection heq with hp ha'
    exact ⟨hp.symm, ha'.symm⟩
  named := fun _ hk => h.named hk

/-- A cell that nothing refers to yet. -/
theorem Vacant.alloc (h : w.Vacant k) (e : TimingEntry n κ ν) : (w.alloc e).Vacant k where
  nodup := h.nodup
  apart := h.apart
  listed := fun ha => by
    obtain ⟨e', he', hlive⟩ := h.listed ha
    exact ⟨e', List.getElem?_append_left (List.getElem?_eq_some_iff.mp he').1 ▸ he', hlive⟩
  named := fun hne hk => by
    obtain ⟨e', he', hkey⟩ := h.named hne hk
    exact ⟨e', List.getElem?_append_left (List.getElem?_eq_some_iff.mp he').1 ▸ he', hkey⟩

/-- The key leaves `timers`. -/
theorem Vacant.delTimer (h : w.Vacant k) : (w.delTimer k).WF where
  nodup := h.nodup
  apart := h.apart
  listed := fun ha => by
    obtain ⟨e, he, hlive⟩ := h.listed ha
    exact ⟨e, he, fun hr => (AList.lookup_erase_ne (hlive hr).1).trans (hlive hr).2⟩
  named := fun {k'} {t} hk' => by
    have hne : k' ≠ k := fun heq => by
      rw [heq] at hk'
      exact Option.some_ne_none t (hk'.symm.trans (AList.lookup_erase k w.timers))
    exact h.named hne ((AList.lookup_erase_ne hne).symm.trans hk')

theorem viewDuring_delTimer : (w.delTimer k).viewDuring rest = Function.update (w.viewDuring rest) k none := by
  refine viewDuring_update (fun k' hne => ?_) (viewDuring_none (AList.lookup_erase k w.timers))
  exact viewDuring_congr (AList.lookup_erase_ne hne) rfl fun t ht => ⟨rfl, Iff.rfl, Iff.rfl⟩

/-- `PushBack` and `setTimerPosition`, as they are called. -/
def file (w : TimingWheel n κ ν) (pos : Fin n) (a : Addr) : TimingWheel n κ ν :=
  (w.pushBack pos a).setTimerPosition pos a

omit [DecidableEq κ] in
theorem mem_pushBack {pos p : Fin n} {b : Addr} :
    b ∈ (w.pushBack pos a).slots p ↔ b ∈ w.slots p ∨ p = pos ∧ b = a := by
  by_cases hp : p = pos
  · subst hp
    have hself : (w.pushBack p a).slots p = w.slots p ++ [a] := Function.update_self _ _ _
    rw [hself]
    simp
  · have hne : (w.pushBack pos a).slots p = w.slots p := Function.update_of_ne hp _ _
    rw [hne]
    simp [hp]

theorem file_frame (pos : Fin n) (a : Addr) :
    (w.file pos a).slots = (w.pushBack pos a).slots ∧ (w.file pos a).items = w.items ∧
      (w.file pos a).tickedPos = w.tickedPos ∧ (w.file pos a).interval = w.interval := by
  rw [file, setTimerPosition]
  split <;> exact ⟨rfl, rfl, rfl, rfl⟩

theorem mem_file {pos p : Fin n} {b : Addr} : b ∈ (w.file pos a).slots p ↔ b ∈ w.slots p ∨ p = pos ∧ b = a := by
  rw [(file_frame pos a).1, mem_pushBack]

theorem file_timers {pos : Fin n} (he : w.items[a]? = some e) :
    (w.file pos a).timers = w.timers.insert e.key ⟨pos, a⟩ := by
  have he' : (w.pushBack pos a).items[a]? = some e := he
  rw [file, setTimerPosition]
  simp only [he']
  rfl

theorem file_nodup {pos : Fin n} (hnodup : ∀ p, (w.slots p).Nodup) (ha : ∀ p, a ∉ w.slots p) (p : Fin n) :
    ((w.file pos a).slots p).Nodup := by
  rw [(file_frame pos a).1]
  by_cases hp : p = pos
  · subst hp
    have hself : (w.pushBack p a).slots p = w.slots p ++ [a] := Function.update_self _ _ _
    rw [hself]
    exact List.nodup_append.mpr ⟨hnodup p, List.nodup_singleton a, fun x hx y hy hxy =>
      ha p (List.mem_singleton.mp hy ▸ hxy ▸ hx)⟩
  · have hne : (w.pushBack pos a).slots p = w.slots p := Function.update_of_ne hp _ _
    exact hne ▸ hnodup p

/-- The key gets an entry. -/
theorem Vacant.file (h : w.Vacant e.key) (pos : Fin n) (he : w.items[a]? = some e) (hlive : e.removed = false)
    (ha : ∀ p, a ∉ w.slots p) : (w.file pos a).WF where
  nodup := file_nodup h.nodup ha
  apart := fun {p q b} hp hq => by
    rcases mem_file.mp hp with hp' | ⟨hp', hb⟩ <;> rcases mem_file.mp hq with hq' | ⟨hq', hb'⟩
    · exact h.apart hp' hq'
    · exact absurd (hb' ▸ hp') (ha p)
    · exact absurd (hb ▸ hq') (ha q)
    · exact hp'.trans hq'.symm
  listed := fun {p b} hb => by
    rw [file_timers he, (file_frame pos a).2.1]
    rcases mem_file.mp hb with hb | ⟨rfl, rfl⟩
    · obtain ⟨e', he', hnamed⟩ := h.listed hb
      exact ⟨e', he', fun hr => (AList.lookup_insert_ne (hnamed hr).1).trans (hnamed hr).2⟩
    · exact ⟨e, he, fun _ => AList.lookup_insert w.timers⟩
  named := fun {k t} hk => by
    rw [file_timers he] at hk
    rw [(file_frame pos a).2.1]
    by_cases hne : k = e.key
    · subst hne
      obtain rfl := Option.some.inj ((AList.lookup_insert w.timers).symm.trans hk)
      exact ⟨e, he, rfl, hlive⟩
    · exact h.named hne ((AList.lookup_insert_ne hne).symm.trans hk)

/-- What the timers are then: all as before, but this one, that is in its slot. -/
theorem viewDuring_file {pos : Fin n} (he : w.items[a]? = some e)
    (hother : ∀ k' t', k' ≠ e.key → w.timers.lookup k' = some t' → t'.item ≠ a) (hrest : a ∉ rest) :
    (w.file pos a).viewDuring rest =
      Function.update (w.viewDuring rest) e.key
        (some ⟨e.value, some (away w.tickedPos pos + e.circle * n + e.diff.val)⟩) := by
  obtain ⟨-, hitems, hT, -⟩ := file_frame (w := w) pos a
  refine viewDuring_update (fun k' hne => ?_) ?_
  · refine viewDuring_congr (file_timers he ▸ AList.lookup_insert_ne hne) hT fun t ht => ⟨hitems ▸ rfl, ?_, Iff.rfl⟩
    rw [mem_file]
    exact or_iff_left fun h => hother k' t hne ht h.2
  · have hk : (w.file pos a).timers.lookup e.key = some ⟨pos, a⟩ := file_timers he ▸ AList.lookup_insert w.timers
    have he' : (w.file pos a).items[a]? = some e := hitems ▸ he
    rw [viewDuring_some hk he', ticksLeft, if_pos (mem_file.mpr (.inr ⟨rfl, rfl⟩)), if_neg hrest, hT]

/-! ## The scan -/

/-- An entry that the hand has yet to visit. -/
theorem WF.viewDuring_cons (h : w.WF) (ha : a ∈ w.slots w.tickedPos) (he : w.items[a]? = some e)
    (hk : w.timers.lookup e.key = some ⟨w.tickedPos, a⟩) :
    w.viewDuring (a :: rest) =
      Function.update (w.viewDuring rest) e.key (some ⟨e.value, some (e.circle * n + e.diff.val)⟩) := by
  refine viewDuring_update (fun k' hne => viewDuring_congr rfl rfl fun t ht => ⟨rfl, Iff.rfl, ?_⟩) ?_
  · have hitem := h.item_ne hk ht hne
    simp [hitem]
  · rw [viewDuring_some hk he, ticksLeft, if_pos ha, if_pos List.mem_cons_self, Nat.zero_add]

/-- Taken out of the list, it is still seen by its own key only. -/
theorem WF.update_unlink (h : w.WF) (hk : w.timers.lookup k = some ⟨w.tickedPos, a⟩) (x : Option (Timer ν)) :
    Function.update ((w.unlink a).viewDuring rest) k x = Function.update (w.viewDuring rest) k x := by
  funext k'
  by_cases hne : k' = k
  · rw [hne, Function.update_self, Function.update_self]
  · rw [Function.update_of_ne hne, Function.update_of_ne hne]
    refine viewDuring_congr rfl rfl fun t ht => ⟨rfl, ?_, Iff.rfl⟩
    rw [mem_unlink h]
    exact and_iff_left fun hc => h.item_ne hk ht hne hc.2

/-- Between two operations an entry in a slot has ticks left. -/
theorem WF.left_ne_zero (h : w.WF) {x : Timer ν} (hx : w.view k = some x) : x.left ≠ some 0 := by
  cases hk : w.timers.lookup k with
  | none => exact absurd ((viewDuring_none hk).symm.trans hx) (Option.some_ne_none x).symm
  | some t =>
      obtain ⟨e, he, -, -⟩ := h.named hk
      obtain rfl := Option.some.inj ((viewDuring_some hk he).symm.trans hx)
      have hpos := away_pos w.tickedPos t.pos
      simp only [ticksLeft, List.not_mem_nil, if_false]
      split
      · exact fun heq => by
          have hsum := Option.some.inj heq
          omega
      · exact fun heq => by cases heq

section Scan

variable [NeZero n]

/-- The rest of the way: the entry goes to the slot at its end, with no way left. -/
def relocate (w : TimingWheel n κ ν) (a : Addr) (e : TimingEntry n κ ν) : TimingWheel n κ ν :=
  ((w.unlink a).file (w.tickedPos + e.diff) a).modifyItem a fun e => { e with diff := 0 }

theorem WF.relocate (h : w.WF) (ha : a ∈ w.slots w.tickedPos) (he : w.items[a]? = some e)
    (hlive : e.removed = false) (hrest : a ∉ rest) (hdiff : 0 < e.diff) :
    (w.relocate a e).WF ∧ (w.relocate a e).tickedPos = w.tickedPos ∧ (w.relocate a e).interval = w.interval ∧
      (∀ b, b ∈ (w.unlink a).slots w.tickedPos → b ∈ (w.relocate a e).slots w.tickedPos) ∧
      (w.relocate a e).viewDuring rest =
        Function.update (w.viewDuring rest) e.key (some ⟨e.value, some (e.circle * n + e.diff.val)⟩) := by
  obtain ⟨e', he', hnamed⟩ := h.listed ha
  obtain rfl : e = e' := Option.some.inj (he.symm.trans he')
  have hk := hnamed hlive
  have hfile := (h.vacant_unlink ha he hlive).file (w.tickedPos + e.diff) he hlive fun p hp =>
    ((mem_unlink h).mp hp).2 ⟨h.apart ((mem_unlink h).mp hp).1 ha, rfl⟩
  obtain ⟨-, hitems, hT, hinterval⟩ := file_frame (w := w.unlink a) (w.tickedPos + e.diff) a
  refine ⟨hfile.modifyItem a _ (fun _ => rfl) (fun _ => rfl), hT, hinterval, fun b hb => mem_file.mpr (.inl hb), ?_⟩
  have hother : ∀ k' t', k' ≠ e.key → (w.unlink a).timers.lookup k' = some t' → t'.item ≠ a :=
    fun k' t' hne ht => h.item_ne hk ht hne
  have hk' : ((w.unlink a).file (w.tickedPos + e.diff) a).timers.lookup e.key = some ⟨w.tickedPos + e.diff, a⟩ := by
    rw [file_timers (w := w.unlink a) he, AList.lookup_insert]
  have he' : ((w.unlink a).file (w.tickedPos + e.diff) a).items[a]? = some e := hitems ▸ he
  rw [TimingWheel.relocate, hfile.viewDuring_modifyItem hk' he', viewDuring_file (w := w.unlink a) he hother hrest,
    Function.update_idem, h.update_unlink hk, ticksLeft, if_pos (mem_file.mpr (.inr ⟨rfl, rfl⟩)), if_neg hrest, hT]
  have haway : away (w.unlink a).tickedPos (w.tickedPos + e.diff) = e.diff.val := away_add hdiff
  simp only [haway, Fin.val_zero, Nat.add_zero, Nat.add_comm]

/-- One entry of the list that is scanned: its timer is executed when no tick is left, and stays else. -/
theorem visit_spec (h : w.WF) (ha : a ∈ w.slots w.tickedPos) (hrest : a ∉ rest)
    (hin : ∀ b ∈ rest, b ∈ w.slots w.tickedPos) :
    (w.visit a).2.WF ∧ (w.visit a).2.tickedPos = w.tickedPos ∧ (w.visit a).2.interval = w.interval ∧
      (∀ b ∈ rest, b ∈ (w.visit a).2.slots w.tickedPos) ∧
      ((w.visit a).1 = [] ∧ (w.visit a).2.viewDuring rest = w.viewDuring (a :: rest) ∨
        ∃ k v, (w.visit a).1 = [⟨k, v⟩] ∧ w.viewDuring (a :: rest) k = some ⟨v, some 0⟩ ∧
          (w.visit a).2.viewDuring rest = Function.update (w.viewDuring (a :: rest)) k none) := by
  obtain ⟨e, he, hnamed⟩ := h.listed ha
  have hkeep : ∀ b ∈ rest, b ∈ (w.unlink a).slots w.tickedPos := fun b hb =>
    (mem_unlink h).mpr ⟨hin b hb, fun hc => hrest (hc.2 ▸ hb)⟩
  simp only [visit, he]
  by_cases hr : e.removed = true
  · rw [if_pos hr]
    refine ⟨h.unlink a, rfl, rfl, hkeep, .inl ⟨rfl, funext fun k => viewDuring_congr rfl rfl fun t ht => ?_⟩⟩
    -- no key names a removed entry
    have hne : t.item ≠ a := fun heq => by
      obtain ⟨e', he', -, hlive⟩ := h.named ht
      rw [heq, he] at he'
      rw [← Option.some.inj he', hr] at hlive
      cases hlive
    refine ⟨rfl, ?_, by simp [hne]⟩
    rw [mem_unlink h]
    exact and_iff_left fun hc => hne hc.2
  · have hlive : e.removed = false := Bool.eq_false_of_not_eq_true hr
    have hk := hnamed hlive
    have hvacant := h.vacant_unlink ha he hlive
    have hcons : w.viewDuring (a :: rest) = _ := h.viewDuring_cons ha he hk
    rw [if_neg hr]
    by_cases hcircle : 0 < e.circle
    · -- one circle less, and a whole circle until the hand is here again
      rw [if_pos hcircle]
      refine ⟨h.modifyItem a _ (fun _ => rfl) (fun _ => rfl), rfl, rfl, hin, .inl ⟨rfl, ?_⟩⟩
      rw [h.viewDuring_modifyItem (t := ⟨w.tickedPos, a⟩) hk he, hcons, ticksLeft, if_pos ha, if_neg hrest, away_self]
      obtain ⟨c, hc⟩ := Nat.exists_eq_succ_of_ne_zero (Nat.pos_iff_ne_zero.mp hcircle)
      simp only [hc, Nat.succ_eq_add_one, Nat.add_sub_cancel, Nat.add_mul, Nat.one_mul, Nat.add_comm n]
    · rw [if_neg hcircle]
      have hzero : e.circle = 0 := Nat.eq_zero_of_not_pos hcircle
      by_cases hdiff : 0 < e.diff
      · -- the rest of the way, in the slot at its end
        rw [if_pos hdiff]
        obtain ⟨hwf, hT, hinterval, hsub, hview⟩ := h.relocate ha he hlive hrest hdiff
        exact ⟨hwf, hT, hinterval, fun b hb => hsub b (hkeep b hb), .inl ⟨rfl, hview.trans hcons.symm⟩⟩
      · rw [if_neg hdiff]
        have hdone : e.diff.val = 0 := Nat.eq_zero_of_not_pos hdiff
        refine ⟨hvacant.delTimer, rfl, rfl, hkeep, .inr ⟨e.key, e.value, rfl, ?_, ?_⟩⟩
        · rw [hcons, Function.update_self, hzero, hdone, Nat.zero_mul]
        · rw [viewDuring_delTimer, h.update_unlink hk, hcons, Function.update_idem]

/-- The scan executes the timers with no tick left, and takes them away. -/
theorem scan_spec (h : w.WF) (hnodup : rest.Nodup) (hin : ∀ b ∈ rest, b ∈ w.slots w.tickedPos) :
    (w.scan rest).2.WF ∧ (w.scan rest).2.interval = w.interval ∧
      ((w.scan rest).1.map TimingTask.key).Nodup ∧
      (∀ k v, ⟨k, v⟩ ∈ (w.scan rest).1 ↔ w.viewDuring rest k = some ⟨v, some 0⟩) ∧
      (w.scan rest).2.view = fun k => (w.viewDuring rest k).filter fun t => t.left ≠ some 0 := by
  induction rest generalizing w with
  | nil =>
      refine ⟨h, rfl, List.nodup_nil, fun k v => ?_, funext fun k => ?_⟩
      · exact ⟨fun hv => absurd hv List.not_mem_nil, fun hv => absurd rfl (h.left_ne_zero hv)⟩
      · show w.view k = (w.view k).filter _
        cases hk : w.view k with
        | none => rfl
        | some t => exact (Option.filter_some_pos (by simpa using h.left_ne_zero hk)).symm
  | cons a rest ih =>
      obtain ⟨ha, hrest⟩ := List.nodup_cons.mp hnodup
      obtain ⟨hina, hinrest⟩ := List.forall_mem_cons.mp hin
      obtain ⟨hwf, hT, hinterval, hin', hvisit⟩ := visit_spec h hina ha hinrest
      obtain ⟨hwf', hinterval', hnodup', hmem, hview⟩ := ih hwf hrest (hT ▸ hin')
      refine ⟨hwf', hinterval'.trans hinterval, ?_⟩
      rcases hvisit with ⟨htask, hsame⟩ | ⟨k₀, v₀, htask, hzero, hgone⟩
      · rw [hsame] at hmem hview
        simp only [scan, htask, List.nil_append]
        exact ⟨hnodup', hmem, hview⟩
      · rw [hgone] at hmem hview
        simp only [scan, htask, List.cons_append, List.nil_append, List.map_cons, List.nodup_cons]
        refine ⟨⟨fun hk₀ => ?_, hnodup'⟩, fun k v => ?_, hview.trans (funext fun k => ?_)⟩
        · obtain ⟨⟨k, v⟩, hv, rfl⟩ := List.mem_map.mp hk₀
          have := (hmem k v).mp hv
          rw [Function.update_self] at this
          cases this
        · by_cases hk : k = k₀
          · subst hk
            rw [List.mem_cons, hmem, Function.update_self, hzero]
            simp [eq_comm]
          · rw [List.mem_cons, hmem, Function.update_of_ne hk]
            simp [hk]
        · by_cases hk : k = k₀
          · subst hk
            simp [hzero, Option.filter]
          · rw [Function.update_of_ne hk]

/-- The hand moves on. -/
def next (w : TimingWheel n κ ν) : TimingWheel n κ ν := { w with tickedPos := w.tickedPos + 1 }

/-- The entries of its slot are then those it has yet to visit. -/
theorem WF.viewDuring_next (h : w.WF) :
    w.next.viewDuring (w.slots (w.tickedPos + 1)) k = (w.view k).map Timer.elapse := by
  cases hk : w.timers.lookup k with
  | none => rw [view, viewDuring_none hk, viewDuring_none (w := w.next) hk, Option.map_none]
  | some t =>
      obtain ⟨e, he, -, -⟩ := h.named hk
      rw [view, viewDuring_some hk he, viewDuring_some (w := w.next) hk he, Option.map_some, Timer.elapse]
      congr 2
      by_cases ht : t.item ∈ w.slots t.pos
      · rw [ticksLeft_of_mem ht, ticksLeft_of_mem (w := w.next) ht, Option.map_some, if_neg List.not_mem_nil]
        congr 1
        by_cases hp : t.pos = w.tickedPos + 1
        · rw [if_pos (hp ▸ ht), hp, away_next]
          omega
        · have hpos := away_pos w.tickedPos t.pos
          have haway : away w.next.tickedPos t.pos = away w.tickedPos t.pos - 1 := away_succ hp
          rw [if_neg fun hin => hp (h.apart ht hin), haway]
          omega
      · rw [ticksLeft_of_not_mem ht, ticksLeft_of_not_mem (w := w.next) ht, Option.map_none]

/-- A tick takes one from every timer that counts, and executes those with one tick left. -/
theorem onTick_spec (h : w.WF) :
    w.onTick.2.WF ∧ w.onTick.2.interval = w.interval ∧ (w.onTick.1.map TimingTask.key).Nodup ∧
      (∀ k v, ⟨k, v⟩ ∈ w.onTick.1 ↔ w.view k = some ⟨v, some 1⟩) ∧ w.onTick.2.view = elapse w.view := by
  have hnext : w.next.WF := ⟨h.nodup, h.apart, h.listed, h.named⟩
  obtain ⟨hwf, hinterval, hnodup, hmem, hview⟩ := scan_spec hnext (h.nodup (w.tickedPos + 1)) fun _ hb => hb
  refine ⟨hwf, hinterval, hnodup, fun k v => (hmem k v).trans ?_, hview.trans (funext fun k => ?_)⟩
  · rw [h.viewDuring_next]
    cases hk : w.view k with
    | none => simp
    | some t =>
        have hne := h.left_ne_zero hk
        obtain ⟨u, left⟩ := t
        cases left with
        | none => simp [Timer.elapse]
        | some d =>
            have hd : d ≠ 0 := fun heq => hne (congrArg some heq)
            have hone : d - 1 = 0 ↔ d = 1 := by omega
            simp [Timer.elapse, hone]
  · rw [h.viewDuring_next, elapse]
    cases hk : w.view k with
    | none => rfl
    | some t =>
        have hne := h.left_ne_zero hk
        obtain ⟨u, left⟩ := t
        cases left with
        | none => rfl
        | some d =>
            have hd : d ≠ 0 := fun heq => hne (congrArg some heq)
            by_cases hone : d = 1
            · simp [Timer.elapse, hone, Option.filter]
            · have hne' : d - 1 ≠ 0 := by omega
              simp [Timer.elapse, hone, hne', Option.filter]

end Scan

end TimingWheel
end Collection
end ServiceKit
