import ServiceKit.Goprotoc.FreeFields

/-!
# `Goprotoc.Correctness.FreeNumbers` — what is listed as free

Of a message whose used ranges have no number in common, in whatever order they come out of the sort, the free ranges
are the numbers that none of them has, in order and none longer to be made (`free_ranges`).
-/

namespace ServiceKit
namespace Goprotoc

open Lib

variable {n last : Nat} {r : TagRange} {rs : List TagRange} {md : MessageDescriptor}

def TagRange.Has (r : TagRange) (n : Nat) : Prop := r.start ≤ n ∧ n ≤ r.stop

/-- One range before the other. -/
def TagRange.Before (r r' : TagRange) : Prop := r.stop < r'.start

/-- The ranges of a descriptor that was accepted: each has a number, no two have one in common. -/
structure Clear (used : List TagRange) : Prop where
  pos : ∀ r ∈ used, 1 ≤ r.start ∧ r.start ≤ r.stop
  apart : used.Pairwise fun r r' => r.Before r' ∨ r'.Before r

/-- Sorted by their starts, the ranges come one before the other. -/
theorem Clear.pairwise_slice (h : Clear md.used) (sort : SortSlice) :
    (sort.slice (fun i j => decide (i.start < j.start)) md.used).Pairwise TagRange.Before := by
  have hperm := sort.perm (fun i j : TagRange => decide (i.start < j.start)) md.used
  have hsorted := sort.sorted (fun i j : TagRange => decide (i.start < j.start)) TagRange.start md.used
    fun _ _ _ _ => rfl
  have hapart := (hperm.pairwise_iff fun h => Or.symm h).mpr h.apart
  refine (hsorted.and hapart).imp_of_mem ?_
  rintro r r' hr hr' ⟨hle, hbefore | hbefore⟩
  · exact hbefore
  · have hpos := (h.pos r' (hperm.mem_iff.mp hr')).2
    rw [TagRange.Before] at *
    omega

/-- What the loop gives after `last`. -/
structure Spares (last : Nat) (rs unused : List TagRange) : Prop where
  has_iff : ∀ n ≤ maxTag, (∃ r ∈ unused, r.Has n) ↔ last < n ∧ ∀ r ∈ rs, ¬ r.Has n
  nonempty : ∀ r ∈ unused, last < r.start ∧ r.start ≤ r.stop
  gaps : unused.Pairwise fun r r' => r.stop + 1 < r'.start

theorem unusedAfter_spares (hsorted : rs.Pairwise TagRange.Before)
    (hpos : ∀ r ∈ rs, last < r.start ∧ r.start ≤ r.stop) :
    Spares last rs (unusedAfter last rs) := by
  induction rs generalizing last with
  | nil =>
      rw [unusedAfter]
      split
      · next hlt =>
          refine ⟨fun n hn => ?_, ?_, List.pairwise_singleton _ _⟩
          · simp [TagRange.Has]
            omega
          · simp
            omega
      · next hle =>
          refine ⟨fun n hn => ?_, by simp, List.Pairwise.nil⟩
          simp
          omega
  | cons r rs ih =>
      obtain ⟨hfirst, hrest⟩ := List.pairwise_cons.mp hsorted
      obtain ⟨hlast, hle⟩ := hpos r List.mem_cons_self
      have hspares : Spares r.stop rs (unusedAfter r.stop rs) :=
        ih hrest fun r' hr' => ⟨hfirst r' hr', (hpos r' (List.mem_cons_of_mem r hr')).2⟩
      -- what comes later is not in the gap before `r`, nor in `r`
      have hlater : ∀ r' ∈ rs, r.stop < r'.start := hfirst
      rw [unusedAfter]
      split
      · next hadjacent =>
          refine ⟨fun n hn => ?_, fun r' hr' => ?_, hspares.gaps⟩
          · rw [hspares.has_iff n hn, List.forall_mem_cons]
            simp only [TagRange.Has]
            constructor
            · rintro ⟨hlt, hnot⟩
              exact ⟨by omega, by omega, hnot⟩
            · rintro ⟨hlt, hr, hnot⟩
              exact ⟨by omega, hnot⟩
          · obtain ⟨hlt, hle'⟩ := hspares.nonempty r' hr'
            exact ⟨by omega, hle'⟩
      · next hgap =>
          refine ⟨fun n hn => ?_, ?_, ?_⟩
          · rw [List.exists_mem_cons_iff, hspares.has_iff n hn, List.forall_mem_cons]
            simp only [TagRange.Has]
            constructor
            · rintro (hin | ⟨hlt, hnot⟩)
              · refine ⟨by omega, by omega, fun r' hr' hhas => ?_⟩
                have hlt := hlater r' hr'
                omega
              · exact ⟨by omega, by omega, hnot⟩
            · rintro ⟨hlt, hr, hnot⟩
              by_cases hbefore : n < r.start
              · exact .inl (by omega)
              · exact .inr ⟨by omega, hnot⟩
          · rw [List.forall_mem_cons]
            refine ⟨by simp only; omega, fun r' hr' => ?_⟩
            obtain ⟨hlt, hle'⟩ := hspares.nonempty r' hr'
            exact ⟨by omega, hle'⟩
          · refine List.pairwise_cons.mpr ⟨fun r' hr' => ?_, hspares.gaps⟩
            have hlt := (hspares.nonempty r' hr').1
            simp only
            omega

/-- **The free numbers.** A number is in a listed range when no field, no reserved range and no extension range has it;
    the ranges are listed in order, and between two of them there is always a number in use. -/
theorem free_ranges (sort : SortSlice) (h : Clear md.used) :
    (∀ n ≤ maxTag, (∃ r ∈ computeFreeRanges sort md, r.Has n) ↔ 1 ≤ n ∧ ∀ r ∈ md.used, ¬ r.Has n) ∧
      (∀ r ∈ computeFreeRanges sort md, r.start ≤ r.stop) ∧
      (computeFreeRanges sort md).Pairwise fun r r' => r.stop + 1 < r'.start := by
  have hperm := sort.perm (fun i j : TagRange => decide (i.start < j.start)) md.used
  have hspares : Spares 0 (sort.slice (fun i j => decide (i.start < j.start)) md.used) (computeFreeRanges sort md) :=
    unusedAfter_spares (h.pairwise_slice sort) fun r hr => h.pos r (hperm.mem_iff.mp hr)
  refine ⟨fun n hn => ?_, fun r hr => (hspares.nonempty r hr).2, hspares.gaps⟩
  rw [hspares.has_iff n hn]
  exact and_congr_right fun _ =>
    ⟨fun hnot r hr => hnot r (hperm.mem_iff.mpr hr), fun hnot r hr => hnot r (hperm.mem_iff.mp hr)⟩

theorem free_ranges_reserved :
    (∀ n ≤ maxTag, (∃ r ∈ computeFreeRanges .insertion ⟨[3, 1], [⟨5, 8⟩], []⟩, r.Has n) ↔
        1 ≤ n ∧ ∀ r ∈ (⟨[3, 1], [⟨5, 8⟩], []⟩ : MessageDescriptor).used, ¬ r.Has n) ∧
      (∀ r ∈ computeFreeRanges .insertion ⟨[3, 1], [⟨5, 8⟩], []⟩, r.start ≤ r.stop) ∧
      (computeFreeRanges .insertion ⟨[3, 1], [⟨5, 8⟩], []⟩).Pairwise fun r r' => r.stop + 1 < r'.start :=
  free_ranges .insertion ⟨by decide, by simp [MessageDescriptor.used, TagRange.Before]⟩

end Goprotoc
end ServiceKit
