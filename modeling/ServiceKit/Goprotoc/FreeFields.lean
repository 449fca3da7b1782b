import ServiceKit.Goprotoc.Reader
import ServiceKit.Lib.Unordered

/-!
# `Goprotoc.FreeFields` — the field numbers that a message leaves free

`free_fields.go` of `app/goprotoc`: the ranges that `--print_free_field_numbers` lists for a message. Of the reserved
ranges the end is not part, of the extension ranges it is.
-/

namespace ServiceKit
namespace Goprotoc

open Lib

structure TagRange where
  start : Nat
  stop : Nat
  deriving DecidableEq

/-- What `computeFreeRanges` reads of a message. -/
structure MessageDescriptor where
  fields : List Nat
  reservedRanges : List TagRange
  extensionRanges : List TagRange

/-- All used ranges, in the order in which they are gathered. -/
def MessageDescriptor.used (md : MessageDescriptor) : List TagRange :=
  md.fields.map (fun n => ⟨n, n⟩) ++ md.reservedRanges.map (fun rr => ⟨rr.start, rr.stop - 1⟩) ++ md.extensionRanges

/-- The loop over the used ranges, after `last`, and the range after all of them. -/
def unusedAfter (last : Nat) : List TagRange → List TagRange
  | [] => if last < maxTag then [⟨last + 1, maxTag⟩] else []
  | r :: rs =>
      if r.start ≤ last + 1 then unusedAfter r.stop rs else ⟨last + 1, r.start - 1⟩ :: unusedAfter r.stop rs

def computeFreeRanges (sort : SortSlice) (md : MessageDescriptor) : List TagRange :=
  unusedAfter 0 (sort.slice (fun i j => decide (i.start < j.start)) md.used)

end Goprotoc
end ServiceKit
