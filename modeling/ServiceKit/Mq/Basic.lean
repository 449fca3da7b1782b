import ServiceKit.Lib.GoError
import ServiceKit.Lib.MimeHeader

/-!
# `Mq.Basic` — `mq/mq.go`

The event that publishers send and the handlers of consumers receive. Its headers are a Go map, so they may
be nil, and hold keys of any form.
-/

namespace ServiceKit
namespace Mq

open Lib

/-- `Event`. -/
structure Event where
  id : GoString
  topic : GoString
  timestamp : ℤ
  headers : Option Header
  payload : GoString
  deriving DecidableEq

/-- The entries of a map that may be nil. -/
def Event.fields (event : Event) : Header := event.headers.getD ∅

/-- The headers `h` have every key of the event, with all its values. -/
def Event.CarriedBy (event : Event) (h : Header) : Prop :=
  ∀ key values, event.fields.lookup key = some values →
    ∃ values', h.lookup key = some values' ∧ values.Sublist values'

end Mq
end ServiceKit
