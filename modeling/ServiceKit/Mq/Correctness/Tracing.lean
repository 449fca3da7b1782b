import Mathlib.Logic.Equiv.List
import ServiceKit.Lib.Decimal
import ServiceKit.Mq.Rocketmq

/-!
# `Correctness.Tracing` — events and their traces over RocketMQ

`Publish` writes the headers into the message before it adds the ids of the span, so these reach the
handler only if the event had them before.
-/

namespace ServiceKit
namespace Mq
namespace Rocketmq

open Lib
open Lib.Decimal (natText natOf intText intOf)

variable {E : Type}

/-- The headers have the ids of the span, if there is one. -/
def Traced (span : Option Span) (h : Header) : Prop :=
  ∀ sp, span = some sp →
    h.lookup (str "Trace-Id") = some [sp.traceId] ∧ h.lookup (str "Span-Id") = some [sp.spanId]

/-- `Publish` fills in an id and a timestamp, where there is none. -/
structure Keeps (event after : Event) : Prop where
  id : event.id ≠ [] → after.id = event.id
  topic : after.topic = event.topic
  timestamp : event.timestamp ≠ 0 → after.timestamp = event.timestamp
  payload : after.payload = event.payload

/-- The handler's event `got` is the event `event`. -/
structure Same (event got : Event) : Prop where
  id : got.id = event.id
  topic : got.topic = event.topic
  timestamp : got.timestamp = event.timestamp
  payload : got.payload = event.payload
  headers : ∀ key, got.fields.lookup key = event.fields.lookup key

/-- `Publish` did not panic, and the handler gets the event as `Publish` left it, with the ids of the span. -/
def RoundTrips (cv : Conv) (span : Option Span) (event : Event) (res : Option (Published E)) : Prop :=
  ∃ ret after msg, res = some ret ∧ ret.event = some after ∧ ret.sent = some msg ∧ Keeps event after ∧
    Same after (receive cv msg) ∧ Traced span (receive cv msg).fields

theorem canonical_traceId : Header.canonicalKey (str "Trace-Id") = str "Trace-Id" := by decide
theorem canonical_spanId : Header.canonicalKey (str "Span-Id") = str "Span-Id" := by decide
theorem canonical_timestamp : Header.canonicalKey (str "Timestamp") = str "Timestamp" := by decide

theorem lookup_set (h : Header) {name : GoString} (value : GoString)
    (hname : Header.canonicalKey name = name) (key : GoString) :
    (h.set name value).lookup key = if key = name then some [value] else h.lookup key := by
  split
  · next heq =>
      subst heq
      have hself := Header.lookup_set_self h key value
      rwa [hname] at hself
  · next hne =>
      apply Header.lookup_set_of_ne h value
      rwa [hname]

theorem lookup_traced (sp : Span) (h : Header) (key : GoString) :
    (traced (some sp) h).lookup key
      = if key = str "Span-Id" then some [sp.spanId]
        else if key = str "Trace-Id" then some [sp.traceId] else h.lookup key := by
  show ((h.set _ _).set _ _).lookup key = _
  rw [lookup_set _ _ canonical_spanId, lookup_set _ _ canonical_traceId]

/-- The ids of the span change nothing exactly if they were there. -/
theorem traced_iff (span : Option Span) (h : Header) :
    (∀ key, h.lookup key = (traced span h).lookup key) ↔ Traced span h := by
  cases span with
  | none => exact iff_of_true (fun _ => rfl) nofun
  | some sp =>
      constructor
      · rintro hsame sp' hsp
        obtain rfl := Option.some.inj hsp
        refine ⟨?_, ?_⟩
        · rw [hsame, lookup_traced, if_neg (by decide), if_pos rfl]
        · rw [hsame, lookup_traced, if_pos rfl]
      · intro htr key
        obtain ⟨htrace, hspan⟩ := htr sp rfl
        rw [lookup_traced]
        split
        · next heq => rw [heq, hspan]
        · split
          · next heq => rw [heq, htrace]
          · rfl

/-- The timestamp header does not touch the ids of a span. -/
theorem traced_set_timestamp (span : Option Span) (h : Header) (value : GoString) :
    Traced span (h.set (str "Timestamp") value) ↔ Traced span h := by
  unfold Traced
  rw [lookup_set h value canonical_timestamp, lookup_set h value canonical_timestamp, if_neg (by decide),
    if_neg (by decide)]

/-- What the listener makes of a message whose key is the text of `h`. -/
theorem receive_timestamp (cv : Conv) (mv : Message) {h : Header} {n : ℤ} (hkeys : mv.keys = [cv.string h])
    (hts : h.lookup (str "Timestamp") = some [cv.ofInt n]) : (receive cv mv).timestamp = n := by
  have hget : (cv.unmarshal (cv.string h)).get (str "Timestamp") = cv.ofInt n := by
    have hl : (cv.unmarshal (cv.string h)).lookup (Header.canonicalKey (str "Timestamp"))
        = some [cv.ofInt n] := by
      rw [canonical_timestamp, cv.lookup_unmarshal, hts]
    rw [Header.get_of_lookup hl]
    rfl
  unfold receive
  rw [hkeys]
  dsimp only
  rw [hget, if_pos (cv.ofInt_ne_nil n), cv.toInt_ofInt]

/-- The event that `Publish` leaves, of one with the headers `h`. -/
def afterPublish (cv : Conv) (now : ℤ) (newUUID : GoString) (span : Option Span) (event : Event)
    (h : Header) : Event :=
  let timestamp := if event.timestamp = 0 then now else event.timestamp
  { id := if event.id = [] then newUUID else event.id
    topic := event.topic
    timestamp := timestamp
    headers := some (traced span (h.set (str "Timestamp") (cv.ofInt timestamp)))
    payload := event.payload }

/-- The message that `Publish` sends: without the ids of the span. -/
def messageOf (cv : Conv) (now : ℤ) (newUUID : GoString) (event : Event) (h : Header) : Message :=
  { body := event.payload
    tag := if event.id = [] then newUUID else event.id
    topic := event.topic
    keys := [cv.string (h.set (str "Timestamp")
      (cv.ofInt (if event.timestamp = 0 then now else event.timestamp)))] }

section Publish

variable (cv : Conv) (now : ℤ) (newUUID : GoString) (span : Option Span)

theorem publish_nil {event : Event} (htopic : event.topic ≠ []) (hh : event.headers = none)
    (send : Option E) : publish cv now newUUID span send (some event) = none := by
  unfold publish
  dsimp only
  rw [if_neg htopic, hh]

theorem publish_some {event : Event} (htopic : event.topic ≠ []) {h : Header} (hh : event.headers = some h) :
    publish (E := E) cv now newUUID span none (some event)
      = some ⟨(messageOf cv now newUUID event h).tag, none, some (afterPublish cv now newUUID span event h),
          some (messageOf cv now newUUID event h)⟩ := by
  unfold publish
  dsimp only
  rw [if_neg htopic, hh]
  rfl

end Publish

/-- **An event round-trips exactly when it has headers, with the ids of the span among them.** -/
theorem publish_roundTrips_iff (cv : Conv) (now : ℤ) (newUUID : GoString) (span : Option Span) (event : Event)
    (htopic : event.topic ≠ []) :
    RoundTrips (E := E) cv span event (publish cv now newUUID span none (some event)) ↔
      ∃ h, event.headers = some h ∧ Traced span h := by
  cases hh : event.headers with
  | none =>
      rw [publish_nil cv now newUUID span htopic hh]
      refine iff_of_false ?_ ?_
      · rintro ⟨_, _, _, hnone, _⟩
        exact absurd hnone nofun
      · rintro ⟨h, hnone, _⟩
        exact absurd hnone nofun
  | some h =>
      rw [publish_some cv now newUUID span htopic hh]
      let ts := if event.timestamp = 0 then now else event.timestamp
      let h' := h.set (str "Timestamp") (cv.ofInt ts)
      have hgot : ∀ key, (receive cv (messageOf cv now newUUID event h)).fields.lookup key = h'.lookup key :=
        cv.lookup_unmarshal h'
      have hts : h'.lookup (str "Timestamp") = some [cv.ofInt ts] := by
        rw [lookup_set h _ canonical_timestamp, if_pos rfl]
      constructor
      · rintro ⟨_, _, _, hres, hafter, hsent, _, hsame, _⟩
        obtain rfl := Option.some.inj hres
        obtain rfl := Option.some.inj hafter
        obtain rfl := Option.some.inj hsent
        refine ⟨h, rfl, ?_⟩
        rw [← traced_set_timestamp span h (cv.ofInt ts), ← traced_iff]
        intro key
        rw [← hgot key]
        exact hsame.headers key
      · rintro ⟨_, hh', htr⟩
        obtain rfl := Option.some.inj hh'
        rw [← traced_set_timestamp span h (cv.ofInt ts)] at htr
        refine ⟨_, _, _, rfl, rfl, rfl, ⟨?_, rfl, ?_, rfl⟩, ⟨rfl, rfl, ?_, rfl, ?_⟩, ?_⟩
        · intro hid
          exact if_neg hid
        · intro hne
          exact if_neg hne
        · exact receive_timestamp cv _ rfl hts
        · intro key
          rw [hgot key]
          exact (traced_iff span h').mpr htr key
        · intro sp hsp
          rw [hgot, hgot]
          exact htr sp hsp

/-! ## Texts of integers and headers -/

instance encodableByte : Encodable UInt8 := Encodable.ofLeftInverse UInt8.toNat UInt8.ofNat (fun _ => UInt8.ofNat_toNat)

/-- A text that JSON writes between quotes as it is. -/
def isPlain (s : GoString) : Bool := s.all fun c => 32 ≤ c && c < 127 && !(str "\"\\<>&").contains c

def jsonText (s : GoString) : GoString := str "\"" ++ s ++ str "\""

/-- The JSON of a header of plain texts: its keys in order, each with its list of values. -/
def jsonHeader (h : Header) : GoString :=
  let members := (h.entries.insertionSort (fun e e' => e.1 ≤ e'.1)).map fun e =>
    jsonText e.1 ++ str ":[" ++ (str ",").intercalate (e.2.map jsonText) ++ str "]"
  str "\x7b" ++ (str ",").intercalate members ++ str "\x7d"

/-- The texts between quotes, each a value of the last key if `:[` or a comma stands before it, or a key. -/
def readTexts : List GoString → List (Σ _ : GoString, List GoString) → List (Σ _ : GoString, List GoString)
  | mark :: text :: rest, members =>
      match members with
      | ⟨key, values⟩ :: members' =>
          if mark = str ":[" ∨ mark = str "," then readTexts rest (⟨key, values ++ [text]⟩ :: members')
          else readTexts rest (⟨text, []⟩ :: members)
      | [] => readTexts rest [⟨text, []⟩]
  | _, members => members

def readHeader (s : GoString) : Header := (readTexts (s.splitOn 34) []).toAList

/-- The header is plain, and reading its JSON gives it back. -/
def ReadsBack (h : Header) : Prop :=
  (∀ e ∈ h.entries, isPlain e.1 = true ∧ ∀ v ∈ e.2, isPlain v = true) ∧
    (readHeader (jsonHeader h)).entries.Perm h.entries

instance (h : Header) : Decidable (ReadsBack h) := inferInstanceAs (Decidable (_ ∧ _))

/-- Integers as decimal texts, headers as JSON. Where a header does not read back, as its JSON has escapes,
    its number stands for it, behind a mark that no JSON begins with. -/
def Conv.json : Conv where
  ofInt := intText
  toInt := intOf
  string := fun h => if ReadsBack h then jsonHeader h else 35 :: natText (Encodable.encode h.entries)
  unmarshal := fun s =>
    if s.head? = some 35 then ((Encodable.decode (natOf s.tail)).getD []).toAList else readHeader s
  ofInt_ne_nil := Decimal.intText_ne_nil
  toInt_ofInt := Decimal.intOf_intText
  lookup_unmarshal := by
    intro h key
    split
    · next hback =>
        have hhead : (jsonHeader h).head? = some 123 := rfl
        rw [if_neg (by rw [hhead]; decide)]
        exact AList.perm_lookup hback.2
    · rw [List.head?_cons, if_pos rfl, List.tail_cons, Decimal.natOf_natText, Encodable.encodek,
        Option.getD_some, AList.lookup_to_alist]
      rfl

/-! ## A traced order -/

def orderSpan : Span := ⟨str "4bf92f3577b34da6a3ce929d0e0e4736", str "00f067aa0ba902b7"⟩

/-- An order with the headers `headers`. -/
def order (headers : Option Header) : Event :=
  { id := str "4"
    topic := str "orders"
    timestamp := 1700000000
    headers := headers
    payload := str "hello" }

/-- Headers that hold the ids of `orderSpan`. -/
def orderHeaders : Header :=
  [⟨str "Trace-Id", [orderSpan.traceId]⟩, ⟨str "Span-Id", [orderSpan.spanId]⟩].toAList

/-- An order whose headers have the ids of its span comes through, and the message has them in its key. -/
theorem order_roundTrips :
    RoundTrips (E := Unit) Conv.json (some orderSpan) (order (some orderHeaders))
        (publish Conv.json 0 [] (some orderSpan) none (some (order (some orderHeaders)))) ∧
      (messageOf Conv.json 0 [] (order (some orderHeaders)) orderHeaders).keys =
        [str "\x7b\"Span-Id\":[\"00f067aa0ba902b7\"],\"Timestamp\":[\"1700000000\"]," ++
          str "\"Trace-Id\":[\"4bf92f3577b34da6a3ce929d0e0e4736\"]\x7d"] := by
  refine ⟨?_, ?_⟩
  · refine (publish_roundTrips_iff Conv.json 0 [] (some orderSpan) (order (some orderHeaders))
      (by decide)).mpr ⟨orderHeaders, rfl, ?_⟩
    intro sp hsp
    obtain rfl := Option.some.inj hsp
    decide
  · decide +kernel

/-- With a span, the handler gets it without `Trace-Id`; and an order without a map makes `Publish` panic. -/
theorem order_loses_span :
    (∃ ret msg, publish (E := Unit) Conv.json 0 [] (some orderSpan) none (some (order (some ∅))) = some ret ∧
        ret.err = none ∧ ret.sent = some msg ∧
        (receive Conv.json msg).fields.lookup (str "Trace-Id") = none) ∧
      publish (E := Unit) Conv.json 0 [] none none (some (order none)) = none ∧
      ¬ RoundTrips (E := Unit) Conv.json (some orderSpan) (order (some ∅))
        (publish Conv.json 0 [] (some orderSpan) none (some (order (some ∅)))) := by
  have htopic : (order (some ∅)).topic ≠ [] := by decide
  have hpub := publish_some (E := Unit) Conv.json 0 [] (some orderSpan) htopic rfl
  have hnone : (receive Conv.json (messageOf Conv.json 0 [] (order (some ∅)) ∅)).fields.lookup
      (str "Trace-Id") = none := by
    apply (Conv.json.lookup_unmarshal _ _).trans
    rw [lookup_set _ _ canonical_timestamp, if_neg (by decide)]
    rfl
  refine ⟨⟨_, _, hpub, rfl, rfl, hnone⟩, publish_nil Conv.json 0 [] none (by decide) rfl none, ?_⟩
  rw [hpub]
  rintro ⟨_, _, _, hres, _, hsent, _, _, htr⟩
  obtain rfl := Option.some.inj hres
  obtain rfl := Option.some.inj hsent
  have hid := (htr orderSpan rfl).1
  rw [hnone] at hid
  exact absurd hid nofun

end Rocketmq
end Mq
end ServiceKit
