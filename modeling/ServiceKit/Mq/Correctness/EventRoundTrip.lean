import ServiceKit.Mq.Correctness.GetChannel

/-!
# `Correctness.EventRoundTrip` — what a handler gets of a published event

`getPublishMessage` flattens the headers to one value per key, as `Get` finds it, and writes its own
`Content-Type`; the consumer sets the fields of the delivery under their canonical keys. The id, timestamp
and payload come through always, the headers exactly when they are flat (`Event.Flat`).
-/

namespace ServiceKit
namespace Mq

open Lib

/-- Headers that survive flattening: canonical keys, at most one value each, and no content type but `ct`. -/
def Event.Flat (ct : GoString) (event : Event) : Prop :=
  ∀ key values, event.fields.lookup key = some values →
    Header.canonicalKey key = key ∧ values.length ≤ 1 ∧
      (key = str "Content-Type" → ∀ value ∈ values, value = ct)

namespace Rabbitmq

variable {V O E : Type}

/-! ## The table of a message -/

theorem lookup_foldl_insert (f : GoString → V) (es : List (Σ _ : GoString, List GoString))
    (t : AList (fun _ : GoString => V)) (key : GoString) :
    (es.foldl (fun t e => t.insert e.1 (f e.1)) t).lookup key
      = if key ∈ es.map Sigma.fst then some (f key) else t.lookup key := by
  induction es generalizing t with
  | nil => rfl
  | cons e es ih =>
      rw [List.foldl_cons, ih, List.map_cons]
      by_cases hes : key ∈ es.map Sigma.fst
      · rw [if_pos hes, if_pos (List.mem_cons_of_mem _ hes)]
      · rw [if_neg hes]
        by_cases he : key = e.1
        · subst he
          rw [AList.lookup_insert, if_pos List.mem_cons_self]
        · rw [AList.lookup_insert_ne he, if_neg]
          rw [List.mem_cons, not_or]
          exact ⟨he, hes⟩

theorem mem_keys_iff (h : Header) (key : GoString) :
    key ∈ h.entries.map Sigma.fst ↔ ∃ values, h.lookup key = some values := by
  rw [← Option.isSome_iff_exists, AList.lookup_isSome]
  rfl

/-- The table has the keys of the headers, each with what `Get` finds for it. -/
theorem lookup_tableOf (cd : Codec V) (h : Header) (key : GoString) :
    (tableOf cd h).lookup key = (h.lookup key).map (fun _ => cd.ofString (h.get key)) := by
  unfold tableOf
  rw [lookup_foldl_insert (fun key => cd.ofString (h.get key))]
  cases hl : h.lookup key with
  | none =>
      rw [if_neg]
      · rfl
      · rw [mem_keys_iff, hl]
        rintro ⟨_, hsome⟩
        exact absurd hsome nofun
  | some values =>
      rw [if_pos ((mem_keys_iff h key).mpr ⟨values, hl⟩)]
      rfl

/-- The headers of the message: the table, with the content type of the payload over it. -/
theorem lookup_headers (cd : Codec V) (now : ℤ) (newUUID : GoString) (event : Event) (key : GoString) :
    (getPublishMessage cd now newUUID event).1.headers.lookup key
      = if key = str "Content-Type" then some (cd.ofString (contentType cd event.payload))
        else (event.fields.lookup key).map (fun _ => cd.ofString (event.fields.get key)) := by
  show ((tableOf cd event.fields).insert _ _).lookup key = _
  split
  · next h => rw [h, AList.lookup_insert]
  · next h => rw [AList.lookup_insert_ne h, lookup_tableOf]

/-! ## The headers of the received event -/

theorem sublist_singleton {values : List GoString} {v : GoString} (hlen : values.length ≤ 1)
    (hall : ∀ value ∈ values, value = v) : values.Sublist [v] := by
  cases values with
  | nil => exact List.nil_sublist _
  | cons value rest =>
      obtain rfl : rest = [] := List.eq_nil_of_length_eq_zero (by simpa using hlen)
      rw [hall value List.mem_cons_self]

/-- The entries of a table, as a range over it may list them. -/
def pairs (t : AList (fun _ : GoString => V)) : List (GoString × V) := t.entries.map (fun e => (e.1, e.2))

theorem mem_pairs {t : AList (fun _ : GoString => V)} {key : GoString} {v : V} :
    (key, v) ∈ pairs t ↔ t.lookup key = some v := by
  unfold pairs
  rw [List.mem_map, ← Option.mem_def, AList.mem_lookup_iff]
  constructor
  · rintro ⟨⟨key', v'⟩, he, heq⟩
    obtain ⟨rfl, rfl⟩ := Prod.mk.inj heq
    exact he
  · intro he
    exact ⟨⟨key, v⟩, he, rfl⟩

section Received

variable (cd : Codec V) (now : ℤ) (newUUID : GoString) (event : Event) {fields : List (GoString × V)}
  (hfields : fields.Perm (pairs (getPublishMessage cd now newUUID event).1.headers))

include hfields

/-- A field of the delivery: the content type, or what `Get` finds for a key of the event. -/
theorem mem_fields_iff (key : GoString) (v : V) :
    (key, v) ∈ fields ↔
      (key = str "Content-Type" ∧ v = cd.ofString (contentType cd event.payload)) ∨
      (key ≠ str "Content-Type" ∧ (∃ values, event.fields.lookup key = some values) ∧
        v = cd.ofString (event.fields.get key)) := by
  rw [hfields.mem_iff, mem_pairs, lookup_headers]
  by_cases hkey : key = str "Content-Type"
  · rw [if_pos hkey, Option.some_inj]
    constructor
    · rintro rfl
      exact Or.inl ⟨hkey, rfl⟩
    · rintro (⟨_, rfl⟩ | ⟨hne, _⟩)
      · rfl
      · exact absurd hkey hne
  · rw [if_neg hkey, Option.map_eq_some_iff]
    constructor
    · rintro ⟨values, hl, rfl⟩
      exact Or.inr ⟨hkey, ⟨values, hl⟩, rfl⟩
    · rintro (⟨heq, _⟩ | ⟨_, ⟨values, hl⟩, rfl⟩)
      · exact absurd heq hkey
      · exact ⟨values, hl, rfl⟩

/-- The handler's headers are all fields of the delivery, set one after the other. -/
theorem received_fields :
    (receiveEvent cd (getPublishMessage cd now newUUID event).1 fields).fields
      = Header.setAll ∅ (fields.map (fun e => (e.1, cd.string e.2))) := by
  have hmem := (mem_fields_iff cd now newUUID event hfields (str "Content-Type") _).mpr
    (Or.inl ⟨rfl, rfl⟩)
  have hpos : fields.length > 0 := List.length_pos_of_mem hmem
  unfold receiveEvent Event.fields
  rw [if_pos hpos]
  rfl

/-- Each key of the received headers is canonical and has one value: that of a field with this canonical
    form. -/
theorem lookup_received {key : GoString} {values : List GoString}
    (hl : (receiveEvent cd (getPublishMessage cd now newUUID event).1 fields).fields.lookup key
      = some values) : ∃ key' v, (key', v) ∈ fields ∧ Header.canonicalKey key' = key ∧
      values = [cd.string v] := by
  rw [received_fields cd now newUUID event hfields] at hl
  by_cases hmem : ∃ e ∈ fields.map (fun e => (e.1, cd.string e.2)), Header.canonicalKey e.1 = key
  · obtain ⟨e, he, hkey, hlook⟩ := Header.lookup_setAll_of_mem ∅ hmem
    obtain ⟨⟨key', v⟩, hin, rfl⟩ := List.mem_map.mp he
    rw [hlook] at hl
    exact ⟨key', v, hin, hkey, (Option.some.inj hl).symm⟩
  · rw [Header.lookup_setAll_of_forall_ne ∅ (fun e he heq => hmem ⟨e, he, heq⟩)] at hl
    exact absurd hl nofun

/-- A field reaches the received headers, or another with the same canonical form does. -/
theorem lookup_received_of_mem {key : GoString} {v : V} (hmem : (key, v) ∈ fields) :
    ∃ key' v', (key', v') ∈ fields ∧ Header.canonicalKey key' = Header.canonicalKey key ∧
      (receiveEvent cd (getPublishMessage cd now newUUID event).1 fields).fields.lookup
        (Header.canonicalKey key) = some [cd.string v'] := by
  rw [received_fields cd now newUUID event hfields]
  have hmem' : ∃ e ∈ fields.map (fun e => (e.1, cd.string e.2)),
      Header.canonicalKey e.1 = Header.canonicalKey key := ⟨_, List.mem_map.mpr ⟨_, hmem, rfl⟩, rfl⟩
  obtain ⟨e, he, hkey, hlook⟩ := Header.lookup_setAll_of_mem ∅ hmem'
  obtain ⟨⟨key', v'⟩, hin, rfl⟩ := List.mem_map.mp he
  exact ⟨key', v', hin, hkey, hlook⟩

/-- **The headers come through exactly when they are flat.** -/
theorem carried_iff_flat :
    event.CarriedBy (receiveEvent cd (getPublishMessage cd now newUUID event).1 fields).fields ↔
      event.Flat (contentType cd event.payload) := by
  constructor
  · intro hcar
    have hcanon : ∀ key values, event.fields.lookup key = some values → Header.canonicalKey key = key := by
      intro key values hl
      obtain ⟨values', hl', _⟩ := hcar key values hl
      obtain ⟨key', v, _, hkey, _⟩ := lookup_received cd now newUUID event hfields hl'
      rw [← hkey, Header.canonicalKey_canonicalKey]
    intro key values hl
    obtain ⟨values', hl', hsub⟩ := hcar key values hl
    obtain ⟨key', v, hin, hkey, rfl⟩ := lookup_received cd now newUUID event hfields hl'
    refine ⟨hcanon key values hl, hsub.length_le, ?_⟩
    intro hct value hvalue
    have hv : value = cd.string v := List.mem_singleton.mp (hsub.subset hvalue)
    rcases (mem_fields_iff cd now newUUID event hfields key' v).mp hin with
      ⟨_, rfl⟩ | ⟨hne, ⟨vs, hvs⟩, _⟩
    · rw [hv, cd.string_ofString]
    · -- the other keys of the event are canonical, so none of them stands for the content type
      rw [hcanon key' vs hvs] at hkey
      exact absurd (hkey.trans hct) hne
  · intro hflat key values hl
    obtain ⟨hcanon, hlen, hct⟩ := hflat key values hl
    obtain ⟨v, hmem⟩ : ∃ v, (key, v) ∈ fields := by
      by_cases hkey : key = str "Content-Type"
      · exact ⟨_, (mem_fields_iff cd now newUUID event hfields key _).mpr (Or.inl ⟨hkey, rfl⟩)⟩
      · exact ⟨_, (mem_fields_iff cd now newUUID event hfields key _).mpr (Or.inr ⟨hkey, ⟨values, hl⟩, rfl⟩)⟩
    obtain ⟨key', v', hin, hkey', hlook⟩ := lookup_received_of_mem cd now newUUID event hfields hmem
    rw [hcanon] at hkey' hlook
    refine ⟨_, hlook, ?_⟩
    -- the field that got through is the one of `key` itself
    rcases (mem_fields_iff cd now newUUID event hfields key' v').mp hin with
      ⟨rfl, rfl⟩ | ⟨_, ⟨vs, hvs⟩, rfl⟩
    · have hself : Header.canonicalKey (str "Content-Type") = str "Content-Type" := by decide
      rw [hself] at hkey'
      rw [cd.string_ofString]
      exact sublist_singleton hlen (hct hkey'.symm)
    · obtain ⟨hcanon', _⟩ := hflat key' vs hvs
      rw [hcanon'] at hkey'
      subst hkey'
      rw [← hcanon] at hl
      rw [cd.string_ofString, Header.get_of_lookup hl]
      refine sublist_singleton hlen (fun value hvalue => ?_)
      obtain ⟨value', rfl⟩ := List.length_eq_one_iff.mp (le_antisymm hlen (List.length_pos_of_mem hvalue))
      exact List.mem_singleton.mp hvalue

end Received

/-! ## Publish and receive -/

/-- The handler's event `got` is `event`, which was published under `id`. -/
structure RoundTrips (event : Event) (id : GoString) (got : Event) : Prop where
  id : got.id = if event.id = [] then id else event.id
  timestamp : got.timestamp = event.timestamp
  payload : got.payload = event.payload
  headers : event.CarriedBy got.fields

/-- `Publish` only puts its own message into queues, and then returns the id of it. -/
theorem publish_routed (cd : Codec V) (now : ℤ) (newUUID : GoString) (event : Event)
    (faults : PublishFaults E) (p : RabbitMQPublisher O) (b : Broker O V) :
    ∃ queues : List GoString,
      (p.publish cd now newUUID (some event) faults b).2.2.routed
        = b.routed ++ queues.map (fun q => (q, (getPublishMessage cd now newUUID event).1)) ∧
      (queues ≠ [] → (p.publish cd now newUUID (some event) faults b).1.id
        = (getPublishMessage cd now newUUID event).1.messageId) := by
  have hsent := publish_sent cd now newUUID event faults p b
  generalize p.publish cd now newUUID (some event) faults b = res at hsent ⊢
  obtain ⟨ret, p', b'⟩ := res
  cases hsent with
  | noChannel hgot => exact ⟨[], hgot.routed.trans (List.append_nil _).symm, fun h => absurd rfl h⟩
  | sent _ hgot _ _ =>
      obtain ⟨queues, hroute⟩ := Amqp.Broker.route_routed p.cfg.exchange p.cfg.routingKey
        (getPublishMessage cd now newUUID event).1 _
      refine ⟨queues, hroute.trans ?_, fun _ => rfl⟩
      exact congrArg (· ++ _) hgot.routed
  | refused _ hgot _ => exact ⟨[], hgot.routed.trans (List.append_nil _).symm, fun _ => rfl⟩

/-- **An event round-trips exactly when its headers are flat.** -/
theorem event_roundTrip_iff (cd : Codec V) (now : ℤ) (newUUID : GoString) (event : Event)
    (hts : event.timestamp > 0) (faults : PublishFaults E) (p : RabbitMQPublisher O) (b : Broker O V) :
    ∃ sent : List (GoString × Publishing V),
      (p.publish cd now newUUID (some event) faults b).2.2.routed = b.routed ++ sent ∧
      ∀ d ∈ sent, ∀ fields : List (GoString × V), fields.Perm (pairs d.2.headers) →
        (RoundTrips event (p.publish cd now newUUID (some event) faults b).1.id
            (receiveEvent cd d.2 fields) ↔
          event.Flat (contentType cd event.payload)) := by
  obtain ⟨queues, hrouted, hid⟩ := publish_routed cd now newUUID event faults p b
  refine ⟨_, hrouted, ?_⟩
  intro d hd fields hfields
  obtain ⟨q, hq, rfl⟩ := List.mem_map.mp hd
  rw [hid (List.ne_nil_of_mem hq), ← carried_iff_flat cd now newUUID event hfields]
  constructor
  · exact RoundTrips.headers
  · intro hcar
    refine ⟨?_, if_pos hts, rfl, hcar⟩
    show (if event.id = [] then newUUID else event.id)
      = if event.id = [] then (if event.id = [] then newUUID else event.id) else event.id
    split
    · rfl
    · rfl

/-! ## A queue behind a fanout exchange -/

/-- A broker with the queue `orders` bound to the fanout exchange `events`. -/
def ordersBroker : Broker Unit GoString :=
  { eventsBroker with
    queues := [str "orders"]
    bindings := [⟨str "orders", [], str "events"⟩] }

def ordersPublisher : RabbitMQPublisher Unit := ⟨newRabbitMQClient (), eventsConfig⟩

/-- An event with one header. -/
def eventWith (key value : GoString) : Event :=
  { id := str "4"
    topic := []
    timestamp := 1700000000
    headers := some (AList.singleton key [value])
    payload := str "hello" }

theorem lookup_eventWith {key value key' : GoString} {values : List GoString}
    (hl : (eventWith key value).fields.lookup key' = some values) : key' = key ∧ values = [value] := by
  have hmem : (⟨key', values⟩ : Σ _ : GoString, List GoString) ∈ [⟨key, [value]⟩] :=
    AList.mem_lookup_iff.mp hl
  obtain ⟨rfl, hvalues⟩ := Sigma.mk.inj (List.mem_singleton.mp hmem)
  exact ⟨rfl, eq_of_heq hvalues⟩

theorem ordersBroker_publish (key value : GoString) :
    (ordersPublisher.publish (E := Unit) (Codec.strings (fun _ => false)) 0 [] (some (eventWith key value))
        .ok ordersBroker).2.2.routed
      = [(str "orders",
          (getPublishMessage (Codec.strings (fun _ => false)) 0 [] (eventWith key value)).1)] := rfl

/-- An event with the header `A` comes through. -/
theorem event_roundTrip_canonical :
    ∃ d, (ordersPublisher.publish (E := Unit) (Codec.strings (fun _ => false)) 0 []
        (some (eventWith (str "A") (str "4444"))) .ok ordersBroker).2.2.routed = [(str "orders", d)] ∧
      ∀ fields : List (GoString × GoString), fields.Perm (pairs d.headers) →
        RoundTrips (eventWith (str "A") (str "4444")) (str "4")
          (receiveEvent (Codec.strings (fun _ => false)) d fields) := by
  obtain ⟨sent, hrouted, hiff⟩ := event_roundTrip_iff (E := Unit) (Codec.strings (fun _ => false)) 0 []
    (eventWith (str "A") (str "4444")) (by decide) .ok ordersPublisher ordersBroker
  refine ⟨_, ordersBroker_publish (str "A") (str "4444"), ?_⟩
  intro fields hfields
  rw [ordersBroker_publish] at hrouted
  have hsent : sent = [_] := hrouted.symm
  refine (hiff _ (hsent ▸ List.mem_singleton_self _) fields hfields).mpr ?_
  intro key values hl
  obtain ⟨rfl, rfl⟩ := lookup_eventWith hl
  exact ⟨by decide, by decide, by decide⟩

/-- An event with the header `a` reaches the queue, and no handler gets the header back: it is under `A`. -/
theorem event_roundTrip_lowercase :
    ¬ ∀ d ∈ (ordersPublisher.publish (E := Unit) (Codec.strings (fun _ => false)) 0 []
        (some (eventWith (str "a") (str "4444"))) .ok ordersBroker).2.2.routed,
      ∃ fields : List (GoString × GoString), fields.Perm (pairs d.2.headers) ∧
        RoundTrips (eventWith (str "a") (str "4444")) (str "4")
          (receiveEvent (Codec.strings (fun _ => false)) d.2 fields) := by
  intro hall
  rw [ordersBroker_publish] at hall
  obtain ⟨fields, hfields, hround⟩ := hall _ (List.mem_singleton_self _)
  have hflat := (carried_iff_flat _ 0 [] _ hfields).mp hround.headers
  have hcanon : Header.canonicalKey (str "a") = str "a" := (hflat (str "a") [str "4444"] rfl).1
  exact absurd hcanon (by decide)

end Rabbitmq
end Mq
end ServiceKit
