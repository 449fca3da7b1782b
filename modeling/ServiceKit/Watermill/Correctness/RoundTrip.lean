import ServiceKit.Watermill.Correctness.Init
import ServiceKit.Watermill.Correctness.ServerBus
import ServiceKit.Watermill.Correctness.Serving
import ServiceKit.Watermill.Correctness.Settle
import ServiceKit.Watermill.Correctness.Subscribe

/-!
# `Correctness.RoundTrip` — what a payload comes out as

`mysqlchannel` stores base64 inside JSON, so every payload survives as long as the codec does. `Publish` needs no
subscriber map, so this holds of the Channel that `New` returns, where no handler is ever accepted, and of one whose
map is made (`Started`). `grpcchannel` puts the bytes into proto3 string fields, so `Publish` fails unless they are
valid UTF-8. On the way back `getDataFromMsg` ignores the error of `conv.Unmarshal`: a row that `Publish` did not
write is refused only when what stands in `Data` is not base64 by its syntax (`Base64.Valid`), and an empty `Data` is.
-/

namespace ServiceKit
namespace Watermill

open Lib
open Mysqlchannel (Conv plainConv getDataFromMsg encodePayload)

variable {H E : Type}

theorem withUUID_payload (newUUID : GoString) (msg : Message) :
    (msg.withUUID newUUID).payload = msg.payload := by
  unfold Message.withUUID
  split
  · rfl
  · rfl

/-! ## mysqlchannel -/

namespace Mysqlchannel

variable {V : Type} {cv : Conv V}

/-- The codec and base64 give the payload back, whatever pointer the row is read into. -/
theorem getDataFromMsg_encodePayload (hcv : cv.Inverts) (ptr : ℕ) (topic uuid payload : GoString) :
    getDataFromMsg cv ⟨ptr, uuid, encodePayload cv topic payload⟩ = some ⟨ptr, uuid, payload⟩ := by
  have hdata := hcv topic payload
  rw [getDataFromMsg_eq]
  show (Base64.decode (cv.string (cv.unmarshal (encodePayload cv topic payload)).data)).map _ = _
  unfold encodePayload
  rw [hdata, Base64.decode_encode]
  rfl

/-- A row is refused when its `Data` is not base64. -/
theorem getDataFromMsg_eq_none (m : Message) :
    getDataFromMsg cv m = none ↔ ¬ Base64.Valid (cv.string (cv.unmarshal m.payload).data) := by
  rw [getDataFromMsg_eq, Option.map_eq_none_iff, Base64.decode_eq_none_iff]

/-- The Channel that `New` returns, as it is or with its subscriber map made. -/
def Started (g₁ : Chan H E) : Prop :=
  ∃ conf openDB ping g₀, new conf openDB ping = .ok g₀ ∧ (g₁ = g₀ ∨ g₁ = withMap g₀)

theorem Started.fresh {g₁ : Chan H E} (hstart : Started g₁) : Fresh g₁ := by
  obtain ⟨conf, openDB, ping, g₀, hnew, rfl | rfl⟩ := hstart
  · exact (new_bare hnew).fresh
  · exact (new_bare hnew).withMap_fresh

/-- A call that returns needed no subscriber map, and it made none. -/
theorem step_keeps_bare {g g' : Chan H E} {l : Op H E × Ret E} (hb : Bare g) (hs : Step cv g l g') :
    Bare g' := by
  obtain ⟨op, ret⟩ := l
  cases hop : op.skipsSubscriberMap with
  | true =>
      obtain ⟨_, _, hstep, hb'⟩ := step_skips cv hb hop
      rwa [← (ok_pair_inj (hstep.symm.trans hs)).2]
  | false => exact absurd ((step_needs cv hb hop).symm.trans hs) nofun

/-- No call closes the database. -/
theorem Started.sqlDb {g₁ g : Chan H E} (hstart : Started g₁) {ls : List (Op H E × Ret E)}
    (hrun : Run (Step cv) g₁ ls g) : g.backend.sqlDb = true := by
  obtain ⟨conf, openDB, ping, g₀, hnew, rfl | rfl⟩ := hstart
  · have hbare : Bare g := hrun.preserves (new_bare hnew) (fun _ _ _ => step_keeps_bare)
    exact hbare.sqlDb
  · have hready : Ready HasSubscriberMap g :=
      hrun.preserves (new_bare hnew).withMap_ready (fun _ _ _ => step_keeps_ready)
    exact hready.backend.sqlDb

/-- The row that `Publish` inserts. -/
def row (cv : Conv V) (topic : GoString) (msg : Message) : Message :=
  { msg with payload := encodePayload cv topic msg.payload }

/-- Unless an external call fails, `Publish` inserts the row. -/
theorem publish_ok {g : Chan H E} (hdb : g.backend.sqlDb = true) (topic : GoString) (msg : Message)
    (newUUID : GoString) :
    ∃ table g', publish cv topic (some msg) newUUID none none g =
      (⟨(msg.withUUID newUUID).uuid, none, some (table, row cv topic (msg.withUUID newUUID))⟩, g') := by
  unfold publish getPublisher
  rw [if_neg (by rw [hdb]; nofun)]
  by_cases hpub : g.backend.publisher
  · rw [if_pos hpub]
    exact ⟨_, _, rfl⟩
  · rw [if_neg hpub]
    exact ⟨_, _, rfl⟩

/-- Every handler accepted for `topic` is called with `uuid` and `payload` when its loop takes the row. -/
def RowReaches (cv : Conv V) (stored : Message) (topic uuid payload : GoString) (g : Chan H E)
    (ls : List (Op H E × Ret E)) : Prop :=
  ∀ h, AcceptedIn (ls.map label) topic h → ∃ i, Serving g topic h i ∧
    ∀ ptr env ret g', Step cv g (.deliver i { stored with ptr := ptr } env, ret) g' →
      HandedTo g g' i { stored with ptr := ptr } h uuid payload

theorem row_reaches (hcv : cv.Inverts) {g₀ g : Chan H E} (hfresh : Fresh g₀)
    {ls : List (Op H E × Ret E)} (hrun : Run (Step cv) g₀ ls g) (topic : GoString) (msg : Message) :
    RowReaches cv (row cv topic msg) topic msg.uuid msg.payload g ls := by
  intro h hacc
  obtain ⟨i, hserv⟩ := run_serving hfresh (run_effect hrun) hacc
  refine ⟨i, hserv, ?_⟩
  intro ptr env ret g' hdel
  have hhanded := effect_handed hserv
    (getDataFromMsg_encodePayload hcv ptr topic msg.uuid msg.payload) (deliver_effect hdel)
  exact hhanded

end Mysqlchannel

/-! ## grpcchannel -/

namespace Grpcchannel

/-- The request that `Publish` sends. -/
def request (g : Backend) (topic : GoString) (msg : Message) : PbMessage :=
  { nameSpace := g.nameSpace, topic := topic, messageId := msg.uuid, messageContent := msg.payload }

/-- Unless an external call fails, `Publish` sends its request if and only if its fields are valid UTF-8. -/
theorem publish_ok_iff {g : Chan H E} (haddr : HasServerAddress g.backend) (topic : GoString)
    (msg : Message) (newUUID : GoString) (req : PbMessage) :
    (∃ g', publish topic (some msg) newUUID none none g
        = .ok (⟨(msg.withUUID newUUID).uuid, none, some req⟩, g')) ↔
      req = request g.backend topic (msg.withUUID newUUID) ∧ req.marshals = true := by
  obtain ⟨b, hget, hns⟩ : ∃ b, getClient (none : Option E) g.backend = .ok (.ok (), b) ∧
      b.nameSpace = g.backend.nameSpace := by
    unfold getClient getConnServer
    rw [if_neg haddr]
    split
    · exact ⟨_, rfl, rfl⟩
    · exact ⟨_, rfl, rfl⟩
  have hreq : (⟨b.nameSpace, topic, (msg.withUUID newUUID).uuid, (msg.withUUID newUUID).payload⟩ : PbMessage)
      = request g.backend topic (msg.withUUID newUUID) := by
    rw [hns]
    rfl
  unfold publish
  rw [hget]
  simp only [bind, Except.bind, hreq]
  -- marshalling decides
  split
  · next hm =>
      constructor
      · rintro ⟨g', hres⟩
        have hret := (ok_pair_inj hres).1
        rw [Ret.mk.injEq] at hret
        obtain rfl := Option.some.inj hret.2.2
        exact ⟨rfl, hm⟩
      · rintro ⟨rfl, _⟩
        exact ⟨_, rfl⟩
  · next hm =>
      constructor
      · rintro ⟨g', hres⟩
        have hret := (ok_pair_inj hres).1
        exact absurd (congrArg Ret.err hret) nofun
      · rintro ⟨rfl, hm'⟩
        exact absurd hm' hm

/-- Every handler accepted for `topic` is called with `uuid` and `payload` when its loop takes what a
    server sends of the request. -/
def RequestReaches (req : PbMessage) (topic uuid payload : GoString) (g : Chan H E)
    (ls : List (Op H E × Ret E)) : Prop :=
  ∀ h, AcceptedIn (ls.map label) topic h → ∃ i, Serving g topic h i ∧
    ∀ (srv : PubSubServer ℕ) seq ok, ∀ send ∈ srv.publishTo seq req ok, ∀ ptr env ret g',
      Step g (.deliver i (recvMessage ptr send.msg) env, ret) g' →
        HandedTo g g' i (recvMessage ptr send.msg) h uuid payload

theorem request_reaches {cfg : NewConfig} {g₀ g : Chan H E} (hnew : new cfg = .ok g₀)
    {ls : List (Op H E × Ret E)} (hrun : Run Step g₀ ls g) (topic : GoString) (req : PbMessage) :
    RequestReaches req topic req.messageId req.messageContent g ls := by
  intro h hacc
  have hfresh := (new_spec hnew).2
  obtain ⟨hall, heff⟩ := run_effect (allDispatch_of_fresh hfresh) hrun
  obtain ⟨i, hserv⟩ := run_serving hfresh heff hacc
  refine ⟨i, hserv, ?_⟩
  intro srv seq ok send hsend ptr env ret g' hdel
  have hmsg : send.msg = req := (mem_publishTo hsend).2.2
  have hhanded := effect_handed hserv rfl (deliver_effect hall hdel)
  rw [hmsg] at hhanded ⊢
  exact hhanded

end Grpcchannel

/-! ## The two Channels -/

/-- **Payload round trip.** `mysqlchannel` accepts every message, and every handler accepted in any of its
    Channels gets the id and the payload back. `grpcchannel` does exactly when namespace, topic, id and
    payload are valid UTF-8. And `getDataFromMsg` refuses a row that `Publish` did not write exactly when its
    `Data` is not base64. -/
theorem payload_roundTrip_iff {V : Type} {cv : Conv V} (hcv : cv.Inverts) :
    (∀ g₁ : Mysqlchannel.Chan H E, Mysqlchannel.Started g₁ →
      ∀ ls g, Run (Mysqlchannel.Step cv) g₁ ls g → ∀ topic msg newUUID,
        (∃ table g', Mysqlchannel.publish cv topic (some msg) newUUID none none g =
          (⟨(msg.withUUID newUUID).uuid, none,
            some (table, Mysqlchannel.row cv topic (msg.withUUID newUUID))⟩, g')) ∧
        ∀ g₁' : Mysqlchannel.Chan H E, Mysqlchannel.Started g₁' →
          ∀ ls' g₂, Run (Mysqlchannel.Step cv) g₁' ls' g₂ →
            Mysqlchannel.RowReaches cv (Mysqlchannel.row cv topic (msg.withUUID newUUID)) topic
              (msg.withUUID newUUID).uuid msg.payload g₂ ls') ∧
    (∀ cfg (g₀ : Grpcchannel.Chan H E), Grpcchannel.new cfg = .ok g₀ →
      ∀ ls g, Run Grpcchannel.Step g₀ ls g → ∀ topic msg newUUID,
        ((∃ g' req, Grpcchannel.publish topic (some msg) newUUID none none g =
            .ok (⟨(msg.withUUID newUUID).uuid, none, some req⟩, g') ∧
          ∀ cfg' (g₀' : Grpcchannel.Chan H E), Grpcchannel.new cfg' = .ok g₀' →
            ∀ ls' g₁, Run Grpcchannel.Step g₀' ls' g₁ →
              Grpcchannel.RequestReaches req topic (msg.withUUID newUUID).uuid msg.payload g₁ ls') ↔
          Grpcchannel.validUTF8 g.backend.nameSpace = true ∧ Grpcchannel.validUTF8 topic = true ∧
          Grpcchannel.validUTF8 (msg.withUUID newUUID).uuid = true ∧
          Grpcchannel.validUTF8 msg.payload = true)) ∧
    (∀ m, ((¬ ∃ topic payload, m.payload = encodePayload cv topic payload) → getDataFromMsg cv m = none) ↔
      (∃ topic payload, m.payload = encodePayload cv topic payload) ∨
        ¬ Base64.Valid (cv.string (cv.unmarshal m.payload).data)) := by
  refine ⟨?_, ?_, ?_⟩
  · intro g₁ hstart ls g hrun topic msg newUUID
    refine ⟨Mysqlchannel.publish_ok (hstart.sqlDb hrun) topic msg newUUID, ?_⟩
    intro g₁' hstart' ls' g₂ hrun'
    rw [← withUUID_payload newUUID msg]
    exact Mysqlchannel.row_reaches hcv hstart'.fresh hrun' topic (msg.withUUID newUUID)
  · intro cfg g₀ hnew ls g hrun topic msg newUUID
    have hready : Ready Grpcchannel.HasServerAddress g :=
      hrun.preserves (Grpcchannel.new_spec hnew).1 (fun _ _ _ => Grpcchannel.step_keeps_ready)
    have hvalid : (Grpcchannel.request g.backend topic (msg.withUUID newUUID)).marshals = true ↔
        Grpcchannel.validUTF8 g.backend.nameSpace = true ∧ Grpcchannel.validUTF8 topic = true ∧
        Grpcchannel.validUTF8 (msg.withUUID newUUID).uuid = true ∧
        Grpcchannel.validUTF8 msg.payload = true := by
      unfold Grpcchannel.PbMessage.marshals Grpcchannel.request
      rw [withUUID_payload]
      simp only [Bool.and_eq_true, and_assoc]
    rw [← hvalid]
    constructor
    · rintro ⟨g', req, hpub, _⟩
      obtain ⟨rfl, hm⟩ := (Grpcchannel.publish_ok_iff hready.backend topic msg newUUID req).mp ⟨g', hpub⟩
      exact hm
    · intro hm
      obtain ⟨g', hpub⟩ := (Grpcchannel.publish_ok_iff hready.backend topic msg newUUID _).mpr ⟨rfl, hm⟩
      refine ⟨g', _, hpub, ?_⟩
      intro cfg' g₀' hnew' ls' g₁ hrun'
      have hreach := Grpcchannel.request_reaches hnew' hrun' topic
        (Grpcchannel.request g.backend topic (msg.withUUID newUUID))
      rw [← withUUID_payload newUUID msg]
      exact hreach
  · intro m
    rw [Mysqlchannel.getDataFromMsg_eq_none]
    exact or_iff_not_imp_left.symm

/-! A subscription in each of the two, a message, and the loop that takes what came of it. -/

/-- A result that is known by what `f` reads off it. -/
theorem ok_of_map {α β : Type} {r : Except Stop α} {f : α → β} {b : β} (h : r.map f = .ok b) :
    ∃ a, r = .ok a ∧ f a = b := by
  cases r with
  | error stop => exact absurd h nofun
  | ok a => exact ⟨a, rfl, Except.ok.inj h⟩

theorem ok_of_isOk {α : Type} {r : Except Stop α} (h : r.isOk = true) : ∃ a, r = .ok a := by
  cases r with
  | error stop => exact absurd h nofun
  | ok a => exact ⟨a, rfl⟩

/-- The handler of the only accepted call has the only loop. -/
theorem serving_zero {B S H E X : Type} {g : Channel B S H E X} {topic : GoString} {h : H} {i : ℕ}
    (hserv : Serving g topic h i) (hlen : g.loops.length = 1) : i = 0 := by
  obtain ⟨loop, _, hloop, _⟩ := hserv
  have hlt := (List.getElem?_eq_some_iff.mp hloop).1
  omega

namespace Mysqlchannel

/-- One byte, and no UTF-8. -/
def odd : Message := ⟨0, str "axeee", [255]⟩

def oddRow : Message := { row plainConv (str "aaaa") odd with ptr := 1 }

/-- After `Subscribe`, the only loop takes the row of `odd`. -/
theorem oddRow_taken : ∃ ret g, Step plainConv (withMap (opened : Chan Unit Unit))
      (.subscribe (str "aaaa") () .ok, ret) g ∧ ret.err = none ∧ g.loops.length = 1 ∧
    ∃ ret' g', Step plainConv g (.deliver 0 oddRow allFail, ret') g' := by
  obtain ⟨⟨ret, g⟩, hsub, hread⟩ := ok_of_map
    (r := step plainConv (withMap (opened : Chan Unit Unit)) (.subscribe (str "aaaa") () .ok))
    (f := fun r => (r.1.err, r.2.loops.length, (step plainConv r.2 (.deliver 0 oddRow allFail)).isOk))
    (b := (none, 1, true)) rfl
  obtain ⟨herr, hlen, hok⟩ : ret.err = none ∧ g.loops.length = 1 ∧
      (step plainConv g (.deliver 0 oddRow allFail)).isOk = true := by simpa using hread
  obtain ⟨r, hdel⟩ := ok_of_isOk hok
  exact ⟨ret, g, hsub, herr, hlen, r.1, r.2, hdel⟩

end Mysqlchannel

namespace Grpcchannel

def order : Chan Unit Unit := newWith ⟨str ":31106", str "127.0.0.1:31106", str "order"⟩

def hello : Message := ⟨0, str "0", str "hello 0"⟩

/-- The server that has the stream of `order`'s subscription. -/
def oneSubscriber : PubSubServer ℕ :=
  PubSubServer.newPubSubServer.addSubscriber (PubSubServer.getCacheKey (str "order") (str "test")) 0

/-- After `Subscribe`, the only loop takes what the server sends of `hello`. -/
theorem hello_taken : ∃ ret g, Step order (.subscribe (str "test") () .ok, ret) g ∧
    ret.err = none ∧ g.loops.length = 1 ∧ ∃ ret' g',
      Step g (.deliver 0 (recvMessage 1 (request order.backend (str "test") hello)) (allFail _), ret') g' := by
  obtain ⟨⟨ret, g⟩, hsub, hread⟩ := ok_of_map
    (r := step order (.subscribe (str "test") () .ok))
    (f := fun r => (r.1.err, r.2.loops.length,
      (step r.2 (.deliver 0 (recvMessage 1 (request order.backend (str "test") hello)) (allFail _))).isOk))
    (b := (none, 1, true)) rfl
  obtain ⟨herr, hlen, hok⟩ : ret.err = none ∧ g.loops.length = 1 ∧
      (step g (.deliver 0 (recvMessage 1 (request order.backend (str "test") hello)) (allFail _))).isOk
        = true := by simpa using hread
  obtain ⟨r, hdel⟩ := ok_of_isOk hok
  exact ⟨ret, g, hsub, herr, hlen, r.1, r.2, hdel⟩

end Grpcchannel

/-- The payload `[255]` comes back from `mysqlchannel`, though the Channel it is published on has no
    subscriber map; `hello 0` comes back from `grpcchannel`; and the row `Publish` did not write is refused. -/
theorem payload_roundTrip_iff_delivered :
    (∃ table gp ret g ret' g',
      Mysqlchannel.publish plainConv (str "aaaa") (some Mysqlchannel.odd) [] none none
          (Mysqlchannel.opened : Mysqlchannel.Chan Unit Unit)
        = (⟨str "axeee", none, some (table, Mysqlchannel.row plainConv (str "aaaa") Mysqlchannel.odd)⟩, gp) ∧
      Mysqlchannel.Step plainConv (Mysqlchannel.withMap Mysqlchannel.opened)
        (.subscribe (str "aaaa") () .ok, ret) g ∧
      Mysqlchannel.Step plainConv g (.deliver 0 Mysqlchannel.oddRow Mysqlchannel.allFail, ret') g' ∧
      HandedTo g g' 0 Mysqlchannel.oddRow () (str "axeee") [255]) ∧
    (∃ req gp ret g ret' g',
      Grpcchannel.publish (str "test") (some Grpcchannel.hello) [] none none Grpcchannel.order
        = .ok (⟨str "0", none, some req⟩, gp) ∧
      Grpcchannel.Step Grpcchannel.order (.subscribe (str "test") () .ok, ret) g ∧
      (⟨0, str "order/test", 0, req, true⟩ : Grpcchannel.PubSubServer.Send ℕ)
        ∈ Grpcchannel.oneSubscriber.publishTo 0 req (fun _ => true) ∧
      Grpcchannel.Step g (.deliver 0 (Grpcchannel.recvMessage 1 req) (allFail _), ret') g' ∧
      HandedTo g g' 0 (Grpcchannel.recvMessage 1 req) () (str "0") (str "hello 0")) ∧
    getDataFromMsg plainConv ⟨0, str "axeee", badRow⟩ = none := by
  obtain ⟨hmysql, hgrpc, hrefuse⟩ :=
    payload_roundTrip_iff (H := Unit) (E := Unit) Mysqlchannel.plainConv_inverts
  have hnew : Mysqlchannel.new ⟨[], str "pubsub"⟩ (fun _ => none) none
      = .ok (Mysqlchannel.opened : Mysqlchannel.Chan Unit Unit) := rfl
  have horder : Grpcchannel.new ⟨str ":31106", str "127.0.0.1:31106", str "order"⟩
      = .ok Grpcchannel.order := rfl
  refine ⟨?_, ?_, ?_⟩
  · obtain ⟨ret, g, hsub, herr, hlen, ret', g', hdel⟩ := Mysqlchannel.oddRow_taken
    obtain ⟨⟨table, gp, hpub⟩, hreach⟩ := hmysql _ ⟨_, _, _, _, hnew, .inl rfl⟩ [] _ .nil (str "aaaa")
      Mysqlchannel.odd []
    obtain ⟨i, hserv, hhand⟩ := hreach _ ⟨_, _, _, _, hnew, .inr rfl⟩ _ g (.single hsub) ()
      (.inl (by simp [Mysqlchannel.label, Mysqlchannel.Op.act, herr]))
    obtain rfl := serving_zero hserv hlen
    exact ⟨table, gp, ret, g, ret', g', hpub, hsub, hdel, hhand 1 _ _ _ hdel⟩
  · obtain ⟨ret, g, hsub, herr, hlen, ret', g', hdel⟩ := Grpcchannel.hello_taken
    obtain ⟨gp, req, hpub, hreach⟩ := (hgrpc _ _ horder [] _ .nil (str "test") Grpcchannel.hello []).mpr
      (by decide)
    obtain rfl := ((Grpcchannel.publish_ok_iff (Grpcchannel.new_spec horder).1.backend _ _ _ _).mp
      ⟨gp, hpub⟩).1
    have hsend : (⟨0, str "order/test", 0, Grpcchannel.request Grpcchannel.order.backend (str "test")
        Grpcchannel.hello, true⟩ : Grpcchannel.PubSubServer.Send ℕ) ∈ Grpcchannel.oneSubscriber.publishTo 0
          (Grpcchannel.request Grpcchannel.order.backend (str "test") Grpcchannel.hello) (fun _ => true) := by
      decide
    obtain ⟨i, hserv, hhand⟩ := hreach _ _ horder _ g (.single hsub) ()
      (.inl (by simp [Grpcchannel.label, Grpcchannel.Op.act, herr]))
    obtain rfl := serving_zero hserv hlen
    exact ⟨_, gp, ret, g, ret', g', hpub, hsub, hsend, hdel, hhand _ 0 _ _ hsend 1 _ _ _ hdel⟩
  · apply (hrefuse ⟨0, str "axeee", badRow⟩).mpr
    · right
      rw [← Base64.decode_eq_none_iff]
      decide
    · rintro ⟨topic, payload, h⟩
      -- the row of a message is longer
      have hlen : badRow.length = (encodePayload plainConv topic payload).length := congrArg List.length h
      simp only [encodePayload, plainConv, Option.getD_some, List.length_append] at hlen
      have hshort : badRow.length = 12 := by decide
      have hmid : (str "\",\"message\":\"").length = 13 := by decide
      omega

/-- `grpcchannel` refuses the payload `[255]`; `mysqlchannel` delivers an empty payload for a row that
    has no `data`. -/
theorem payload_lost :
    (Grpcchannel.publish (str "test") (some ⟨0, str "0", [255]⟩) [] none none
        (Grpcchannel.newWith ⟨str ":31106", str "127.0.0.1:31106", str "order"⟩ : Grpcchannel.Chan Unit Unit)).map
          (fun r => r.1.err) = .ok (some (.text "string field contains invalid UTF-8")) ∧
    (¬ ∃ topic payload, str "\x7b\x7d" = encodePayload plainConv topic payload) ∧
    getDataFromMsg plainConv ⟨0, str "axeee", str "\x7b\x7d"⟩ = some ⟨0, str "axeee", []⟩ := by
  refine ⟨by decide, ?_, by decide⟩
  rintro ⟨topic, payload, h⟩
  have hsecond := congrArg (fun s => s.tail.head?) h
  exact absurd hsecond nofun

end Watermill
end ServiceKit
