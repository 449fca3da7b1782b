import ServiceKit.Consul.Client

/-!
# `Consul.Interleaving` — the calls of a client and its watch loop, step by step

`Consul.Client` gives each function of `consul/client.go` as one step. Here the calls of several goroutines and the
watch loop are interleaved: a step reads or writes one of the client's maps, or none. `Get` and `BatchGet` load one key
after the other, `StartWatchService` writes the callback and then the options, and the loop reads the options of a key,
polls it, and writes them back.
-/

namespace ServiceKit
namespace Consul

open Lib

variable {Q C V E : Type}

/-! ## The parts of the functions -/

namespace ConsulClient

/-- The options that `loadOneData` polls with. -/
def param (key : String) (qo : Option Q) (cu : ConsulClient Q C) : Option Q :=
  match qo with
  | none => cu.queryOption.get key
  | some qo => some qo

/-- `loadOneData`, once `KV().Get` has returned: where it did not fail, the options it was called with are kept. -/
def store {α : Type} (key : String) (qo : Option Q) (reply : Except E α) (cu : ConsulClient Q C) : ConsulClient Q C :=
  match reply, qo with
  | .ok _, some qo => { cu with queryOption := cu.queryOption.set key qo }
  | .ok _, none => cu
  | .error _, _ => cu

/-- `StartWatchService`, up to the callback. -/
def register (key : String) (f : C) (cu : ConsulClient Q C) : ConsulClient Q C :=
  { cu with watchCallback := cu.watchCallback.set key f }

/-- `StartWatchService`, from the options on. -/
def configure (key : String) (qo : Option Q) (cu : ConsulClient Q C) : ConsulClient Q C :=
  let cu :=
    match qo with
    | none => cu
    | some qo => { cu with queryOption := cu.queryOption.set key qo }
  { cu with once := true }

/-- The loop's visit of a key, once `KV().Get` has returned an index. -/
def replied (key : String) (qo : Option Q) (reply : Except E (Option ℕ)) (cu : ConsulClient Q C) : ConsulClient Q C :=
  let version :=
    match reply with
    | .ok (some index) =>
        if cu.queryVersion.get key = some index then cu.queryVersion else cu.queryVersion.set key index
    | _ => cu.queryVersion
  { cu.store key qo reply with queryVersion := version }

section Maps

variable (key : String) (qo : Option Q) (f : C) (reply : Except E (Option ℕ)) (cu : ConsulClient Q C)

@[simp] theorem store_once {α : Type} (reply : Except E α) : (cu.store key qo reply).once = cu.once := by
  unfold store
  split <;> simp

@[simp] theorem store_watchCallback {α : Type} (reply : Except E α) :
    (cu.store key qo reply).watchCallback = cu.watchCallback := by
  unfold store
  split <;> simp

@[simp] theorem store_queryVersion {α : Type} (reply : Except E α) :
    (cu.store key qo reply).queryVersion = cu.queryVersion := by
  unfold store
  split <;> simp

theorem store_update {α : Type} (reply : Except E α) :
    { cu.store key qo reply with queryVersion := cu.queryVersion } = cu.store key qo reply := by
  unfold store
  split
  · rfl
  · rfl
  · rfl

theorem store_map {α β : Type} (g : α → β) (reply : Except E α) :
    cu.store key qo (reply.map g) = cu.store key qo reply := by
  cases reply with
  | error err => simp [store, Except.map]
  | ok a => cases qo <;> simp [store, Except.map]

@[simp] theorem replied_once : (cu.replied key qo reply).once = cu.once := by simp [replied]

@[simp] theorem replied_watchCallback : (cu.replied key qo reply).watchCallback = cu.watchCallback := by simp [replied]

@[simp] theorem replied_queryOption : (cu.replied key qo reply).queryOption = (cu.store key qo reply).queryOption := by
  simp [replied]

@[simp] theorem configure_once : (cu.configure key qo).once = true := by simp [configure]

@[simp] theorem configure_watchCallback : (cu.configure key qo).watchCallback = cu.watchCallback := by
  unfold configure
  split <;> simp

@[simp] theorem register_once : (cu.register key f).once = cu.once := by simp [register]

@[simp] theorem register_queryOption : (cu.register key f).queryOption = cu.queryOption := by simp [register]

end Maps

/-! The functions of `Consul.Client` are these parts, one after the other. -/

theorem loadOneData_client (key : String) (qo : Option Q) (get : Option Q → Except E (Option (V × ℕ)))
    (cu : ConsulClient Q C) : (cu.loadOneData key qo get).2 = cu.store key qo (get (cu.param key qo)) := by
  cases qo with
  | none =>
      cases hget : get (cu.queryOption.get key) with
      | error err => simp [loadOneData, param, store, hget]
      | ok pair => cases pair <;> simp [loadOneData, param, store, hget]
  | some qo =>
      cases hget : get (some qo) with
      | error err => simp [loadOneData, param, store, hget]
      | ok pair => cases pair <;> simp [loadOneData, param, store, hget]

/-- What `loadOneData` returns, by what was polled. -/
theorem loadOneData_result (key : String) (qo : Option Q) (get : Option Q → Except E (Option (V × ℕ)))
    (cu : ConsulClient Q C) :
    (cu.loadOneData key qo get).1 =
      match get (cu.param key qo) with
      | .error err => .error (.external err)
      | .ok none => .error (.text ("key " ++ key ++ " not found"))
      | .ok (some pair) => .ok pair := by
  cases qo with
  | none =>
      cases hget : get (cu.queryOption.get key) with
      | error err => simp [loadOneData, param, hget]
      | ok pair => cases pair <;> simp [loadOneData, param, hget]
  | some qo =>
      cases hget : get (some qo) with
      | error err => simp [loadOneData, param, hget]
      | ok pair => cases pair <;> simp [loadOneData, param, hget]

/-- A visit replies with the index that it loaded. -/
theorem visit_client (key : String) (cb : C) (get : Option Q → Except E (Option (V × ℕ))) (result : Option E)
    (cu : ConsulClient Q C) :
    (cu.visit key cb get result).2 =
      cu.replied key (cu.queryOption.get key)
        ((get (cu.param key (cu.queryOption.get key))).map fun pair => pair.map Prod.snd) := by
  have hload : cu.loadOneData key (cu.queryOption.get key) get =
      (_, cu.store key (cu.queryOption.get key) (get (cu.param key (cu.queryOption.get key)))) :=
    Prod.ext (loadOneData_result key (cu.queryOption.get key) get cu)
      (loadOneData_client key (cu.queryOption.get key) get cu)
  unfold visit replied
  rw [hload, store_map]
  rcases get (cu.param key (cu.queryOption.get key)) with err | _ | ⟨value, index⟩
  · exact (store_update key (cu.queryOption.get key) cu (Except.error err : Except E (Option (V × ℕ)))).symm
  · exact (store_update key (cu.queryOption.get key) cu (Except.ok none : Except E (Option (V × ℕ)))).symm
  · by_cases hindex : cu.queryVersion.get key = some index
    · simp only [Except.map, Option.map_some, store_queryVersion, hindex, if_true, store_update]
    · simp only [Except.map, Option.map_some, store_queryVersion, hindex, if_false]

theorem startWatchService_client {key : String} (hkey : key ≠ "") (f : C) (qo : Option Q) (cu : ConsulClient Q C) :
    (cu.startWatchService (E := E) key (some f) qo).2 = (cu.register key f).configure key qo := by
  cases qo with
  | none => simp [startWatchService, hkey, register, configure]
  | some qo => simp [startWatchService, hkey, register, configure]

end ConsulClient

/-! ## Goroutines -/

/-- A call under way. -/
inductive Pending (Q C : Type) where
  /-- `StartWatchService`, with the callback written. -/
  | starts (key : String) (qo : Option Q)
  /-- `BatchGet` between two keys, or `Get` with its one key: those that are left. -/
  | gets (keys : List String) (qo : Option Q)
  /-- It polls `key` with `param`. -/
  | loads (key : String) (qo param : Option Q) (keys : List String)

/-- The visit of a key under way. -/
inductive Visiting (Q : Type) where
  /-- No options were found: `loadOneData` looks once more. -/
  | rereads (key : String)
  /-- It polls the key, and was called with `qo`. -/
  | polls (key : String) (qo : Option Q)

def Visiting.key : Visiting Q → String
  | .rereads key => key
  | .polls key _ => key

/-- A round of the loop; `started` are the options that were set when it began. -/
structure Tour (Q : Type) where
  due : List String
  visited : List String
  started : String → Option Q
  visiting : Option (Visiting Q)

/-- A client, the calls on it and its loop; `started` gives, for a key, the options of the last `StartWatchService` with
    some that has returned. -/
structure Service (Q C : Type) where
  client : ConsulClient Q C
  calls : ℕ → Option (Pending Q C)
  round : Option (Tour Q)
  started : String → Option Q

def Service.init : Service Q C := ⟨newConsulClient, fun _ => none, none, fun _ => none⟩

/-- A step of goroutine `g`, or of the loop. -/
inductive Action (Q C E : Type) where
  | startWatch (g : ℕ) (key : String) (f : C) (qo : Option Q)
  | startReturns (g : ℕ)
  | batchGet (g : ℕ) (keys : List String) (qo : Option Q)
  | load (g : ℕ)
  | loaded (g : ℕ) (reply : Except E (Option ℕ))
  | begin
  | visit (key : String)
  | reread
  | reply (reply : Except E (Option ℕ))
  | finish

/-- `BatchGet`, with the keys that are left. -/
def Pending.remaining (keys : List String) (qo : Option Q) : Option (Pending Q C) :=
  if keys = [] then none else some (.gets keys qo)

namespace Service

/-- The call of `g` has got to `pending`, and the client to `cu`. -/
def advance (s : Service Q C) (g : ℕ) (pending : Option (Pending Q C)) (cu : ConsulClient Q C) : Service Q C :=
  { s with client := cu, calls := Function.update s.calls g pending }

/-- The options of `StartWatchService` count once it returns. -/
def restart (s : Service Q C) (key : String) (qo : Option Q) : Service Q C :=
  { s with started := if qo.isSome then Function.update s.started key qo else s.started }

/-- The first read of a visit. -/
def firstRead (s : Service Q C) (key : String) : Visiting Q :=
  match s.client.queryOption.get key with
  | none => .rereads key
  | some qo => .polls key (some qo)

end Service

/-- One step. A visit holds the lock of its key's shard of the callbacks; `shard` is the hash of the keys. -/
inductive Takes (shard : String → ℕ) : Service Q C → Action Q C E → Service Q C → Prop where
  | startWatch {s} (g : ℕ) (key : String) (f : C) (qo : Option Q) (hidle : s.calls g = none) (hkey : key ≠ "")
      (hlock : ∀ r v, s.round = some r → r.visiting = some v → shard v.key ≠ shard key) :
      Takes shard s (.startWatch g key f qo) (s.advance g (some (.starts key qo)) (s.client.register key f))
  | startReturns {s key qo} (g : ℕ) (hcall : s.calls g = some (.starts key qo)) :
      Takes shard s (.startReturns g) ((s.advance g none (s.client.configure key qo)).restart key qo)
  | batchGet {s} (g : ℕ) (keys : List String) (qo : Option Q) (hidle : s.calls g = none) :
      Takes shard s (.batchGet g keys qo) (s.advance g (Pending.remaining keys qo) s.client)
  | load {s key keys qo} (g : ℕ) (hcall : s.calls g = some (.gets (key :: keys) qo)) :
      Takes shard s (.load g) (s.advance g (some (.loads key qo (s.client.param key qo) keys)) s.client)
  | loaded {s key keys qo param} (g : ℕ) (reply : Except E (Option ℕ))
      (hcall : s.calls g = some (.loads key qo param keys)) :
      Takes shard s (.loaded g reply)
        (s.advance g (Pending.remaining keys qo) (s.client.store key qo reply))
  | begin {s} (honce : s.client.once = true) (hsleep : s.round = none) :
      Takes shard s .begin { s with round := some ⟨s.client.watchCallback.items.map Prod.fst, [], s.started, none⟩ }
  | visit {s r key cb} (hround : s.round = some r) (hfree : r.visiting = none)
      (hcb : s.client.watchCallback.get key = some cb) (hnew : key ∉ r.visited) :
      Takes shard s (.visit key) { s with round := some { r with visiting := some (s.firstRead key) } }
  | reread {s r key} (hround : s.round = some r) (hvisiting : r.visiting = some (.rereads key)) :
      Takes shard s .reread { s with round := some { r with visiting := some (.polls key none) } }
  | reply {s r key qo} (reply : Except E (Option ℕ)) (hround : s.round = some r)
      (hvisiting : r.visiting = some (.polls key qo)) :
      Takes shard s (.reply reply)
        { s with
          client := s.client.replied key qo reply
          round := some { r with visited := key :: r.visited, visiting := none } }
  | finish {s r} (hround : s.round = some r) (hfree : r.visiting = none) (hall : ∀ key ∈ r.due, key ∈ r.visited) :
      Takes shard s .finish { s with round := none }

end Consul
end ServiceKit
