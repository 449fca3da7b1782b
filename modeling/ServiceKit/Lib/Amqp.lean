import Mathlib.Data.List.Dedup
import Mathlib.Data.List.Infix

/-!
# `Lib.Amqp` — an AMQP broker, as far as its clients see it

Exchanges, queues, bindings, the messages routed into queues, and the channels opened by each owner. A
call goes over a channel. On a closed channel it fails; when the broker refuses it, or the call names an
exchange or queue that was not declared, it fails and the broker closes the channel; else it takes effect.
`refused` is the broker's own reason to refuse, an input of the call.

Of the client library and the protocol this relies on what they document: a channel exception closes the channel
and no other; a declaration that repeats an earlier one changes nothing, and one that contradicts it is an exception;
to publish to an exchange, or to bind a queue, that was not declared is an exception.
-/

namespace ServiceKit
namespace Lib
namespace Amqp

abbrev Name := List UInt8

/-- The kinds of exchange. -/
inductive Kind where
  | direct
  | fanout
  | topic
  | headers
  deriving DecidableEq

structure Binding where
  queue : Name
  key : Name
  exchange : Name
  deriving DecidableEq

/-- A channel: who opened it, and whether it is open. -/
structure Channel (O : Type) where
  owner : O
  isOpen : Bool
  deriving DecidableEq

/-- `M` is the type of messages, `O` that of the owners of channels. -/
structure Broker (O M : Type) where
  exchanges : List (Name × Kind)
  queues : List Name
  bindings : List Binding
  routed : List (Name × M)
  channels : List (Channel O)

/-- Why a call failed. -/
inductive CallErr (E : Type) where
  | closed
  | notFound
  | preconditionFailed
  | refused (err : E)
  deriving DecidableEq

variable {O M E : Type}

namespace Broker

/-- A broker with nothing on it. -/
def empty : Broker O M := ⟨[], [], [], [], []⟩

/-- Channel `ch` is open. -/
def isOpen (b : Broker O M) (ch : ℕ) : Bool := (b.channels[ch]?.map Channel.isOpen).getD false

/-- The number of open channels of an owner. -/
def openOf [DecidableEq O] (b : Broker O M) (o : O) : ℕ :=
  b.channels.countP (fun c => decide (c.owner = o) && c.isOpen)

def closeChannel (b : Broker O M) (ch : ℕ) : Broker O M :=
  { b with channels := b.channels.modify ch (fun c => { c with isOpen := false }) }

/-- Open a channel. -/
def openChannel (o : O) (refused : Option E) (b : Broker O M) : Except E ℕ × Broker O M :=
  match refused with
  | some err => (.error err, b)
  | none => (.ok b.channels.length, { b with channels := b.channels ++ [⟨o, true⟩] })

/-- A call over channel `ch` that needs `missing = none` and has the effect `f`. -/
def call (ch : ℕ) (refused : Option E) (missing : Option (CallErr E)) (f : Broker O M → Broker O M)
    (b : Broker O M) : Option (CallErr E) × Broker O M :=
  if b.isOpen ch then
    match refused, missing with
    | some err, _ => (some (.refused err), b.closeChannel ch)
    | none, some err => (some err, b.closeChannel ch)
    | none, none => (none, f b)
  else (some .closed, b)

def kindOf (b : Broker O M) (exchange : Name) : Option Kind := b.exchanges.lookup exchange

def addQueue (name : Name) (b : Broker O M) : Broker O M :=
  if name ∈ b.queues then b else { b with queues := b.queues ++ [name] }

def queueDeclare (ch : ℕ) (name : Name) (refused : Option E) (b : Broker O M) :
    Option (CallErr E) × Broker O M :=
  call ch refused none (addQueue name) b

def addExchange (name : Name) (kind : Kind) (b : Broker O M) : Broker O M :=
  if (b.kindOf name).isSome then b else { b with exchanges := b.exchanges ++ [(name, kind)] }

/-- To declare an exchange again is an error if it is of another kind. -/
def exchangeDeclare (ch : ℕ) (name : Name) (kind : Kind) (refused : Option E) (b : Broker O M) :
    Option (CallErr E) × Broker O M :=
  call ch refused (if (b.kindOf name).getD kind = kind then none else some .preconditionFailed)
    (addExchange name kind) b

def addBinding (bind : Binding) (b : Broker O M) : Broker O M :=
  if bind ∈ b.bindings then b else { b with bindings := b.bindings ++ [bind] }

def queueBind (ch : ℕ) (bind : Binding) (refused : Option E) (b : Broker O M) :
    Option (CallErr E) × Broker O M :=
  call ch refused (if (b.kindOf bind.exchange).isSome ∧ bind.queue ∈ b.queues then none else some .notFound)
    (addBinding bind) b

/-- A topic pattern against a routing key, both split into words: `*` (42) stands for one word, `#` (35)
    for any number. -/
def topicMatches : List Name → List Name → Bool
  | [], [] => true
  | [], _ :: _ => false
  | p :: ps, ks =>
      if p = [35] then ks.tails.any (topicMatches ps)
      else
        match ks with
        | [] => false
        | k :: ks => (p = [42] || p = k) && topicMatches ps ks

/-- A message with routing key `key` goes through a binding with key `pattern`. -/
def Kind.routes (kind : Kind) (pattern key : Name) : Bool :=
  match kind with
  | .direct => pattern = key
  | .fanout => true
  | .topic => topicMatches (pattern.splitOn 46) (key.splitOn 46)
  -- a binding without arguments asks for no header
  | .headers => true

/-- The queues that a message reaches, each once. -/
def destinations (b : Broker O M) (exchange key : Name) (kind : Kind) : List Name :=
  ((b.bindings.filter (fun bind => bind.exchange = exchange && Kind.routes kind bind.key key)).map
    Binding.queue).dedup

/-- Put the message into every queue it reaches. -/
def route (exchange key : Name) (msg : M) (b : Broker O M) : Broker O M :=
  match b.kindOf exchange with
  | none => b
  | some kind =>
      { b with routed := b.routed ++ (b.destinations exchange key kind).map (fun q => (q, msg)) }

/-- Publish on an exchange. -/
def publish (ch : ℕ) (exchange key : Name) (msg : M) (refused : Option E) (b : Broker O M) :
    Option (CallErr E) × Broker O M :=
  call ch refused (if (b.kindOf exchange).isSome then none else some .notFound) (route exchange key msg) b

/-- Ask for the messages of a queue. -/
def consume (ch : ℕ) (queue : Name) (refused : Option E) (b : Broker O M) :
    Option (CallErr E) × Broker O M :=
  call ch refused (if queue ∈ b.queues then none else some .notFound) id b

/-! ## Calls -/

/-- The broker, with one more channel. -/
def opened (o : O) (isOpen : Bool) (b : Broker O M) : Broker O M :=
  { b with channels := b.channels ++ [⟨o, isOpen⟩] }

@[simp] theorem kindOf_opened (o : O) (isOpen : Bool) (b : Broker O M) (exchange : Name) :
    (b.opened o isOpen).kindOf exchange = b.kindOf exchange := rfl

theorem opened_inj {o : O} {isOpen : Bool} {b b' : Broker O M} (h : b.opened o isOpen = b'.opened o isOpen) :
    b = b' := by
  obtain ⟨_, _, _, _, _⟩ := b
  obtain ⟨_, _, _, _, _⟩ := b'
  simpa [opened] using h

theorem isOpen_opened (o : O) (isOpen : Bool) (b : Broker O M) :
    (b.opened o isOpen).isOpen b.channels.length = isOpen := by
  simp [Broker.isOpen, opened]

/-- An open channel counts for its owner. -/
theorem openOf_opened [DecidableEq O] (o : O) (isOpen : Bool) (b : Broker O M) (o' : O) :
    (b.opened o isOpen).openOf o' = b.openOf o' + if o = o' ∧ isOpen = true then 1 else 0 := by
  unfold openOf opened
  simp [List.countP_append, List.countP_cons]

theorem openOf_congr [DecidableEq O] {b b' : Broker O M} (h : b'.channels = b.channels) (o : O) :
    b'.openOf o = b.openOf o := by
  unfold openOf
  rw [h]

theorem closeChannel_opened (o : O) (isOpen : Bool) (b : Broker O M) :
    (b.opened o isOpen).closeChannel b.channels.length = b.opened o false := by
  simp [closeChannel, opened, List.modify_eq_take_drop]

/-- What becomes of a call on the channel opened last: it takes effect, or the channel is closed. -/
theorem call_opened (o : O) (refused : Option E) (missing : Option (CallErr E))
    (f : Broker O M → Broker O M) (b : Broker O M) :
    (refused = none ∧ missing = none ∧
        call b.channels.length refused missing f (b.opened o true) = (none, f (b.opened o true))) ∨
      ((refused ≠ none ∨ missing ≠ none) ∧
        ∃ err, call b.channels.length refused missing f (b.opened o true) = (some err, b.opened o false)) := by
  unfold call
  rw [if_pos (isOpen_opened o true b), closeChannel_opened]
  cases refused with
  | some err => exact Or.inr ⟨Or.inl nofun, _, rfl⟩
  | none =>
      cases missing with
      | some err => exact Or.inr ⟨Or.inr nofun, _, rfl⟩
      | none => exact Or.inl ⟨rfl, rfl, rfl⟩

theorem addQueue_opened (o : O) (isOpen : Bool) (name : Name) (b : Broker O M) :
    addQueue name (b.opened o isOpen) = (addQueue name b).opened o isOpen := by
  unfold addQueue opened
  split
  · rfl
  · rfl

theorem addExchange_opened (o : O) (isOpen : Bool) (name : Name) (kind : Kind) (b : Broker O M) :
    addExchange name kind (b.opened o isOpen) = (addExchange name kind b).opened o isOpen := by
  unfold addExchange opened kindOf
  split
  · rfl
  · rfl

theorem addBinding_opened (o : O) (isOpen : Bool) (bind : Binding) (b : Broker O M) :
    addBinding bind (b.opened o isOpen) = (addBinding bind b).opened o isOpen := by
  unfold addBinding opened
  split
  · rfl
  · rfl

theorem route_opened (o : O) (isOpen : Bool) (exchange key : Name) (msg : M) (b : Broker O M) :
    route exchange key msg (b.opened o isOpen) = (route exchange key msg b).opened o isOpen := by
  unfold route
  rw [kindOf_opened]
  cases b.kindOf exchange with
  | none => rfl
  | some kind => rfl

theorem addQueue_channels (name : Name) (b : Broker O M) : (b.addQueue name).channels = b.channels := by
  unfold addQueue
  split
  · rfl
  · rfl

theorem addExchange_channels (name : Name) (kind : Kind) (b : Broker O M) :
    (b.addExchange name kind).channels = b.channels := by
  unfold addExchange
  split
  · rfl
  · rfl

theorem addQueue_routed (name : Name) (b : Broker O M) : (b.addQueue name).routed = b.routed := by
  unfold addQueue
  split
  · rfl
  · rfl

theorem addExchange_routed (name : Name) (kind : Kind) (b : Broker O M) :
    (b.addExchange name kind).routed = b.routed := by
  unfold addExchange
  split
  · rfl
  · rfl

@[simp] theorem kindOf_addQueue (name : Name) (b : Broker O M) (exchange : Name) :
    (b.addQueue name).kindOf exchange = b.kindOf exchange := by
  unfold addQueue kindOf
  split
  · rfl
  · rfl

theorem kindOf_addExchange (name : Name) (kind : Kind) (b : Broker O M) :
    (b.addExchange name kind).kindOf name = some ((b.kindOf name).getD kind) := by
  unfold addExchange kindOf
  cases h : b.exchanges.lookup name with
  | some kind' => simp [h]
  | none => simp [List.lookup_append, h]

/-- An exchange that is declared stays. -/
theorem kindOf_addExchange_of_some {b : Broker O M} {exchange : Name} {kind : Kind}
    (h : b.kindOf exchange = some kind) (name : Name) (kind' : Kind) :
    (b.addExchange name kind').kindOf exchange = some kind := by
  unfold addExchange
  split
  · exact h
  · unfold kindOf at h ⊢
    simp [List.lookup_append, h]

@[simp] theorem kindOf_route (name key : Name) (msg : M) (b : Broker O M) (exchange : Name) :
    (b.route name key msg).kindOf exchange = b.kindOf exchange := by
  unfold route
  split
  · rfl
  · rfl

theorem mem_addQueue (name : Name) (b : Broker O M) : name ∈ (b.addQueue name).queues := by
  unfold addQueue
  split
  · assumption
  · simp

theorem addBinding_channels (bind : Binding) (b : Broker O M) :
    (b.addBinding bind).channels = b.channels := by
  unfold addBinding
  split
  · rfl
  · rfl

theorem route_channels (exchange key : Name) (msg : M) (b : Broker O M) :
    (b.route exchange key msg).channels = b.channels := by
  unfold route
  split
  · rfl
  · rfl

/-- A message is only added to queues, at their ends. -/
theorem route_routed (exchange key : Name) (msg : M) (b : Broker O M) :
    ∃ queues : List Name, (b.route exchange key msg).routed = b.routed ++ queues.map (fun q => (q, msg)) := by
  unfold route
  split
  · exact ⟨[], by simp⟩
  · exact ⟨_, rfl⟩

/-- A closed channel takes no call. -/
theorem call_closed (o : O) (refused : Option E) (missing : Option (CallErr E))
    (f : Broker O M → Broker O M) (b : Broker O M) :
    call b.channels.length refused missing f (b.opened o false) = (some .closed, b.opened o false) := by
  unfold call
  rw [if_neg (by rw [isOpen_opened]; nofun)]

end Broker

end Amqp
end Lib
end ServiceKit
