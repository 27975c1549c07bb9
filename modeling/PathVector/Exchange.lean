import PathVector.Dispatcher

/-! Links held in memory. A link and its far end make a circuit. The far end waits at the port that
the link was opened to until it is taken there; a port holds at most one far end of either kind, and
a new one replaces it. -/
namespace PathVector

/-- A link listens once. -/
inductive Receiver where
  | idle | listening | done
deriving DecidableEq

structure Circuit where
  peer : Address
  /-- Messages that the far end has not read. -/
  outbound : List Envelope := []
  /-- Datagrams that no receiver has taken. -/
  inbound : List (List UInt8) := []
  receiver : Receiver := .idle
  linkOpen : Bool := true
  farOpen : Bool := true

structure Exchange where
  circuits : List Circuit := []
  /-- The circuits whose far ends wait at a port. -/
  waiting : Table UInt16 Nat := .empty
  taken : Table UInt16 Nat := .empty
  /-- What was delivered and not collected; none if nobody will collect. -/
  inbox : Option (List Inbound) := some []

namespace Exchange

def change (x : Exchange) (i : Nat) (f : Circuit → Circuit) : Exchange :=
  { x with circuits := x.circuits.modify i f }

/-- The far end of a circuit is gone; so are the messages it has not read. -/
def closeFar (x : Exchange) (i : Nat) : Exchange :=
  x.change i fun c => { c with farOpen := false, outbound := [] }

def closeAll (x : Exchange) (i : Option Nat) : Exchange := i.elim x x.closeFar

/-- Open a link; it is the last circuit. -/
def openLink (x : Exchange) (n : NeighborConfig) : Exchange :=
  let y := x.closeAll (x.waiting.get? n.port)
  { y with
    circuits := y.circuits++[{ peer := n.address }]
    waiting := x.waiting.insert n.port x.circuits.length }

/-- Take the far end that waits at a port. -/
def take (x : Exchange) (port : UInt16) : Except Error Exchange :=
  match x.waiting.get? port with
  | none => .error .disconnected
  | some i =>
    .ok { x.closeAll (x.taken.get? port) with
      waiting := x.waiting.erase port
      taken := x.taken.insert port i }

def link (x : Exchange) (i : Nat) : Except Error Circuit :=
  match x.circuits[i]? with
  | some c => if c.linkOpen then .ok c else .error .disconnected
  | none => .error .disconnected

/-- The far end that was taken at a port. -/
def farEnd (x : Exchange) (port : UInt16) : Except Error (Nat × Circuit) :=
  match x.taken.get? port with
  | some i => match x.circuits[i]? with
    | some c => .ok (i,c)
    | none => .error .disconnected
  | none => .error .disconnected

/-- Send a message on a link. -/
def send (x : Exchange) (i : Nat) (e : Envelope) : Except Error Exchange := do
  let c ← x.link i
  let e ← e.carried
  if c.farOpen then return x.change i fun c => { c with outbound := c.outbound++[e] }
  else throw (.linkDown "sending on a closed channel")

/-- Read the next message at a far end. -/
def receive (x : Exchange) (port : UInt16) : Except Error (Envelope × Exchange) := do
  let (i,c) ← x.farEnd port
  match c.outbound with
  | [] => throw .disconnected
  | e::es => return (e,x.change i ({ · with outbound := es }))

/-- Read all messages at a far end. -/
def drain (x : Exchange) (port : UInt16) : Except Error (List Envelope × Exchange) := do
  let (i,c) ← x.farEnd port
  return (c.outbound,x.change i ({ · with outbound := [] }))

/-- A receiver moves the datagrams of its circuit to the inbox. It stops at the first one that
nobody will collect. -/
def deliver (x : Exchange) (i : Nat) : Exchange :=
  match x.circuits[i]? with
  | some c =>
    if c.receiver = .listening ∧ c.inbound ≠ [] then
      match x.inbox with
      | some arrived =>
        { x.change i ({ · with inbound := [] }) with
          inbox := some (arrived++c.inbound.map fun d => ⟨c.peer,d⟩) }
      | none => x.change i ({ · with inbound := [], receiver := .done })
    else x
  | none => x

/-- Send a datagram from a far end to the link. -/
def post (x : Exchange) (port : UInt16) (datagram : List UInt8) : Except Error Exchange := do
  let (i,_) ← x.farEnd port
  return (x.change i fun c => { c with inbound := c.inbound++[datagram] }).deliver i

def listen (x : Exchange) (i : Nat) : Except Error Exchange := do
  let c ← x.link i
  if c.receiver = .idle then
    return (x.change i ({ · with receiver := .listening })).deliver i
  else throw .disconnected

/-- Take the next `n` deliveries out of the inbox. -/
def collect (x : Exchange) (n : Nat) : List Inbound × Exchange :=
  ((x.inbox.getD []).take n,{ x with inbox := x.inbox.map (·.drop n) })

def hangUp (x : Exchange) : Exchange := { x with inbox := none }

/-- Drop a link. Its receiver goes on. -/
def dropLink (x : Exchange) (i : Nat) : Exchange := x.change i ({ · with linkOpen := false })

def dropFar (x : Exchange) (port : UInt16) : Exchange :=
  { x.closeAll (x.taken.get? port) with taken := x.taken.erase port }

/-- What the receivers tell when they end. -/
def closing (x : Exchange) : List Event :=
  (x.circuits.filter (·.receiver ≠ .idle)).map fun c => .link .memory c.peer .receiverDone

end Exchange

namespace Transport

/-- Links in memory. They take what can be read at the far end. -/
def memory : Transport where
  opened n := [.link .memory n.address (.opened n.port)]
  faults _ e := match e.carried with
    | .ok _ => none
    | .error error => some error

end Transport
end PathVector
