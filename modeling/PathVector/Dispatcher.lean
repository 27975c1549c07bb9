import PathVector.Router

/-! The dispatcher owns a router and its links. Startup opens the links in the order of
configuration, says hello to the neighbors in the order of their addresses and starts to listen;
afterwards datagrams are decoded and handled one by one, in the order in which they arrive. -/
namespace PathVector

/-- How the links behave: which cannot be opened, do not take messages, or cannot be listened to,
and what is told when one is opened. -/
structure Transport where
  /-- Why the link cannot be opened that stands at an index of the configuration. The same neighbor
  may be configured twice, and only one of the two links fail to open. -/
  openFault : Nat → NeighborConfig → Option Error := fun _ _ => none
  opened : NeighborConfig → List Event := fun _ => []
  faults : LinkFaults := fun _ _ => none
  receiveFault : Address → Option Error := fun _ => none

/-- A datagram and the neighbor on whose link it arrived. -/
structure Inbound where
  peer : Address
  datagram : List UInt8
deriving DecidableEq

/-- What the dispatcher finds when it looks: that it should stop, nothing for a while, datagrams, or
that no link will ever bring one. -/
inductive Turn where
  | stop
  | quiet
  | batch (first : Inbound) (rest : List Inbound)
  | hungUp
deriving DecidableEq

inductive Ending where
  | running
  | stopped
  | failed (error : Error)
deriving DecidableEq

structure Run where
  router : Router
  actions : List Action := []
  ending : Ending := .running

namespace Dispatcher

/-- Open the link to a neighbor and add the neighbor to the router. -/
def openLink (t : Transport) (i : Nat) (n : NeighborConfig) (r : Router) : Outcome :=
  match t.openFault i n with
  | some error => { router := r, error := some error }
  | none =>
    let o := r.addNeighbor n.address n.relationship
    { o with actions := (t.opened n).map .told++o.actions }

def openLinks (t : Transport) (r : Router) (ns : List NeighborConfig) : Outcome :=
  ns.zipIdx.foldl (fun o e => o.andThen (openLink t e.2 e.1)) { router := r }

/-- Start to listen on every link. -/
def listen (t : Transport) (r : Router) : Outcome :=
  { router := r, error := r.neighbors.keys.findSome? t.receiveFault }

def start (t : Transport) (c : RouterConfig) : Outcome :=
  (openLinks t { asn := c.asn } c.neighbors).andThen fun r =>
    (r.handshake t.faults).andThen fun r =>
      (listen t r).andThen fun r =>
        { router := r
          actions := [.told (.dispatcher (.started c.asn c.neighbors.length))] }

/-- Decode a datagram and handle it. One that cannot be decoded is told about and dropped. -/
def dispatch (faults : LinkFaults) (r : Router) (i : Inbound) : Outcome :=
  match Envelope.ofWire i.datagram with
  | .error (.unknownKind kind) =>
    { router := r, actions := [.told (.dispatcher (.unknownKind kind i.peer))] }
  | .error error =>
    { router := r, actions := [.told (.dispatcher (.undecodable error i.peer i.datagram))] }
  | .ok e =>
    let o := r.handle faults i.peer e
    { o with actions := .told (.dispatcher (.received e.kind i.peer e.src e.dst))::o.actions }

def dispatchAll (faults : LinkFaults) : Router → List Inbound → Outcome
  | r, [] => { router := r }
  | r, i::is => (dispatch faults r i).andThen fun r => dispatchAll faults r is

/-- Take turns until one ends the run. -/
def run (faults : LinkFaults) : Router → List Turn → Run
  | r, [] => { router := r }
  | r, .stop::_ =>
    { router := r, actions := [.told (.dispatcher .shuttingDown)], ending := .stopped }
  | r, .quiet::ts => run faults r ts
  | r, .hungUp::_ => { router := r, ending := .failed .disconnected }
  | r, .batch first rest::ts =>
    let o := dispatchAll faults r (first::rest)
    match o.error with
    | some error => { router := o.router, actions := o.actions, ending := .failed error }
    | none => let n := run faults o.router ts; { n with actions := o.actions++n.actions }

end Dispatcher
end PathVector
