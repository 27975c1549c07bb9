import PathVector.Database

/-! The handlers of a router. A handler is a function of the router's state: it says what the state
becomes, what is sent and told in what order, and whether the router must give up. -/
namespace PathVector

/-- Why a message cannot be sent on the link to a neighbor, if so. -/
abbrev LinkFaults := Address → Envelope → Option Error

inductive Action where
  | sent (receiver : Address) (e : Envelope)
  /-- Given to a link that did not take it. -/
  | lost (receiver : Address) (e : Envelope) (error : Error)
  | told (event : Event)

namespace Action

def sent? : Action → Option (Address × Envelope)
  | sent receiver e => some (receiver,e)
  | _ => none

/-- A message that was given to a link, taken or not. -/
def attempt? : Action → Option (Address × Envelope)
  | sent receiver e => some (receiver,e)
  | lost receiver e _ => some (receiver,e)
  | told _ => none

def event? : Action → Option Event
  | told e => some e
  | _ => none

end Action

structure Router where
  asn : UInt32
  db : Database := {}
  neighbors : Table Address Relationship := .empty

/-- What a handler did. The state is kept when the router must give up. -/
structure Outcome where
  router : Router
  actions : List Action := []
  error : Option Error := none

/-- Go on unless the router has given up. -/
def Outcome.andThen (o : Outcome) (f : Router → Outcome) : Outcome :=
  match o.error with
  | some _ => o
  | none => let p := f o.router; { p with actions := o.actions++p.actions }

theorem Outcome.andThen_of_error {o : Outcome} {e : Error} (h : o.error = some e)
    (f : Router → Outcome) : o.andThen f = o := by
  simp [andThen,h]

namespace Router

def tell (r : Router) (e : RouterEvent) : Action := .told (.router r.asn e)

def relationship (r : Router) (neighbor : Address) : Except Error Relationship :=
  match r.neighbors.get? neighbor with
  | some s => .ok s
  | none => .error (.unknownNeighbor neighbor)

def addNeighbor (r : Router) (address : Address) (relationship : Relationship) : Outcome :=
  if r.neighbors.contains address then { router := r, error := some (.neighborExists address) }
  else
    { router := { r with neighbors := r.neighbors.insert address relationship }
      actions := [r.tell (.neighborAdded address relationship)] }

/-- Give a message to the link of a neighbor. A link that does not take it is told about and
otherwise ignored. -/
def deliver (r : Router) (faults : LinkFaults) (receiver : Address) (e : Envelope) : List Action :=
  match faults receiver e with
  | none => [.sent receiver e]
  | some error => [.lost receiver e error,r.tell (.sendFailed e.kind receiver error)]

def send (r : Router) (faults : LinkFaults) (receiver : Address) (e : Envelope) : Outcome :=
  match r.relationship receiver with
  | .ok _ => { router := r, actions := r.deliver faults receiver e }
  | .error error => { router := r, error := some error }

/-- A message to a neighbor itself comes from the gateway on their link. -/
def envelopeTo (receiver : Address) (msg : Message) : Envelope := ⟨receiver.gateway,receiver,msg⟩

def emptyObject : Json := .object []

/-- Do something for one neighbor after another, until the router has to give up. -/
def eachNeighbor (r : Router) (f : Address → Relationship → Router → Outcome) : Outcome :=
  r.neighbors.entries.foldl (fun o e => Outcome.andThen o (f e.1 e.2)) { router := r }

/-- Say hello to all neighbors. -/
def handshake (r : Router) (faults : LinkFaults) : Outcome :=
  r.eachNeighbor fun n _ r => r.send faults n (envelopeTo n (.handshake emptyObject))

/-- Pass on what was learned from `sender` to every other neighbor that the policy allows. -/
def propagate (r : Router) (faults : LinkFaults) (sender : Address) (source : Relationship)
    (msg : Message) : Outcome :=
  r.eachNeighbor fun n target r =>
    if n = sender then { router := r }
    else if source.exports target then r.send faults n (envelopeTo n msg)
    else { router := r, actions := [r.tell (.notExported msg.kind sender n target)] }

def handleUpdate (r : Router) (faults : LinkFaults) (sender : Address) (u : Update) : Outcome :=
  match r.relationship sender with
  | .error error => { router := r, error := some error }
  | .ok source =>
    let db := r.db.insert u.route sender
    let msg := .update (.ofAnnouncement (u.announcement.extend r.asn))
    let o := { r with db }.propagate faults sender source msg
    { o with actions :=
        r.tell (.updated u.route sender)::.told (db.inserted u.route sender)::o.actions }

def handleWithdraw (r : Router) (faults : LinkFaults) (sender : Address)
    (networks : List Network) : Outcome :=
  match r.relationship sender with
  | .error error => { router := r, error := some error }
  | .ok source =>
    let w := r.db.withdrawal sender networks
    let o := { r with db := r.db.withdraw sender networks }.propagate faults sender source
      (.withdraw networks)
    { o with actions :=
        w.events.map .told++r.tell (.withdrawn w.removed.length sender)::o.actions }

def handleData (r : Router) (faults : LinkFaults) (sender dst : Address)
    (payload : Json) : Outcome :=
  match r.relationship sender with
  | .error error => { router := r, error := some error }
  | .ok source =>
    match r.db.bestPath? dst with
    | none => { router := r, actions := [r.tell (.noRoute dst sender)] }
    | some (route,nexthop) =>
      match r.relationship nexthop with
      | .error error => { router := r, error := some error }
      | .ok target =>
        if source.forwards target then
          let o := r.send faults nexthop ⟨nexthop.gateway,dst,.data payload⟩
          { o with actions := r.tell (.forwarding dst route sender nexthop)::o.actions }
        else
          let o := r.send faults sender (envelopeTo sender (.noRoute emptyObject))
          { o with actions := r.tell (.refused dst sender source nexthop target)::o.actions }

def handleDump (r : Router) (faults : LinkFaults) (sender : Address) : Outcome :=
  let entries := r.db.snapshot
  let o := r.send faults sender (envelopeTo sender (.table entries))
  { o with actions := r.tell (.tableSent entries.length sender)::o.actions }

/-- Handle a message that came in on the link of `sender`. -/
def handle (r : Router) (faults : LinkFaults) (sender : Address) (e : Envelope) : Outcome :=
  match e.msg with
  | .update u => r.handleUpdate faults sender u
  | .withdraw networks => r.handleWithdraw faults sender networks
  | .data payload => r.handleData faults sender e.dst payload
  | .dump => r.handleDump faults sender
  | .handshake _ | .noRoute _ | .table _ =>
    { router := r, actions := [r.tell (.ignored e.kind sender)] }

end Router
end PathVector
