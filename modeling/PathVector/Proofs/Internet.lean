import PathVector.Proofs.Relay

/-! Many routers, joined by links, and the messages under way between them. Messages about routes
come in from neighbors outside; every message that is delivered is handled, and what the router
passes on is under way in turn. Any message may be delivered next, and links may lose what they are
given. -/
namespace PathVector

/-- An end of a link: a router, and the address of the neighbor at the other end. -/
structure Port (ι : Type) where
  router : ι
  neighbor : Address

/-- How routers are joined. A neighbor to whom no other end belongs is outside. -/
structure Wiring (ι : Type) where
  far? : Port ι → Option (Port ι)
  far?_symm : ∀ x y, far? x = some y → far? y = some x

/-- A message under way: where it came in from outside and as what, the ports through which routers
have passed it on since, the last one first, and what it is now. -/
structure Packet (ι : Type) where
  entry : Port ι
  injected : Message
  exits : List (Port ι) := []
  envelope : Envelope

structure Internet (ι : Type) where
  routers : ι → Router
  underway : List (Packet ι) := []

variable {ι : Type}

/-- The port at which a message comes in that entered at one port and left through others; none if
it leaves for a neighbor outside. -/
def Wiring.inlet? (w : Wiring ι) (entry : Port ι) : List (Port ι) → Option (Port ι)
  | [] => some entry
  | x::_ => w.far? x

/-- What one side calls the other if this is what the other calls it. -/
def Relationship.mirror : Relationship → Relationship
  | .customer => .provider
  | .peer => .peer
  | .provider => .customer

/-- What the router at a port calls the neighbor there. -/
def Port.relationship (x : Port ι) (routers : ι → Router) : Except Error Relationship :=
  (routers x.router).relationship x.neighbor

/-- Routers that are joined call each other what they are to each other. -/
def Wiring.Consistent (w : Wiring ι) (routers : ι → Router) : Prop :=
  ∀ x y, w.far? x = some y →
    ∃ s, x.relationship routers = .ok s ∧ y.relationship routers = .ok s.mirror

namespace Internet

inductive Act (ι : Type) where
  /-- A neighbor outside sends a message. -/
  | inject (x : Port ι) (e : Envelope)
  /-- A message under way is delivered while links are in some condition. -/
  | deliver (p : Packet ι) (faults : LinkFaults)

def Act.isDelivery : Act ι → Bool
  | .inject _ _ => false
  | .deliver _ _ => true

def Act.isInjection : Act ι → Bool
  | .inject _ _ => true
  | .deliver _ _ => false

/-- What becomes of a message that the router at `x` passes on. -/
def passOn (p : Packet ι) (x : Port ι) (m : Address × Envelope) : Packet ι :=
  { p with exits := ⟨x.router,m.1⟩::p.exits, envelope := m.2 }

variable [DecidableEq ι] (w : Wiring ι)

/-- One thing happens. Neighbors outside that the router knows tell about routes; a message that has
arrived at a router is handled there, and what links take is under way. -/
inductive Step : Internet ι → Act ι → Internet ι → Prop where
  | inject (net : Internet ι) (x : Port ι) (e : Envelope) (outside : w.far? x = none)
      (known : (net.routers x.router).neighbors.contains x.neighbor = true)
      (control : e.kind = .update ∨ e.kind = .withdraw) :
      Step net (.inject x e)
        { net with underway := { entry := x, injected := e.msg, envelope := e }::net.underway }
  | deliver (net : Internet ι) (before after : List (Packet ι)) (p : Packet ι) (x : Port ι)
      (faults : LinkFaults) (pending : net.underway = before++p::after)
      (arrived : w.inlet? p.entry p.exits = some x) :
      Step net (.deliver p faults)
        { routers := Function.update net.routers x.router
            ((net.routers x.router).handle faults x.neighbor p.envelope).router
          underway := before++after++
            ((net.routers x.router).handle faults x.neighbor p.envelope).sent.map (passOn p x) }

/-- What happens one after another. -/
inductive Steps : Internet ι → List (Act ι) → Internet ι → Prop where
  | refl (net : Internet ι) : Steps net [] net
  | tail {net mid next : Internet ι} {acts : List (Act ι)} {act : Act ι} :
      Steps net acts mid → Step w mid act next → Steps net (acts++[act]) next

variable {w}

theorem Step.kept {net next : Internet ι} {act : Act ι} (h : Step w net act next) (i : ι) :
    (next.routers i).asn = (net.routers i).asn ∧
      (next.routers i).neighbors = (net.routers i).neighbors := by
  cases h with
  | inject => exact ⟨rfl,rfl⟩
  | deliver before after p x faults pending arrived =>
    by_cases hi : i = x.router
    · subst hi
      simp only [Function.update_self]
      exact ⟨(net.routers x.router).asn_handleAll [⟨x.neighbor,p.envelope,faults⟩],
        (net.routers x.router).neighbors_handle faults x.neighbor p.envelope⟩
    · simp [Function.update_of_ne hi]

theorem Steps.kept {net next : Internet ι} {acts : List (Act ι)} (h : Steps w net acts next)
    (i : ι) :
    (next.routers i).asn = (net.routers i).asn ∧
      (next.routers i).neighbors = (net.routers i).neighbors := by
  induction h with
  | refl => exact ⟨rfl,rfl⟩
  | tail _ hs ih =>
    obtain ⟨ha,hn⟩ := hs.kept i
    exact ⟨ha.trans ih.1,hn.trans ih.2⟩

end Internet
end PathVector
