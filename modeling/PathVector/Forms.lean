import PathVector.Json.Record
import PathVector.Relationship
import PathVector.Route

/-! The JSON forms of addresses, masks, networks, routes and announcements. -/
namespace PathVector

def Address.form : Form Address :=
  (Form.string "IPv4 address").map
    (fun s => match Address.ofText? s with
      | some a => .ok a
      | none => .error .invalidAddress)
    toString

def Mask.form : Form Mask :=
  Address.form.map
    (fun a => match Mask.ofAddress? a with
      | some m => .ok m
      | none => .error (.invalidMask a))
    Mask.address

def Origin.formWith (emptyObject : Bool) : Form Origin :=
  Form.choice (Origin.all.map Origin.text) Origin.ofText? Origin.text emptyObject

def Origin.form : Form Origin := Origin.formWith false

def Relationship.form : Form Relationship :=
  Form.choice (Relationship.all.map Relationship.text) Relationship.ofText? Relationship.text false

namespace Network

structure Slots where
  base : Option Address := none
  mask : Option Mask := none

def record : Record Slots Network where
  title := "NetworkDescription"
  empty := {}
  fields := [
    .required "network" Address.form (·.base) ({ · with base := some · }) (·.base),
    .required "netmask" Mask.form (·.mask) ({ · with mask := some · }) (·.mask)]
  build s := return ⟨← require "network" s.base,← require "netmask" s.mask⟩

def form : Form Network := record.form

end Network

namespace Announcement

structure Slots where
  base : Option Address := none
  mask : Option Mask := none
  asPath : Option (List UInt32) := none

def record : Record Slots Announcement where
  title := "RouteAnnouncement"
  empty := {}
  fields := [
    .required "network" Address.form (·.base) ({ · with base := some · }) (·.network.base),
    .required "netmask" Mask.form (·.mask) ({ · with mask := some · }) (·.network.mask),
    .required "ASPath" (.list .word32) (·.asPath) ({ · with asPath := some · }) (·.asPath)]
  build s := do
    let network := ⟨← require "network" s.base,← require "netmask" s.mask⟩
    return ⟨network,← require "ASPath" s.asPath⟩

def form : Form Announcement := record.form

end Announcement

namespace Route

structure Slots where
  base : Option Address := none
  mask : Option Mask := none
  asPath : Option (List UInt32) := none
  localPref : Option UInt32 := none
  selfOriginated : Option Bool := none
  origin : Option Origin := none

/-- The members of a route, the origin in a given form. -/
def recordWith (origin : Form Origin) : Record Slots Route where
  title := "Route"
  empty := {}
  fields := [
    .required "network" Address.form (·.base) ({ · with base := some · }) (·.network.base),
    .required "netmask" Mask.form (·.mask) ({ · with mask := some · }) (·.network.mask),
    .required "ASPath" (.list .word32) (·.asPath) ({ · with asPath := some · }) (·.asPath),
    .required "localpref" .word32 (·.localPref) ({ · with localPref := some · }) (·.localPref),
    .required "selfOrigin" .boolean (·.selfOriginated) ({ · with selfOriginated := some · })
      (·.selfOriginated),
    .required "origin" origin (·.origin) ({ · with origin := some · }) (·.origin)]
  build s := do
    let network := ⟨← require "network" s.base,← require "netmask" s.mask⟩
    let asPath ← require "ASPath" s.asPath
    let localPref ← require "localpref" s.localPref
    let selfOriginated ← require "selfOrigin" s.selfOriginated
    return ⟨network,⟨asPath,localPref,selfOriginated,← require "origin" s.origin⟩⟩

def record : Record Slots Route := recordWith Origin.form

def form : Form Route := record.form

end Route

/-- A line of a table as it is shown to a neighbor: a route and the neighbor it leads to. -/
structure TableEntry where
  route : Route
  peer : Address
deriving DecidableEq

namespace TableEntry

/-- The members seen so far: the peer, and the others in reverse, which make the route. -/
structure Slots where
  peer : Option Address := none
  others : List (String × Json) := []

/-- The route of an entry stands among its own members, so it is read only after all of them. -/
def routeRecord : Record Route.Slots Route := Route.recordWith (Origin.formWith true)

def build (s : Slots) : Except Fault TableEntry := do
  let peer ← require "peer" s.peer
  return ⟨← routeRecord.ofMembers s.others.reverse,peer⟩

def title : String := "struct SnapshotEntry"

def form : Form TableEntry where
  read depth := do
    if (← Reader.peekToken) = some '\x7b' then
      if depth = 0 then throw .tooDeep
      Reader.advance
      let s ← Reader.object (fun name s => do
        if name = "peer" then
          if s.peer.isSome then throw (.duplicateField name)
          Reader.colon
          return { s with peer := some (← Address.form.read (depth-1)) }
        else
          Reader.colon
          return { s with others := (name,← Reader.value (depth-1))::s.others }) {}
      StateT.lift (build s)
    else Reader.mismatch title
  ofJson
    | .object ms => do
      let s ← ms.foldlM (fun s m => do
        if m.1 = "peer" then
          if s.peer.isSome then throw (.duplicateField m.1)
          return { s with peer := some (← Address.form.ofJson m.2) }
        else return { s with others := m::s.others }) {}
      build s
    | j => Form.mismatch j title
  toJson e := .object (Route.record.members e.route++[("peer",Address.form.toJson e.peer)])

end TableEntry
end PathVector
