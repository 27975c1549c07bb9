import PathVector.Error
import PathVector.Forms

/-! Messages between routers and their wire text. A message travels in an envelope, one JSON object
a datagram; the payload is decoded only after the whole envelope has been read and its kind is
known. -/
namespace PathVector

inductive MessageKind where
  | update | withdraw | data | noRoute | dump | table | handshake
deriving DecidableEq, Repr

namespace MessageKind

def text : MessageKind → String
  | update => "update"
  | withdraw => "withdraw"
  | data => "data"
  | noRoute => "no route"
  | dump => "dump"
  | table => "table"
  | handshake => "handshake"

instance : ToString MessageKind := ⟨text⟩

def all : List MessageKind := [update,withdraw,data,noRoute,dump,table,handshake]

def ofText? (s : String) : Option MessageKind := all.find? fun k => k.text = s

@[simp] theorem ofText?_text (k : MessageKind) : ofText? k.text = some k := by
  cases k <;> decide

theorem text_of_ofText? {s : String} {k : MessageKind} (h : ofText? s = some k) : k.text = s := by
  simpa using List.find?_some h

def parse (s : String) : Except Error MessageKind :=
  match ofText? s with
  | some k => .ok k
  | none => .error (.unknownKind s)

def form : Form MessageKind := Form.choice (all.map text) ofText? text false

end MessageKind

/-- The local preference of a route that was announced without one. -/
def defaultLocalPref : UInt32 := 100

/-- A route announcement as it travels. One that a router passes on carries no attributes but the
path. -/
structure Update where
  network : Network
  asPath : List UInt32
  localPref : Option UInt32
  selfOriginated : Option Bool
  origin : Option Origin
deriving DecidableEq

namespace Update

/-- The route that the update installs, absent attributes at their defaults. -/
def route (u : Update) : Route :=
  ⟨u.network,⟨u.asPath,u.localPref.getD defaultLocalPref,u.selfOriginated.getD false,
    u.origin.getD .unknown⟩⟩

def announcement (u : Update) : Announcement := ⟨u.network,u.asPath⟩

def ofAnnouncement (a : Announcement) : Update := ⟨a.network,a.asPath,none,none,none⟩

def ofRoute (r : Route) : Update :=
  ⟨r.network,r.asPath,some r.localPref,some r.selfOriginated,some r.origin⟩

@[simp] theorem route_ofRoute (r : Route) : (ofRoute r).route = r := rfl

@[simp] theorem announcement_ofAnnouncement (a : Announcement) :
    (ofAnnouncement a).announcement = a := rfl

structure Slots where
  base : Option Address := none
  mask : Option Mask := none
  asPath : Option (List UInt32) := none
  localPref : Option (Option UInt32) := none
  selfOriginated : Option (Option Bool) := none
  origin : Option (Option Origin) := none

def record : Record Slots Update where
  title := "UpdateMessage"
  empty := {}
  fields := [
    .required "network" Address.form (·.base) ({ · with base := some · }) (·.network.base),
    .required "netmask" Mask.form (·.mask) ({ · with mask := some · }) (·.network.mask),
    .required "ASPath" (.list .word32) (·.asPath) ({ · with asPath := some · }) (·.asPath),
    .optionally "localpref" .word32 (·.localPref) ({ · with localPref := some · }) (·.localPref),
    .optionally "selfOrigin" .boolean (·.selfOriginated) ({ · with selfOriginated := some · })
      (·.selfOriginated),
    .optionally "origin" Origin.form (·.origin) ({ · with origin := some · }) (·.origin)]
  build s := do
    let network := ⟨← require "network" s.base,← require "netmask" s.mask⟩
    let asPath ← require "ASPath" s.asPath
    return ⟨network,asPath,s.localPref.join,s.selfOriginated.join,s.origin.join⟩

def form : Form Update := record.form

end Update

inductive Message where
  | update (u : Update)
  | withdraw (networks : List Network)
  /-- Traffic of users; the payload is passed on unchanged. -/
  | data (payload : Json)
  | noRoute (payload : Json)
  | dump
  | table (entries : List TableEntry)
  | handshake (payload : Json)
deriving BEq

namespace Message

def kind : Message → MessageKind
  | update _ => .update
  | withdraw _ => .withdraw
  | data _ => .data
  | noRoute _ => .noRoute
  | dump => .dump
  | table _ => .table
  | handshake _ => .handshake

def ofPayload (j : Json) : MessageKind → Except Fault Message
  | .update => update <$> Update.form.ofJson j
  | .withdraw => withdraw <$> (Form.list Network.form).ofJson j
  | .data => .ok (data j)
  | .noRoute => .ok (noRoute j)
  | .dump => .ok dump
  | .table => table <$> (Form.list TableEntry.form).ofJson j
  | .handshake => .ok (handshake j)

/-- The message of a kind whose payload is an object without members. -/
def empty (k : MessageKind) : Except Error Message := (ofPayload (.object []) k).mapError .json

def payload : Message → Json
  | update u => (Update.form.toJson u).canonical
  | withdraw ns => ((Form.list Network.form).toJson ns).canonical
  | data j => j
  | noRoute j => j
  | dump => .object []
  | table es => ((Form.list TableEntry.form).toJson es).canonical
  | handshake j => j

theorem of_map_eq_ok {α β : Type} {f : α → β} {x : Except Fault α} {b : β}
    (h : f <$> x = .ok b) : ∃ a, x = .ok a ∧ f a = b := by
  cases x with
  | error e => cases h
  | ok a => exact ⟨a,rfl,Except.ok.inj h⟩

theorem kind_of_ofPayload {j : Json} {k : MessageKind} {m : Message}
    (h : ofPayload j k = .ok m) : m.kind = k := by
  cases k <;> simp only [ofPayload] at h
  case update =>
    obtain ⟨u,_,rfl⟩ := of_map_eq_ok h
    rfl
  case withdraw =>
    obtain ⟨ns,_,rfl⟩ := of_map_eq_ok h
    rfl
  case table =>
    obtain ⟨es,_,rfl⟩ := of_map_eq_ok h
    rfl
  all_goals exact (Except.ok.inj h) ▸ rfl

end Message

structure Envelope where
  src : Address
  dst : Address
  msg : Message
deriving BEq

namespace Envelope

abbrev kind (e : Envelope) : MessageKind := e.msg.kind

/-- An envelope whose payload is not decoded yet. -/
structure Sealed where
  src : Address
  dst : Address
  kind : String
  payload : Json

namespace Sealed

structure Slots where
  src : Option Address := none
  dst : Option Address := none
  kind : Option String := none
  payload : Option Json := none

def record : Record Slots Sealed where
  title := "WireEnvelope"
  empty := {}
  fields := [
    .required "src" Address.form (·.src) ({ · with src := some · }) (·.src),
    .required "dst" Address.form (·.dst) ({ · with dst := some · }) (·.dst),
    .required "type" (.string "a string") (·.kind) ({ · with kind := some · }) (·.kind),
    .ofForm "msg" .json (·.payload) ({ · with payload := some · }) (some ·.payload) true]
  build s := do
    let src ← require "src" s.src
    let dst ← require "dst" s.dst
    return ⟨src,dst,← require "type" s.kind,s.payload.getD .null⟩

/-- Decode the payload as the kind says. -/
def decode (s : Sealed) : Except Error Envelope := do
  let kind ← MessageKind.parse s.kind
  let msg ← (Message.ofPayload s.payload kind).mapError .json
  return ⟨s.src,s.dst,msg⟩

end Sealed

def sealed (e : Envelope) : Sealed := ⟨e.src,e.dst,e.kind.text,e.msg.payload⟩

def toWire (e : Envelope) : List UInt8 := Utf8.encode (Sealed.record.form.toJson e.sealed).chars

def wireText (e : Envelope) : String := String.ofList (Sealed.record.form.toJson e.sealed).chars

def ofWire (bs : List UInt8) : Except Error Envelope := do
  let s ← (Sealed.record.form.readText bs).mapError .json
  s.decode

/-- The message that arrives when it is sent as its wire text. Its numbers may be rounded again. -/
def carried (e : Envelope) : Except Error Envelope := ofWire e.toWire

end Envelope
end PathVector
