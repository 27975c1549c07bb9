import PathVector.Config
import PathVector.Message

/-! What a router tells about its work, and the log records it is told in. -/
namespace PathVector

inductive Level where
  | debug | info | warning | error
deriving DecidableEq, Repr

def Level.number : Level → Int
  | debug => 20
  | info => 30
  | warning => 40
  | error => 50

/-- A log record: a message with details under their names. -/
structure LogRecord where
  level : Level
  message : String
  details : List (String × Json)

def LogRecord.toJson (r : LogRecord) : Json :=
  .object ([("msg",.string r.message),("level",.integer r.level.number)]++r.details)

inductive TableEvent where
  | inserted (network : Network)
  | nothingToWithdraw (network : Network)
deriving DecidableEq

inductive RouterEvent where
  | neighborAdded (address : Address) (relationship : Relationship)
  | sendFailed (kind : MessageKind) (receiver : Address) (error : Error)
  | ignored (kind : MessageKind) (sender : Address)
  | updated (route : Route) (sender : Address)
  | withdrawn (count : Nat) (sender : Address)
  | notExported (kind : MessageKind) (sender receiver : Address) (relationship : Relationship)
  | noRoute (dst sender : Address)
  | forwarding (dst : Address) (route : Route) (sender nexthop : Address)
  | refused (dst sender : Address) (source : Relationship) (nexthop : Address)
      (target : Relationship)
  | tableSent (count : Nat) (receiver : Address)
deriving DecidableEq

inductive DispatcherEvent where
  | started (asn : UInt32) (neighbors : Nat)
  | shuttingDown
  | unknownKind (kind : String) (sender : Address)
  | undecodable (error : Error) (sender : Address) (datagram : List UInt8)
  | received (kind : MessageKind) (sender src dst : Address)
deriving DecidableEq

/-- Links are held in memory, or lead to a port of this host. -/
inductive LinkKind where
  | memory | socket
deriving DecidableEq

inductive LinkEvent where
  | opened (port : UInt16)
  | receiverDone
deriving DecidableEq

inductive Event where
  /-- About a table of so many routes. -/
  | table (routes : Nat) (nexthop : Address) (event : TableEvent)
  | router (asn : UInt32) (event : RouterEvent)
  | dispatcher (event : DispatcherEvent)
  | link (kind : LinkKind) (peer : Address) (event : LinkEvent)
  | configured (neighbor : NeighborConfig)
deriving DecidableEq

private def addressDetail (a : Address) : Json := .string (toString a)

private def relationshipDetail (r : Relationship) : Json := .string r.text

def TableEvent.record : TableEvent → LogRecord
  | inserted network => ⟨.debug,s!"inserted route to {network}",[]⟩
  | nothingToWithdraw network => ⟨.info,s!"no route to withdraw for {network}",[]⟩

def RouterEvent.record : RouterEvent → LogRecord
  | neighborAdded a r => ⟨.info,s!"adding neighbor {a}",[("relationship",relationshipDetail r)]⟩
  | sendFailed kind receiver e =>
    ⟨.error,s!"failed to send {kind} to {receiver}: {e.message}",
      [("neighbor",addressDetail receiver)]⟩
  | ignored kind sender => ⟨.info,s!"ignoring {kind} message",[("neighbor",addressDetail sender)]⟩
  | updated route sender => ⟨.info,s!"update {route}",[("neighbor",addressDetail sender)]⟩
  | withdrawn count sender =>
    ⟨.info,s!"withdraw removed {count} routes",[("neighbor",addressDetail sender)]⟩
  | notExported kind sender receiver r =>
    ⟨.debug,s!"not exporting {kind} to {receiver}",
      [("neighbor",addressDetail sender),("relationship",relationshipDetail r)]⟩
  | noRoute dst sender =>
    ⟨.info,s!"no route to {dst}, dropping data",[("neighbor",addressDetail sender)]⟩
  | forwarding dst route sender nexthop =>
    ⟨.debug,s!"forwarding data for {dst} via {route}",
      [("neighbor",addressDetail sender),("nexthop",addressDetail nexthop)]⟩
  | refused dst sender source nexthop target =>
    ⟨.info,s!"refusing to carry data for {dst} to {target} {nexthop}",
      [("neighbor",addressDetail sender),("relationship",relationshipDetail source)]⟩
  | tableSent count receiver =>
    ⟨.info,s!"sending table of {count} entries",[("neighbor",addressDetail receiver)]⟩

def DispatcherEvent.record : DispatcherEvent → LogRecord
  | started asn neighbors =>
    ⟨.info,"router started",[("asn",.integer asn.toNat),("neighbors",.integer neighbors)]⟩
  | shuttingDown => ⟨.info,"shutting down",[]⟩
  | unknownKind kind sender =>
    ⟨.info,s!"ignoring unknown message type {kind}",[("neighbor",addressDetail sender)]⟩
  | undecodable e sender datagram =>
    ⟨.warning,s!"dropping undecodable message: {e.message}",
      [("neighbor",addressDetail sender),
        ("message",.string (String.ofList (Utf8.decodeLenient datagram)))]⟩
  | received kind sender src dst =>
    ⟨.info,s!"received {kind}",
      [("neighbor",addressDetail sender),("src",addressDetail src),("dst",addressDetail dst)]⟩

def LinkEvent.record (peer : Address) : LinkKind → LinkEvent → LogRecord
  | .memory, opened port =>
    ⟨.debug,"link open",[("peer",addressDetail peer),("port",.integer port.toNat)]⟩
  | .socket, opened port =>
    ⟨.debug,"link open",[("peer",addressDetail peer),("target",.string s!"127.0.0.1:{port}")]⟩
  | .memory, receiverDone => ⟨.debug,"receiver done",[("peer",addressDetail peer)]⟩
  | .socket, receiverDone => ⟨.debug,"receiver shutting down",[("peer",addressDetail peer)]⟩

def LinkKind.unit : LinkKind → String
  | memory => "connection_channel"
  | socket => "connection_udp"

/-- The place in the program that a record comes from. -/
private def located (place : List (String × String)) (more : List (String × Json))
    (r : LogRecord) : LogRecord :=
  { r with details := place.map (fun d => (d.1,Json.string d.2))++more++r.details }

def Event.record : Event → LogRecord
  | table routes nexthop e =>
    located [("component","rdb"),("unit","rib")]
      [("routes",.integer routes),("nexthop",addressDetail nexthop)] e.record
  | router asn e =>
    located [("component","pvr"),("module","router"),("unit","router")]
      [("asn",.integer asn.toNat)] e.record
  | dispatcher e =>
    located [("component","pvr"),("module","router"),("unit","dispatcher")] [] e.record
  | link kind peer e =>
    located [("component","pvr"),("module","neighbor"),("unit",kind.unit)] [] (e.record peer kind)
  | configured n =>
    located [("component","pvrd")] []
      ⟨.info,s!"neighbor {n}",[("address",addressDetail n.address),
        ("relationship",relationshipDetail n.relationship),("port",.integer n.port.toNat)]⟩

end PathVector
