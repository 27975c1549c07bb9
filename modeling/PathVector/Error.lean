import PathVector.Json.Fault
import PathVector.Relationship
import PathVector.Route

/-! What can go wrong, and reading values from text with the cause of a refusal. -/
namespace PathVector

inductive Error where
  | invalidAddress (text : String)
  | invalidMask (value : Address)
  | invalidOrigin (text : String)
  | invalidRelationship (text : String)
  | invalidNeighbor (text : String)
  | json (fault : Fault)
  | unknownKind (text : String)
  | unknownNeighbor (address : Address)
  | neighborExists (address : Address)
  | disconnected
  /-- The far end of a link does not take messages. -/
  | linkDown (reason : String)
  | system (reason : String)
deriving DecidableEq

def Error.message : Error → String
  | invalidAddress text => s!"invalid address {text}"
  | invalidMask value => s!"non-contiguous subnet mask {value}"
  | invalidOrigin text => s!"invalid origin {text}"
  | invalidRelationship text => s!"invalid relationship {text}"
  | invalidNeighbor text => s!"invalid neighbor {text}"
  | json fault => s!"json: {fault.message}"
  | unknownKind text => s!"unknown message type {text}"
  | unknownNeighbor address => s!"unknown neighbor {address}"
  | neighborExists address => s!"neighbor {address} already exists"
  | disconnected => "disconnected"
  | linkDown reason => s!"channel send: {reason}"
  | system reason => s!"io: {reason}"

def Address.parse (s : String) : Except Error Address :=
  match Address.ofText? s with
  | some a => .ok a
  | none => .error (.invalidAddress s)

def Mask.check (a : Address) : Except Error Mask :=
  match Mask.ofAddress? a with
  | some m => .ok m
  | none => .error (.invalidMask a)

def Mask.parse (s : String) : Except Error Mask := do Mask.check (← Address.parse s)

def Origin.parse (s : String) : Except Error Origin :=
  match Origin.ofText? s with
  | some o => .ok o
  | none => .error (.invalidOrigin s)

def Relationship.parse (s : String) : Except Error Relationship :=
  match Relationship.ofText? s with
  | some r => .ok r
  | none => .error (.invalidRelationship s)

end PathVector
