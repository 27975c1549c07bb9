import PathVector.Error
import PathVector.Forms

/-! What a router is started with: its number and its neighbors. A neighbor is also written as one
token, `<port>-<address>-<relationship>`. -/
namespace PathVector

structure NeighborConfig where
  port : UInt16
  address : Address
  relationship : Relationship
deriving DecidableEq

structure RouterConfig where
  asn : UInt32
  neighbors : List NeighborConfig
deriving DecidableEq

/-- A port number: digits after an optional plus sign, at most 65535. -/
def port? (cs : List Char) : Option UInt16 :=
  let ds := if cs.head? = some '+' then cs.tail else cs
  ((Decimal.ofDigits? ds).filter (· < UInt16.size)).map (·.toUInt16)

/-- The text before the first `sep` and the text after it. -/
def cut? (sep : Char) (cs : List Char) : Option (List Char × List Char) :=
  match cs.dropWhile (· ≠ sep) with
  | [] => none
  | _::rest => some (cs.takeWhile (· ≠ sep),rest)

namespace NeighborConfig

instance : ToString NeighborConfig := ⟨fun n => s!"{n.port}-{n.address}-{n.relationship}"⟩

/-- Dashes after the second belong to the relationship. -/
def ofText? (s : String) : Option NeighborConfig := do
  let (port,rest) ← cut? '-' s.toList
  let (address,relationship) ← cut? '-' rest
  return ⟨← port? port,← Address.ofText? (String.ofList address),
    ← Relationship.ofText? (String.ofList relationship)⟩

def parse (s : String) : Except Error NeighborConfig :=
  match ofText? s with
  | some n => .ok n
  | none => .error (.invalidNeighbor s)

structure Slots where
  port : Option UInt16 := none
  address : Option Address := none
  relationship : Option Relationship := none

def record : Record Slots NeighborConfig where
  title := "NeighborConfig"
  empty := {}
  fields := [
    .required "port" .word16 (·.port) ({ · with port := some · }) (·.port),
    .required "address" Address.form (·.address) ({ · with address := some · }) (·.address),
    .required "relationship" Relationship.form (·.relationship)
      ({ · with relationship := some · }) (·.relationship)]
  build s := do
    let port ← require "port" s.port
    let address ← require "address" s.address
    return ⟨port,address,← require "relationship" s.relationship⟩

def form : Form NeighborConfig := record.form

end NeighborConfig

namespace RouterConfig

structure Slots where
  asn : Option UInt32 := none
  neighbors : Option (List NeighborConfig) := none

def record : Record Slots RouterConfig where
  title := "RouterConfig"
  empty := {}
  fields := [
    .required "asn" .word32 (·.asn) ({ · with asn := some · }) (·.asn),
    .required "neighbors" (.list NeighborConfig.form) (·.neighbors)
      ({ · with neighbors := some · }) (·.neighbors)]
  build s := return ⟨← require "asn" s.asn,← require "neighbors" s.neighbors⟩

def form : Form RouterConfig := record.form

end RouterConfig
end PathVector
