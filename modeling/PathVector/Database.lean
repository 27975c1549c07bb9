import PathVector.BestPath
import PathVector.Event

/-! The routing table of a router and its record of withdrawals. The table holds every route with
the neighbor that announced it last; routes that differ in any attribute stand side by side. -/
namespace PathVector

abbrev NetworkSet := Table Network Unit

structure Database where
  rib : Rib := .empty
  revoked : Table Address NetworkSet := .empty

/-- Routes taken from a table, the table without them, and what was told meanwhile. -/
structure Withdrawal where
  rib : Rib
  removed : List Route := []
  events : List Event := []

namespace Withdrawal

/-- Take out the routes to `network` that `nexthop` announced. -/
def step (nexthop : Address) (w : Withdrawal) (network : Network) : Withdrawal :=
  let found := w.rib.entries.filter fun e => e.2 = nexthop && e.1.network = network
  if found.isEmpty then
    { w with events := w.events++[.table w.rib.size nexthop (.nothingToWithdraw network)] }
  else
    { w with
      rib := found.foldl (fun rib e => rib.erase e.1) w.rib
      removed := w.removed++found.map (·.1) }

def run (rib : Rib) (nexthop : Address) (networks : List Network) : Withdrawal :=
  networks.foldl (step nexthop) { rib }

end Withdrawal

namespace Database

/-- Who announced this very route last. -/
def nexthop? (db : Database) (r : Route) : Option Address := db.rib.get? r

def insert (db : Database) (r : Route) (nexthop : Address) : Database :=
  { db with rib := db.rib.insert r nexthop }

/-- What is told about an insertion once it is done. -/
def inserted (db : Database) (r : Route) (nexthop : Address) : Event :=
  .table db.rib.size nexthop (.inserted r.network)

def remove (db : Database) (r : Route) : Database := { db with rib := db.rib.erase r }

/-- Everything that `neighbor` has ever withdrawn. -/
def revoked? (db : Database) (neighbor : Address) : Option NetworkSet := db.revoked.get? neighbor

/-- Add networks to the record of a neighbor, which is made if there is none. -/
def revoke (db : Database) (neighbor : Address) (networks : List Network) :
    Table Address NetworkSet :=
  db.revoked.insert neighbor
    (networks.foldl (fun s n => s.insert n ()) ((db.revoked? neighbor).getD .empty))

/-- Record what `nexthop` withdraws, and take its routes to the withdrawn networks out. -/
def withdraw (db : Database) (nexthop : Address) (networks : List Network) : Database :=
  ⟨(Withdrawal.run db.rib nexthop networks).rib,db.revoke nexthop networks⟩

/-- The routes that `withdraw` takes out, and what it tells. -/
def withdrawal (db : Database) (nexthop : Address) (networks : List Network) : Withdrawal :=
  Withdrawal.run db.rib nexthop networks

def bestPath? (db : Database) (d : Address) : Option (Route × Address) := Rib.bestPath? db.rib d

def snapshot (db : Database) : List TableEntry := Rib.snapshot db.rib

theorem nexthop?_insert (db : Database) (r s : Route) (n : Address) :
    (db.insert r n).nexthop? s = if r = s then some n else db.nexthop? s :=
  Table.get?_insert db.rib r s n

theorem nexthop?_remove (db : Database) (r s : Route) :
    (db.remove r).nexthop? s = if r = s then none else db.nexthop? s :=
  Table.get?_erase db.rib r s

end Database
end PathVector
