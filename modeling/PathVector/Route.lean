import PathVector.Network

/-! Routes: a network, the path of autonomous systems towards it, and the attributes that rank it.
Routes are ordered field by field, so equal in the order means equal. -/
namespace PathVector

/-- Where a route was first announced, from the least to the most preferred. -/
inductive Origin where
  | unknown | exterior | interior
deriving DecidableEq, Repr

namespace Origin

def rank : Origin → Nat
  | unknown => 0
  | exterior => 1
  | interior => 2

instance : Ord Origin := ⟨compareOn rank⟩

instance : Std.TransOrd Origin := inferInstanceAs (Std.TransCmp (compareOn rank))

instance : Std.LawfulEqOrd Origin where
  eq_of_compare {a b} h := by revert h; cases a <;> cases b <;> decide

def text : Origin → String
  | interior => "IGP"
  | exterior => "EGP"
  | unknown => "UNK"

instance : ToString Origin := ⟨text⟩

def all : List Origin := [interior,exterior,unknown]

def ofText? (s : String) : Option Origin := all.find? fun o => o.text = s

@[simp] theorem ofText?_text (o : Origin) : ofText? o.text = some o := by
  cases o <;> decide

end Origin

/-- What distinguishes two routes to one network. -/
structure Attributes where
  asPath : List UInt32
  localPref : UInt32
  selfOriginated : Bool
  origin : Origin
deriving DecidableEq

namespace Attributes

instance : Ord Attributes :=
  ⟨compareLex (compareOn (·.asPath)) (compareLex (compareOn (·.localPref))
    (compareLex (compareOn (·.selfOriginated)) (compareOn (·.origin))))⟩

instance : Std.TransOrd Attributes :=
  inferInstanceAs (Std.TransCmp (compareLex (compareOn Attributes.asPath)
    (compareLex (compareOn Attributes.localPref)
      (compareLex (compareOn Attributes.selfOriginated) (compareOn Attributes.origin)))))

instance : Std.LawfulEqOrd Attributes where
  eq_of_compare {a b} h := by
    obtain ⟨h₁,h⟩ := Ordering.then_eq_eq.mp h
    obtain ⟨h₂,h⟩ := Ordering.then_eq_eq.mp h
    obtain ⟨h₃,h₄⟩ := Ordering.then_eq_eq.mp h
    have h₁ := Std.LawfulEqOrd.eq_of_compare (α := List UInt32) h₁
    have h₂ := Std.LawfulEqOrd.eq_of_compare (α := UInt32) h₂
    have h₃ := Std.LawfulEqOrd.eq_of_compare (α := Bool) h₃
    have h₄ := Std.LawfulEqOrd.eq_of_compare (α := Origin) h₄
    cases a; cases b; simp_all

end Attributes

structure Route where
  network : Network
  attributes : Attributes
deriving DecidableEq

/-- The public part of a route: what a router passes on to its neighbors. -/
structure Announcement where
  network : Network
  asPath : List UInt32
deriving DecidableEq

/-- The announcement as the router with number `asn` passes it on. -/
def Announcement.extend (a : Announcement) (asn : UInt32) : Announcement :=
  { a with asPath := asn::a.asPath }

namespace Route

instance : Ord Route := ⟨compareLex (compareOn (·.network)) (compareOn (·.attributes))⟩

instance : Std.TransOrd Route :=
  inferInstanceAs (Std.TransCmp (compareLex (compareOn Route.network) (compareOn Route.attributes)))

instance : Std.LawfulEqOrd Route where
  eq_of_compare {a b} h := by
    obtain ⟨h₁,h₂⟩ := Ordering.then_eq_eq.mp h
    have h₁ := Std.LawfulEqOrd.eq_of_compare (α := Network) h₁
    have h₂ := Std.LawfulEqOrd.eq_of_compare (α := Attributes) h₂
    cases a; cases b; simp_all

abbrev mask (r : Route) : Mask := r.network.mask

abbrev asPath (r : Route) : List UInt32 := r.attributes.asPath

abbrev localPref (r : Route) : UInt32 := r.attributes.localPref

abbrev selfOriginated (r : Route) : Bool := r.attributes.selfOriginated

abbrev origin (r : Route) : Origin := r.attributes.origin

def announcement (r : Route) : Announcement := ⟨r.network,r.asPath⟩

/-- The length of the mask, if the route's network contains `d`. -/
def matchLength? (r : Route) (d : Address) : Option Nat :=
  if r.network.Contains d then some r.mask.length else none

theorem matchLength?_eq_some_iff {r : Route} {d : Address} {l : Nat} :
    r.matchLength? d = some l ↔ r.network.Contains d ∧ r.mask.length = l := by
  unfold matchLength?
  by_cases h : r.network.Contains d <;> simp [h]

instance : ToString Route where
  toString r :=
    let path := ", ".intercalate (r.asPath.map toString)
    s!"{r.network} as_path=[{path}] localpref={r.localPref} " ++
      s!"self_origin={r.selfOriginated} origin={r.origin}"

end Route
end PathVector
