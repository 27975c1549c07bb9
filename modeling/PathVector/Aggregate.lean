import PathVector.Forms
import PathVector.Table

/-! Aggregation of a table for showing it. Routes to one neighbor with equal attributes that lie in
the two halves of a block become the route to the block. -/
namespace PathVector

abbrev Rib := Table Route Address

namespace Route

/-- Two routes that differ in the base of their networks only, within one block of twice the size.
-/
def Mergeable (a b : Route) : Prop :=
  a.mask = b.mask ∧ a.mask.length ≠ 0 ∧ a.network.base ≠ b.network.base ∧
    a.attributes = b.attributes ∧
    a.network.base.bits >>> (a.mask.shift+1) = b.network.base.bits >>> (a.mask.shift+1)

instance (a b : Route) : Decidable (a.Mergeable b) := by unfold Mergeable; infer_instance

/-- The route to the block around both; it has the base of the smaller one. -/
def merge? (a b : Route) : Option Route :=
  let least := if (compare a b).isLE then a else b
  least.mask.parent?.map fun m => { least with network.mask := m }

theorem merge?_isSome {a b : Route} (h : a.Mergeable b) : (a.merge? b).isSome = true := by
  have ha : a.mask.length ≠ 0 := h.2.1
  have hb : b.mask.length ≠ 0 := h.1 ▸ ha
  unfold merge?
  split <;> simp_all [Mask.parent?]

/-- The head takes in every route it can merge with, also those that it can merge with only after
another merge. The answer is what it has become and the routes that are left. -/
def absorb (head : Route) (pending : List Route) : Route × List Route :=
  match _h : pending.find? (head.Mergeable ·) with
  | none => (head,pending)
  | some r =>
    match head.merge? r with
    | none => (head,pending)
    | some parent => absorb parent (pending.erase r)
termination_by pending.length
decreasing_by
  have hr := List.mem_of_find?_eq_some _h
  have := List.length_pos_of_mem hr
  rw [List.length_erase_of_mem hr]
  omega

theorem length_absorb_le (head : Route) (pending : List Route) :
    (absorb head pending).2.length ≤ pending.length := by
  fun_induction absorb head pending with
  | case1 => exact Nat.le_refl _
  | case2 => exact Nat.le_refl _
  | case3 head pending r _ parent _ ih => exact Nat.le_trans ih List.length_erase_le

end Route

/-- Routes still to be looked at, and how many heads in a row have merged with none. -/
structure Worklist where
  pending : List Route
  unchanged : Nat

namespace Worklist

/-- The head absorbs what it can and goes to the back. -/
def turn (w : Worklist) : Worklist :=
  match w.pending with
  | [] => w
  | head::rest =>
    let (head',rest') := head.absorb rest
    ⟨rest'++[head'],if rest'.length < rest.length then 0 else w.unchanged+1⟩

theorem turn_decreases (w : Worklist) (h : w.unchanged < w.pending.length) :
    w.turn.pending.length < w.pending.length ∨
      w.turn.pending.length = w.pending.length ∧ w.turn.unchanged = w.unchanged+1 := by
  obtain ⟨pending,u⟩ := w
  cases pending with
  | nil => simp at h
  | cons head rest =>
    have := Route.length_absorb_le head rest
    by_cases hl : (head.absorb rest).2.length < rest.length
    · left; simp [turn]; omega
    · right; simp [turn,hl]; omega

/-- Take turns until every route in a row has merged with none. -/
def run (w : Worklist) : List Route :=
  if _h : w.unchanged < w.pending.length then w.turn.run else w.pending
termination_by (w.pending.length,w.pending.length-w.unchanged)
decreasing_by
  rcases w.turn_decreases _h with hl | ⟨hl,hu⟩
  · exact Prod.Lex.left _ _ hl
  · rw [hl]
    exact Prod.Lex.right _ (by omega)

end Worklist

namespace Route

def sort (rs : List Route) : List Route := rs.mergeSort fun a b => (compare a b).isLE

/-- Aggregate routes that lead to one neighbor. Merging can make a route that was there already,
which is kept once. -/
def aggregate (rs : List Route) : List Route := Table.distinct (Worklist.run ⟨sort rs,0⟩)

end Route

namespace Rib

/-- Put a route into the group of its neighbor. -/
def addToGroup (peer : Address) (r : Route) :
    List (Address × List Route) → List (Address × List Route)
  | [] => [(peer,[r])]
  | g::gs => if g.1 = peer then (peer,g.2++[r])::gs else g::addToGroup peer r gs

/-- The routes to each neighbor, neighbors in the order of their first routes. -/
def groups (rib : Rib) : List (Address × List Route) :=
  rib.entries.foldl (fun gs e => addToGroup e.2 e.1 gs) []

/-- Groups as they are shown: each neighbor's routes aggregated, neighbors in ascending order. -/
def entriesOf (groups : List (Address × List Route)) : List TableEntry :=
  (groups.mergeSort fun g h => (compare g.1 h.1).isLE).flatMap fun g =>
    (Route.aggregate g.2).map fun r => ⟨r,g.1⟩

/-- The table as it is shown. -/
def snapshot (rib : Rib) : List TableEntry := entriesOf rib.groups

end Rib
end PathVector
