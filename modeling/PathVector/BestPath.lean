import PathVector.Aggregate

/-! The route taken towards a destination: of the routes that contain it, those with the longest
mask; of these, those with the largest local preference; then those that a neighbor originated
itself, those with the shortest path, those with the best origin, and last the lowest neighbor. -/
namespace PathVector

/-- The members of a list with the greatest key. -/
def maximal {α κ : Type} [Ord κ] (key : α → κ) (xs : List α) : List α :=
  xs.filter fun x => xs.all fun y => (compare (key y) (key x)).isLE

/-- The members of a list with the least key. -/
def minimal {α κ : Type} [Ord κ] (key : α → κ) (xs : List α) : List α :=
  xs.filter fun x => xs.all fun y => (compare (key x) (key y)).isLE

theorem mem_maximal {α κ : Type} [Ord κ] {key : α → κ} {xs : List α} {x : α} :
    x ∈ maximal key xs ↔ x ∈ xs ∧ ∀ y ∈ xs, (compare (key y) (key x)).isLE = true := by
  simp [maximal]

theorem mem_minimal {α κ : Type} [Ord κ] {key : α → κ} {xs : List α} {x : α} :
    x ∈ minimal key xs ↔ x ∈ xs ∧ ∀ y ∈ xs, (compare (key x) (key y)).isLE = true := by
  simp [minimal]

namespace Rib

/-- The entries whose network contains `d`. -/
def candidates (rib : Rib) (d : Address) : List (Route × Address) :=
  rib.entries.filter fun e => e.1.network.Contains d

/-- The first of the entries that no rule sets behind another. -/
def foremost? (es : List (Route × Address)) : Option (Route × Address) :=
  es
    |> maximal (·.1.mask.length)
    |> maximal (·.1.localPref)
    |> maximal (·.1.selfOriginated)
    |> minimal (·.1.asPath.length)
    |> maximal (·.1.origin)
    |> minimal (·.2)
    |>.head?

/-- A single candidate is taken without looking at the rules. -/
def bestPath? (rib : Rib) (d : Address) : Option (Route × Address) :=
  let found := rib.candidates d
  if found.length ≤ 1 then found.head? else foremost? found

theorem mem_candidates {rib : Rib} {d : Address} {e : Route × Address} :
    e ∈ rib.candidates d ↔ e ∈ rib.entries ∧ e.1.network.Contains d := by
  simp [candidates]

end Rib
end PathVector
