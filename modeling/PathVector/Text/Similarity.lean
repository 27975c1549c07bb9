/-! How similar two texts are: characters match if they are equal and at most about half the longer
text apart, and matches out of order count half. -/
namespace PathVector
namespace Text

/-- Mark the first character that equals `c`, is not marked yet and stands at `low` or later among
the first `high`. -/
def mark (c : Char) : (low high : Nat) → List (Char × Bool) → Option (List (Char × Bool))
  | _, 0, _ => none
  | _, _, [] => none
  | low, high+1, (d,marked)::ds =>
    if low = 0 ∧ d = c ∧ ¬ marked then some ((d,true)::ds)
    else ((d,marked)::·) <$> mark c (low-1) high ds

/-- The characters of the first text, from index `i` on, that match, and the second text with its
matches marked. -/
def matching (range : Nat) : Nat → List Char → List (Char × Bool) → List Char × List (Char × Bool)
  | _, [], bs => ([],bs)
  | i, a::as, bs =>
    match mark a (i-range) (i+range+1) bs with
    | some bs => let (found,bs) := matching range (i+1) as bs; (a::found,bs)
    | none => matching range (i+1) as bs

/-- From zero to one, which equal texts have. -/
def similarity (a b : String) : Float :=
  let as := a.toList
  let bs := b.toList
  if as.isEmpty ∧ bs.isEmpty then 1
  else
    let range := max as.length bs.length/2-1
    let (found,marked) := matching range 0 as (bs.map (·,false))
    let found' := (marked.filter (·.2)).map (·.1)
    let swaps := ((found.zip found').countP fun p => p.1 ≠ p.2)/2
    let m := found.length
    if m = 0 then 0
    else (m.toFloat/as.length.toFloat+m.toFloat/bs.length.toFloat+(m-swaps).toFloat/m.toFloat)/3

/-- The most similar of the known texts if it is similar enough; of equals the last. -/
def mostSimilar? (s : String) (known : List String) : Option String :=
  known.foldl (fun best k =>
    if 0.7 < similarity s k ∧ best.all (fun b => similarity s b ≤ similarity s k) then some k
    else best) none

end Text
end PathVector
