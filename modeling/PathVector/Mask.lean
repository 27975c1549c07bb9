import PathVector.Address

/-! Subnet masks: a run of ones followed by zeros, kept as the length of the run. -/
namespace PathVector

structure Mask where
  length : Nat
  length_le : length ≤ 32 := by omega
deriving DecidableEq

namespace Mask

instance : Inhabited Mask := ⟨⟨0,by decide⟩⟩

instance : Ord Mask := ⟨compareOn (·.length)⟩

instance : Std.TransOrd Mask := inferInstanceAs (Std.TransCmp (compareOn Mask.length))

instance : Std.LawfulEqOrd Mask where
  eq_of_compare {a b} h := by
    have := Std.LawfulEqOrd.eq_of_compare (α := Nat) h
    cases a; cases b; simp_all

theorem compare_eq_lt {m m' : Mask} : compare m m' = .lt ↔ m.length < m'.length :=
  compareOfLessAndEq_eq_lt

/-- Lengths beyond 32 are cut to 32. -/
def ofLength (n : Nat) : Mask := ⟨min n 32,by omega⟩

/-- How many bits lie outside the mask. -/
def shift (m : Mask) : Nat := 32-m.length

def address (m : Mask) : Address := ⟨BitVec.allOnes 32 <<< m.shift⟩

instance : ToString Mask := ⟨fun m => toString m.address⟩

def leadingOnes (v : BitVec 32) : Nat :=
  ((List.range 32).takeWhile fun i => v.getMsbD i).length

/-- The mask with the bits of `a`, if these are ones followed by zeros. -/
def ofAddress? (a : Address) : Option Mask :=
  let m := ofLength (leadingOnes a.bits)
  if m.address = a then some m else none

@[simp] theorem length_ofLength (n : Nat) : (ofLength n).length = min n 32 := rfl

theorem ofLength_length (m : Mask) : ofLength m.length = m := by
  cases m; simp [ofLength]; omega

/-- The next shorter mask; the empty mask has none. -/
def parent? (m : Mask) : Option Mask :=
  if m.length = 0 then none else some (ofLength (m.length-1))

theorem address_of_ofAddress? {a : Address} {m : Mask} (h : ofAddress? a = some m) :
    m.address = a := by
  unfold ofAddress? at h
  simp only at h
  split at h
  · exact Option.some.inj h ▸ ‹_›
  · simp at h

end Mask
end PathVector
