/-! UTF-8. A sequence of bytes is cut into units: characters, and longest runs of bytes that begin a
character without completing it. Strict decoding refuses the latter, lenient decoding puts U+FFFD
in place of each. -/
namespace PathVector
namespace Utf8

def encode (cs : List Char) : List UInt8 := cs.flatMap String.utf8EncodeChar

/-- Bytes that a lead byte asks for: how many, and the bounds of the first of them. -/
structure Lead where
  payload : Nat
  low : UInt8 := 0x80
  high : UInt8 := 0xbf
  tails : Nat

/-- The classes of lead bytes above ASCII. The bounds exclude overlong forms, surrogates and values
above U+10FFFF. -/
def lead? (b : UInt8) : Option Lead :=
  let p (base : Nat) := b.toNat-base
  if b < 0xc2 then none
  else if b < 0xe0 then some { payload := p 0xc0, tails := 1 }
  else if b = 0xe0 then some { payload := 0, low := 0xa0, tails := 2 }
  else if b = 0xed then some { payload := p 0xe0, high := 0x9f, tails := 2 }
  else if b < 0xf0 then some { payload := p 0xe0, tails := 2 }
  else if b = 0xf0 then some { payload := 0, low := 0x90, tails := 3 }
  else if b < 0xf4 then some { payload := p 0xf0, tails := 3 }
  else if b = 0xf4 then some { payload := p 0xf0, high := 0x8f, tails := 3 }
  else none

/-- Read the bytes after a lead byte; stop in front of the first one that does not fit. -/
def tail (low high : UInt8) (payload : Nat) : Nat → List UInt8 → Option Char × List UInt8
  | 0, bs => (some (Char.ofNat payload),bs)
  | _+1, [] => (none,[])
  | n+1, b::bs =>
    if low ≤ b ∧ b ≤ high then tail 0x80 0xbf (payload*64+(b.toNat-0x80)) n bs
    else (none,b::bs)

/-- The unit that starts with `b`, and what follows it. -/
def unit (b : UInt8) (bs : List UInt8) : Option Char × List UInt8 :=
  if b < 0x80 then (some (Char.ofNat b.toNat),bs)
  else match lead? b with
    | some l => tail l.low l.high l.payload l.tails bs
    | none => (none,bs)

theorem length_tail_le (low high : UInt8) (p n : Nat) (bs : List UInt8) :
    (tail low high p n bs).2.length ≤ bs.length := by
  induction n generalizing low high p bs with
  | zero => simp [tail]
  | succ n ih =>
    cases bs with
    | nil => simp [tail]
    | cons b bs =>
      unfold tail
      split
      · exact Nat.le_trans (ih _ _ _ bs) (by simp)
      · simp

theorem length_unit_le (b : UInt8) (bs : List UInt8) : (unit b bs).2.length ≤ bs.length := by
  unfold unit
  split
  · simp
  · split
    · exact length_tail_le _ _ _ _ _
    · simp

/-- The first `n` units. -/
def take : Nat → List UInt8 → List (Option Char)
  | n+1, b::bs => (unit b bs).1::take n (unit b bs).2
  | _, _ => []

/-- All units: a unit has at least one byte, so there are no more units than bytes. -/
def units (bs : List UInt8) : List (Option Char) := take bs.length bs

theorem take_eq_take {n m : Nat} {bs : List UInt8} (hn : bs.length ≤ n) (hm : bs.length ≤ m) :
    take n bs = take m bs := by
  induction n generalizing bs m with
  | zero => cases bs <;> simp_all [take]
  | succ n ih =>
    cases bs with
    | nil => simp [take]
    | cons b bs =>
      have hu := length_unit_le b bs
      cases m with
      | zero => simp at hm
      | succ m =>
        simp only [List.length_cons] at hn hm
        simp only [take]
        rw [ih (m := m) (by omega) (by omega)]

theorem units_cons (b : UInt8) (bs : List UInt8) :
    units (b::bs) = (unit b bs).1::units (unit b bs).2 := by
  have hu := length_unit_le b bs
  simp only [units,List.length_cons,take]
  rw [take_eq_take hu (Nat.le_refl _)]

def decode? (bs : List UInt8) : Option (List Char) := (units bs).mapM id

def decodeLenient (bs : List UInt8) : List Char := (units bs).map (·.getD '\ufffd')

end Utf8
end PathVector
