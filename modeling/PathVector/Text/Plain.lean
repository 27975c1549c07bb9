/-! Text without what controls a terminal: control characters other than blanks, and the sequences
that an escape character begins. A blank within a sequence shows, and so does what follows it up to
the next control character; there the sequence goes on. -/
namespace PathVector
namespace Text

/-- Where in a control sequence a character stands. -/
inductive Sequence where
  | outside
  | escape
  | intermediate
  | parameters
  /-- At the start of a sequence for a device, and further on in it. -/
  | device | deviceParameters | deviceIntermediate
  /-- Text for the terminal up to a terminator. -/
  | payload
  /-- Text for the terminal up to a bell. -/
  | title
deriving DecidableEq

namespace Sequence

def isBlank (c : Char) : Bool := c = '\t' || c = '\n' || c = '\x0c' || c = '\r'

/-- Whether the byte that terminates a payload is among those of the character. -/
def terminates (c : Char) : Bool := (String.utf8EncodeChar c).contains 0x9c

/-- Where the next character stands, if `c` does not show. -/
def next (s : Sequence) (c : Char) : Sequence :=
  let n := c.toNat
  if n = 0x1b then escape
  else if n = 0x18 ∨ n = 0x1a then outside
  else match s with
    | outside => outside
    | escape =>
      if n < 0x20 ∨ 0x7e < n then escape
      else if n < 0x30 then intermediate
      else if c = '[' then parameters
      else if c = ']' then title
      else if c = 'P' then device
      else if c ∈ ['X','^','_'] then payload
      else outside
    | intermediate => if 0x30 ≤ n ∧ n ≤ 0x7e then outside else intermediate
    | parameters => if 0x40 ≤ n ∧ n ≤ 0x7e then outside else parameters
    | device =>
      if n < 0x20 ∨ 0x7e < n then device
      else if n < 0x30 then deviceIntermediate
      else if n < 0x40 then deviceParameters
      else payload
    | deviceParameters =>
      if n < 0x20 ∨ 0x7e < n then deviceParameters
      else if n < 0x30 then deviceIntermediate
      else if n < 0x3c then deviceParameters
      else payload
    | deviceIntermediate => if n < 0x30 ∨ 0x7e < n then deviceIntermediate else payload
    | payload => if terminates c then outside else payload
    | title => if n = 0x07 then outside else title

def shows (s : Sequence) (c : Char) : Bool :=
  match s with
  | outside => isBlank c || (0x20 ≤ c.toNat && c.toNat ≠ 0x7f)
  | escape | intermediate | parameters => isBlank c
  | _ => false

/-- Where the next character stands, if `c` shows. -/
def past (s : Sequence) (c : Char) : Sequence := if c.toNat < 0x80 then s else outside

/-- The characters that show. Behind one that does, a character shows as it would outside. -/
def strip : (showing : Bool) → Sequence → List Char → List Char
  | _, _, [] => []
  | showing, s, c::cs =>
    if (if showing then outside else s).shows c then c::strip true (s.past c) cs
    else strip false (s.next c) cs

end Sequence

def plain (s : String) : String := String.ofList (Sequence.strip false .outside s.toList)

/-- What shows of an emphasized text begins and ends outside of all sequences. -/
def emphasized (s : String) : String := s!"\x1b[1m{s}\x1b[0m"

end Text
end PathVector
