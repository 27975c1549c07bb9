import PathVector.Json.Skip

/-! Forms: how values of a type are read from text, taken from a tree, and written as one. Reading
from text reports the first fault in text order; its argument is how deep the value may be nested.
-/
namespace PathVector

structure Form (α : Type) where
  read : Nat → Reader α
  ofJson : Json → Except Fault α
  toJson : α → Json

namespace Reader

variable {α : Type}

/-- A number token, its sign included. -/
def numberToken : Reader Number := do
  if (← peek) = some '-' then do advance; number true
  else number false

/-- The fault of a value that is not `wanted`. Words, numbers and strings are read first and may
have faults of their own. -/
def mismatch (wanted : String) : Reader α := do
  match ← peekToken with
  | none => throw .endInValue
  | some 'n' => advance; word ['u','l','l']; throw (.invalidType .null wanted)
  | some 't' => advance; word ['r','u','e']; throw (.invalidType (.boolean true) wanted)
  | some 'f' => advance; word ['a','l','s','e']; throw (.invalidType (.boolean false) wanted)
  | some '"' => advance; throw (.invalidType (.string (← string)) wanted)
  | some '[' => throw (.invalidType .list wanted)
  | some '\x7b' => throw (.invalidType .object wanted)
  | some c =>
    if c = '-' ∨ c.isDigit then throw (.invalidType (.number (← numberToken)) wanted)
    else throw .expectedValue

/-- A string, where `wanted` is asked for. -/
def stringToken (wanted : String) : Reader String := do
  if (← peekToken) = some '"' then do advance; string else mismatch wanted

def null (wanted : String) : Reader Unit := do
  if (← peekToken) = some 'n' then do advance; word ['u','l','l'] else mismatch wanted

end Reader

namespace Form

variable {α β : Type}

/-- The fault of a tree that is not `wanted`. -/
def mismatch (j : Json) (wanted : String) : Except Fault α :=
  .error (.invalidType (.ofJson j) wanted)

/-- Any tree, in canonical form. -/
def json : Form Json where
  read depth := Json.canonical <$> Reader.value depth
  ofJson := .ok
  toJson := id

/-- An integer from zero to below `bound`. -/
def unsigned (bound : Nat) (wanted : String) : Number → Except Fault Nat
  | .integer n =>
    if 0 ≤ n ∧ n < bound then .ok n.toNat else .error (.invalidValue (.number (.integer n)) wanted)
  | .real x => .error (.invalidType (.number (.real x)) wanted)

def natural (bound : Nat) (wanted : String) : Form Nat where
  read _ := do
    let c ← Reader.peekToken
    if c.any fun c => c = '-' || c.isDigit then
      StateT.lift (unsigned bound wanted (← Reader.numberToken))
    else Reader.mismatch wanted
  ofJson
    | .number n => unsigned bound wanted n
    | j => mismatch j wanted
  toJson n := .integer n

/-- Read as another type. -/
def map (f : Form α) (decode : α → Except Fault β) (encode : β → α) : Form β where
  read depth := do StateT.lift (decode (← f.read depth))
  ofJson j := do decode (← f.ofJson j)
  toJson b := f.toJson (encode b)

def word32 : Form UInt32 := (natural UInt32.size "u32").map (.ok ·.toUInt32) (·.toNat)

def word16 : Form UInt16 := (natural UInt16.size "u16").map (.ok ·.toUInt16) (·.toNat)

def byte : Form UInt8 := (natural UInt8.size "u8").map (.ok ·.toUInt8) (·.toNat)

def boolean : Form Bool where
  read _ := do
    match ← Reader.peekToken with
    | some 't' => Reader.advance; Reader.word ['r','u','e']; return true
    | some 'f' => Reader.advance; Reader.word ['a','l','s','e']; return false
    | _ => Reader.mismatch "a boolean"
  ofJson
    | .boolean b => .ok b
    | j => mismatch j "a boolean"
  toJson := .boolean

def string (wanted : String) : Form String where
  read _ := Reader.stringToken wanted
  ofJson
    | .string s => .ok s
    | j => mismatch j wanted
  toJson := .string

def list (f : Form α) : Form (List α) where
  read
    | 0 => do
      if (← Reader.peekToken) = some '[' then throw .tooDeep else Reader.mismatch "a sequence"
    | depth+1 => do
      if (← Reader.peekToken) = some '[' then
        Reader.advance
        Reader.list (f.read depth)
      else Reader.mismatch "a sequence"
  ofJson
    | .list xs => xs.mapM f.ofJson
    | j => mismatch j "a sequence"
  toJson xs := .list (xs.map f.toJson)

/-- Null stands for an absent value. -/
def optional (f : Form α) : Form (Option α) where
  read depth := do
    if (← Reader.peekToken) = some 'n' then do
      Reader.advance
      Reader.word ['u','l','l']
      return none
    else return some (← f.read depth)
  ofJson
    | .null => .ok none
    | j => some <$> f.ofJson j
  toJson
    | none => .null
    | some a => f.toJson a

/-- The named value, or the fault that tells all names. -/
def variant (names : List String) (ofName? : String → Option α) (s : String) : Except Fault α :=
  match ofName? s with
  | some a => .ok a
  | none => .error (.unknownVariant s names)

/-- A name out of a list; also an object with the name as its only member, whose value is null or,
if `emptyObject` allows it, an object without members. -/
def choice (names : List String) (ofName? : String → Option α) (name : α → String)
    (emptyObject : Bool) : Form α where
  read depth := do
    match ← Reader.peekToken with
    | none => throw .endInValue
    | some '"' =>
      Reader.advance
      StateT.lift (variant names ofName? (← Reader.string))
    | some '\x7b' =>
      if depth = 0 then throw .tooDeep
      Reader.advance
      if !(← Reader.hasMember true) then throw .expectedValue
      let a ← StateT.lift (variant names ofName? (← Reader.name))
      Reader.colon
      Reader.null "unit"
      match ← Reader.peekToken with
      | none => throw .endInObject
      | some '\x7d' => Reader.advance; return a
      | some _ => throw .expectedValue
    | some _ => throw .expectedValue
  ofJson
    | .string s => variant names ofName? s
    | .object [(k,v)] => do
      let a ← variant names ofName? k
      match v with
      | .null => return a
      | .object [] => if emptyObject then return a else mismatch v "unit"
      | v => mismatch v "unit"
    | .object _ => .error (.invalidValue .object "map with a single key")
    | j => mismatch j "string or map"
  toJson a := .string (name a)

/-- Read a whole text. -/
def readText (f : Form α) (bs : List UInt8) : Except Fault α := (f.read Reader.depthLimit).run bs

end Form
end PathVector
