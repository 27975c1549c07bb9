import PathVector.Json.Fault
import PathVector.Utf8

/-! Reading JSON text from left to right. A reader takes bytes off the front of what is left and
stops at the first fault. Loops carry a bound on the bytes left: every turn takes at least one. -/
namespace PathVector

abbrev Reader := StateT (List UInt8) (Except Fault)

namespace Reader

variable {α : Type}

/-- The next byte as a character below U+0100, left in place. -/
def peek : Reader (Option Char) := return (← get).head?.map fun b => Char.ofNat b.toNat

def advance : Reader Unit := modify List.tail

def next : Reader (Option Char) := do
  let c ← peek
  advance
  return c

def isSpace (b : UInt8) : Bool := b = 0x20 || b = 0x0a || b = 0x0d || b = 0x09

/-- The next byte that is not a blank. -/
def peekToken : Reader (Option Char) := do
  modify (List.dropWhile isSpace)
  peek

/-- The rest of `null`, `true` or `false`. -/
def word : List Char → Reader Unit
  | [] => return
  | c::cs => do
    match ← next with
    | none => throw .endInValue
    | some d => if d = c then word cs else throw .expectedWord

def hexValue? (b : UInt8) : Option Nat :=
  let n := b.toNat
  if 48 ≤ n ∧ n ≤ 57 then some (n-48)
  else if 65 ≤ n ∧ n ≤ 70 then some (n-55)
  else if 97 ≤ n ∧ n ≤ 102 then some (n-87)
  else none

/-- The value of the four hexadecimal digits of an escape. -/
def hex4 : Reader Nat := do
  match ← get with
  | a::b::c::d::bs =>
    set bs
    match [a,b,c,d].mapM hexValue? with
    | some ds => return ds.foldl (fun n x => n*16+x) 0
    | none => throw .invalidEscape
  | _ => throw .endInString

/-- Surrogates come in pairs, a leading one first. -/
def unicodeEscape : Reader Char := do
  let n ← hex4
  if 0xdc00 ≤ n ∧ n ≤ 0xdfff then throw .loneSurrogate
  if n < 0xd800 ∨ 0xdbff < n then return Char.ofNat n
  for c in ['\\','u'] do
    match ← peek with
    | none => throw .endInString
    | some d => if d = c then advance else throw .unfinishedSurrogatePair
  let m ← hex4
  if m < 0xdc00 ∨ 0xdfff < m then throw .loneSurrogate
  return Char.ofNat ((n-0xd800)*0x400+(m-0xdc00)+0x10000)

def escape : Reader Char := do
  match ← next with
  | none => throw .endInString
  | some '"' => return '"'
  | some '\\' => return '\\'
  | some '/' => return '/'
  | some 'b' => return '\x08'
  | some 'f' => return '\x0c'
  | some 'n' => return '\n'
  | some 'r' => return '\r'
  | some 't' => return '\t'
  | some 'u' => unicodeEscape
  | some _ => throw .invalidEscape

/-- The bytes of a string up to its closing quote, escapes replaced. -/
def stringBytes : Nat → Reader (List UInt8)
  | 0 => throw .endInString
  | n+1 => do
    match ← get with
    | [] => throw .endInString
    | b::bs =>
      set bs
      if b = 0x22 then return []
      else if b = 0x5c then
        let c ← escape
        return String.utf8EncodeChar c++(← stringBytes n)
      else if b < 0x20 then throw .controlCharacter
      else return b::(← stringBytes n)

/-- A string after its opening quote. Bytes that are not UTF-8 are a fault once the string is
closed. -/
def string : Reader String := do
  match Utf8.decode? (← stringBytes (← get).length) with
  | some cs => return String.ofList cs
  | none => throw .invalidCodePoint

def isDigit (b : UInt8) : Bool := 48 ≤ b && b ≤ 57

def digits : Reader (List Nat) :=
  modifyGet fun bs => ((bs.takeWhile isDigit).map (·.toNat-48),bs.dropWhile isDigit)

/-- Digits before the point: no zero stands in front of another digit. -/
def wholeDigits : Reader (List Nat) := do
  let ds ← digits
  match ds with
  | [] => if (← peek).isNone then throw .endInValue else throw .invalidNumber
  | 0::_::_ => throw .invalidNumber
  | ds => return ds

/-- Append digits to `s` while the result fits 64 bits. -/
def absorb (s : Nat) : List Nat → Nat × List Nat
  | [] => (s,[])
  | d::ds => if s*10+d < UInt64.size then absorb (s*10+d) ds else (s,d::ds)

/-- What follows the `e` of a number. -/
def exponent : Reader Int := do
  let sign ← peek
  if sign = some '+' ∨ sign = some '-' then advance
  let ds ← digits
  if ds.isEmpty then
    if (← peek).isNone then throw .endInValue else throw .invalidNumber
  let n : Nat := ds.foldl (fun n d => n*10+d) 0
  return if sign = some '-' then -(n : Int) else (n : Int)

/-- The double-precision number for `s * 10 ^ e` with an optional further exponent. -/
def real (negative : Bool) (s : Nat) (e : Int) : Reader Number := do
  let c ← peek
  let e ← if c = some 'e' ∨ c = some 'E' then do advance; pure (e+(← exponent)) else pure e
  match Binary64.ofDecimal? s e with
  | some x => return .real (if negative then x.neg else x)
  | none => throw .numberOutOfRange

/-- A number after its sign. Digits beyond 64 bits only count for the exponent. -/
def number (negative : Bool) : Reader Number := do
  let (s,excess) := absorb 0 (← wholeDigits)
  match ← peek with
  | some '.' =>
    advance
    let fs ← digits
    if fs.isEmpty then
      if (← peek).isNone then throw .endInValue else throw .invalidNumber
    let (s,left) := absorb s fs
    real negative s (excess.length-(fs.length-left.length : Int))
  | some 'e' | some 'E' => real negative s excess.length
  | _ =>
    if excess ≠ [] then real negative s excess.length
    else if !negative then return .integer s
    else if 0 < s ∧ s ≤ 0x8000000000000000 then return .integer (-s)
    else real negative s 0

/-- Whether another item follows in a list; its comma is taken. -/
def hasItem (first : Bool) : Reader Bool := do
  match ← peekToken with
  | none => throw .endInList
  | some ']' => return false
  | some c =>
    if first then return true
    else if c = ',' then
      advance
      match ← peekToken with
      | none => throw .endInValue
      | some ']' => throw .trailingComma
      | some _ => return true
    else throw .expectedItemEnd

def endList : Reader Unit := do
  match ← peekToken with
  | none => throw .endInList
  | some ']' => advance
  | some ',' =>
    advance
    if (← peekToken) = some ']' then throw .trailingComma else throw .trailingCharacters
  | some _ => throw .trailingCharacters

/-- The items of a list after its opening bracket, and the closing one. -/
def items (item : Reader α) : Nat → Bool → Reader (List α)
  | 0, _ => throw .endInList
  | n+1, first => do
    if ← hasItem first then
      let a ← item
      return a::(← items item n false)
    else
      endList
      return []

def list (item : Reader α) : Reader (List α) := do items item (← get).length true

/-- Whether another member follows in an object; its comma is taken, its name begins. -/
def hasMember (first : Bool) : Reader Bool := do
  match ← peekToken with
  | none => throw .endInObject
  | some '\x7d' => return false
  | some c =>
    if first then
      if c = '"' then return true else throw .nameNotString
    else if c = ',' then
      advance
      match ← peekToken with
      | none => throw .endInValue
      | some '"' => return true
      | some '\x7d' => throw .trailingComma
      | some _ => throw .nameNotString
    else throw .expectedMemberEnd

def colon : Reader Unit := do
  match ← peekToken with
  | none => throw .endInObject
  | some ':' => advance
  | some _ => throw .expectedColon

/-- The name that `hasMember` has found. -/
def name : Reader String := do
  advance
  string

def endObject : Reader Unit := do
  match ← peekToken with
  | none => throw .endInObject
  | some '\x7d' => advance
  | some ',' => throw .trailingComma
  | some _ => throw .trailingCharacters

/-- Fold the members of an object after its opening brace, and take the closing one. What follows
a name, `member` reads from the colon on. -/
def members (member : String → α → Reader α) : Nat → Bool → α → Reader α
  | 0, _, _ => throw .endInObject
  | n+1, first, a => do
    if ← hasMember first then
      let k ← name
      members member n false (← member k a)
    else
      endObject
      return a

def object (member : String → α → Reader α) (a : α) : Reader α := do
  members member (← get).length true a

/-- A value whose items and members `inner` reads, if it may have any. -/
def valueOver (inner : Option (Reader Json)) : Reader Json := do
  match ← peekToken with
  | none => throw .endInValue
  | some 'n' => advance; word ['u','l','l']; return .null
  | some 't' => advance; word ['r','u','e']; return .boolean true
  | some 'f' => advance; word ['a','l','s','e']; return .boolean false
  | some '-' => advance; return .number (← number true)
  | some '"' => advance; return .string (← string)
  | some '[' =>
    let some item := inner | throw .tooDeep
    advance
    return .list (← list item)
  | some '\x7b' =>
    let some item := inner | throw .tooDeep
    advance
    let ms ← object (fun k ms => do colon; return (k,← item)::ms) []
    return .object ms.reverse
  | some c => if c.isDigit then return .number (← number false) else throw .expectedValue

/-- A value with lists and objects nested at most so deep. -/
def value : Nat → Reader Json
  | 0 => valueOver none
  | depth+1 => valueOver (some (value depth))

/-- How deep lists and objects may be nested. -/
def depthLimit : Nat := 127

/-- Read all of a text. -/
def run (r : Reader α) (bs : List UInt8) : Except Fault α := do
  let (a,rest) ← StateT.run r bs
  if rest.all isSpace then return a else throw .trailingCharacters

end Reader

/-- The tree of a JSON text. -/
def Json.read (bs : List UInt8) : Except Fault Json := (Reader.value Reader.depthLimit).run bs

end PathVector
