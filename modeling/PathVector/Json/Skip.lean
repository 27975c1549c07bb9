import PathVector.Json.Reader

/-! Skipping the value of a member that nobody asked for. Only its grammar is looked at: it may be
nested without limit, its numbers may be too large, its strings need not be UTF-8. -/
namespace PathVector
namespace Reader

/-- An open list or object. -/
inductive Frame where
  | list | object
deriving DecidableEq

namespace Frame

def close : Frame → Char
  | list => ']'
  | object => '\x7d'

def ending : Frame → Fault
  | list => .endInList
  | object => .endInObject

def expectedEnd : Frame → Fault
  | list => .expectedItemEnd
  | object => .expectedMemberEnd

end Frame

def skipEscape : Reader Unit := do
  match ← next with
  | none => throw .endInString
  | some 'u' => discard hex4
  | some c => if c ∈ ['"','\\','/','b','f','n','r','t'] then return else throw .invalidEscape

def skipStringBytes : Nat → Reader Unit
  | 0 => throw .endInString
  | n+1 => do
    match ← get with
    | [] => throw .endInString
    | b::bs =>
      set bs
      if b = 0x22 then return
      else if b = 0x5c then
        skipEscape
        skipStringBytes n
      else if b < 0x20 then throw .controlCharacter
      else skipStringBytes n

def skipString : Reader Unit := do skipStringBytes (← get).length

/-- At least one digit. -/
def skipDigits : Reader Unit := do
  if (← digits).isEmpty then throw .invalidNumber

def skipNumber : Reader Unit := do
  match ← digits with
  | [] | 0::_::_ => throw .invalidNumber
  | _ => pure ()
  if (← peek) = some '.' then
    advance
    skipDigits
  let c ← peek
  if c = some 'e' ∨ c = some 'E' then
    advance
    let sign ← peek
    if sign = some '+' ∨ sign = some '-' then advance
    skipDigits

/-- Before a further value in `frame`: an object has its name first. -/
def skipName : Frame → Reader Unit
  | .list => return
  | .object => do
    match ← peekToken with
    | none => throw .endInObject
    | some '"' =>
      advance
      skipString
      colon
    | some _ => throw .nameNotString

/-- Close frames as long as they end here. The answer is the frames around the next value, or none
when the outermost is closed. After a value a comma may follow. -/
def skipClosed : Bool → List Frame → Reader (Option (List Frame))
  | _, [] => return none
  | afterValue, frame::outer => do
    match ← peekToken with
    | none => throw frame.ending
    | some c =>
      if c = frame.close then
        advance
        skipClosed true outer
      else if afterValue then
        if c = ',' then
          advance
          skipName frame
          return some (frame::outer)
        else throw frame.expectedEnd
      else
        skipName frame
        return some (frame::outer)

/-- Skip a value that is no list and no object, or the bracket that opens one. -/
def skipStart : Reader (Option Frame) := do
  match ← peekToken with
  | none => throw .endInValue
  | some 'n' => advance; word ['u','l','l']; return none
  | some 't' => advance; word ['r','u','e']; return none
  | some 'f' => advance; word ['a','l','s','e']; return none
  | some '-' => advance; skipNumber; return none
  | some '"' => advance; skipString; return none
  | some '[' => advance; return some .list
  | some '\x7b' => advance; return some .object
  | some c => if c.isDigit then do skipNumber; return none else throw .expectedValue

def skipWithin : Nat → List Frame → Reader Unit
  | 0, _ => throw .endInValue
  | n+1, frames => do
    let next ← match ← skipStart with
      | some frame => skipClosed false (frame::frames)
      | none => skipClosed true frames
    match next with
    | some frames => skipWithin n frames
    | none => return

def skipValue : Reader Unit := do skipWithin ((← get).length+1) []

end Reader
end PathVector
