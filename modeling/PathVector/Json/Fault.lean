import PathVector.Address
import PathVector.Json.Basic
import PathVector.Text.Quoted

/-! Why a text is not JSON, or why JSON is not what was asked for. -/
namespace PathVector

/-- What stood where something else was wanted. -/
inductive Found where
  | null
  | boolean (b : Bool)
  | number (n : Number)
  | string (s : String)
  | list
  | object
deriving DecidableEq

inductive Fault where
  | endInValue
  | endInList
  | endInObject
  | endInString
  | expectedValue
  | expectedWord
  | expectedColon
  | expectedItemEnd
  | expectedMemberEnd
  | nameNotString
  | trailingComma
  | trailingCharacters
  | invalidNumber
  | numberOutOfRange
  | invalidEscape
  | invalidCodePoint
  | loneSurrogate
  | unfinishedSurrogatePair
  | controlCharacter
  | tooDeep
  | missingField (name : String)
  | duplicateField (name : String)
  | unknownVariant (name : String) (known : List String)
  | invalidType (found : Found) (wanted : String)
  | invalidValue (found : Found) (wanted : String)
  | invalidLength (n : Nat) (wanted : String)
  | invalidAddress
  | invalidMask (value : Address)
deriving DecidableEq

/-- A text can break off, break the grammar, or be JSON of the wrong form. -/
inductive FaultCategory where
  | ending | grammar | form
deriving DecidableEq

namespace Found

def ofJson : Json → Found
  | .null => null
  | .boolean b => boolean b
  | .number n => number n
  | .string s => string s
  | .list _ => list
  | .object _ => object

def text : Found → String
  | null => "null"
  | boolean b => s!"boolean `{b}`"
  | number (.integer n) => s!"integer `{n}`"
  | number (.real x) => s!"floating point `{String.ofList x.chars}`"
  | string s => s!"string {Text.quoted s}"
  | list => "sequence"
  | object => "map"

end Found

namespace Fault

def category : Fault → FaultCategory
  | endInValue | endInList | endInObject | endInString => .ending
  | missingField _ | duplicateField _ | unknownVariant _ _ | invalidType _ _ | invalidValue _ _
  | invalidLength _ _ | invalidAddress | invalidMask _ => .form
  | _ => .grammar

def message : Fault → String
  | endInValue => "EOF while parsing a value"
  | endInList => "EOF while parsing a list"
  | endInObject => "EOF while parsing an object"
  | endInString => "EOF while parsing a string"
  | expectedValue => "expected value"
  | expectedWord => "expected ident"
  | expectedColon => "expected `:`"
  | expectedItemEnd => "expected `,` or `]`"
  | expectedMemberEnd => "expected `,` or `\x7d`"
  | nameNotString => "key must be a string"
  | trailingComma => "trailing comma"
  | trailingCharacters => "trailing characters"
  | invalidNumber => "invalid number"
  | numberOutOfRange => "number out of range"
  | invalidEscape => "invalid escape"
  | invalidCodePoint => "invalid unicode code point"
  | loneSurrogate => "lone leading surrogate in hex escape"
  | unfinishedSurrogatePair => "unexpected end of hex escape"
  | controlCharacter => "control character (\\u0000-\\u001F) found while parsing a string"
  | tooDeep => "recursion limit exceeded"
  | missingField name => s!"missing field `{name}`"
  | duplicateField name => s!"duplicate field `{name}`"
  | unknownVariant name known =>
    let names := ", ".intercalate (known.map fun k => s!"`{k}`")
    s!"unknown variant `{name}`, expected one of {names}"
  | invalidType found wanted => s!"invalid type: {found.text}, expected {wanted}"
  | invalidValue found wanted => s!"invalid value: {found.text}, expected {wanted}"
  | invalidLength n wanted => s!"invalid length {n}, expected {wanted}"
  | invalidAddress => "invalid IPv4 address syntax"
  | invalidMask value => s!"non-contiguous subnet mask {value}"

end Fault
end PathVector
