import PathVector.Shortest
import PathVector.Table

/-! JSON trees and their compact text. The members of an object stand in the order of their text and
may repeat; the canonical form sorts them by name and keeps the last of each name. -/
namespace PathVector

/-- Integers from `-2^63` to below `2^64` stay exact; all other numbers are rounded. -/
inductive Number where
  | integer (n : Int)
  | real (x : Binary64)
deriving DecidableEq

inductive Json where
  | null
  | boolean (b : Bool)
  | number (n : Number)
  | string (s : String)
  | list (items : List Json)
  | object (members : List (String × Json))
deriving BEq, Inhabited

def Number.chars : Number → List Char
  | integer n => (if n < 0 then ['-'] else [])++Decimal.digits n.natAbs
  | real x => x.chars

namespace Json

def integer (n : Int) : Json := .number (.integer n)

instance : Coe String Json := ⟨.string⟩

/-- Sort members by name; of a repeated name the last stays. -/
def sortMembers (ms : List (String × Json)) : List (String × Json) := (Table.ofList ms).entries

mutual

def canonical : Json → Json
  | .list xs => .list (canonicalItems xs)
  | .object ms => .object (sortMembers (canonicalMembers ms))
  | j => j

def canonicalItems : List Json → List Json
  | [] => []
  | x::xs => x.canonical::canonicalItems xs

def canonicalMembers : List (String × Json) → List (String × Json)
  | [] => []
  | (k,v)::ms => (k,v.canonical)::canonicalMembers ms

end

theorem canonicalItems_eq_map (xs : List Json) : canonicalItems xs = xs.map canonical := by
  induction xs <;> simp_all [canonicalItems]

theorem canonicalMembers_eq_map (ms : List (String × Json)) :
    canonicalMembers ms = ms.map fun m => (m.1,m.2.canonical) := by
  induction ms <;> simp_all [canonicalMembers]

/-- The value of the last member called `k`. -/
def get? (k : String) : Json → Option Json
  | .object ms => (ms.reverse.find? fun m => m.1 = k).map (·.2)
  | _ => none

def escapeChar (c : Char) : List Char :=
  match c with
  | '"' => ['\\','"']
  | '\\' => ['\\','\\']
  | '\x08' => ['\\','b']
  | '\x0c' => ['\\','f']
  | '\n' => ['\\','n']
  | '\r' => ['\\','r']
  | '\t' => ['\\','t']
  | c =>
    if c.toNat < 32 then
      '\\' :: 'u' :: '0' :: '0' :: [Nat.digitChar (c.toNat/16),Nat.digitChar (c.toNat%16)]
    else [c]

def stringChars (s : String) : List Char := '"'::s.toList.flatMap escapeChar++['"']

mutual

def chars : Json → List Char
  | .null => "null".toList
  | .boolean true => "true".toList
  | .boolean false => "false".toList
  | .number n => n.chars
  | .string s => stringChars s
  | .list xs => '['::itemChars xs++[']']
  | .object ms => '{'::memberChars ms++['}']

def itemChars : List Json → List Char
  | [] => []
  | [x] => x.chars
  | x::xs => x.chars ++ ',' :: itemChars xs

def memberChars : List (String × Json) → List Char
  | [] => []
  | [(k,v)] => stringChars k ++ ':' :: v.chars
  | (k,v)::ms => stringChars k ++ ':' :: v.chars ++ ',' :: memberChars ms

end

def text (j : Json) : String := String.ofList j.chars

end Json
end PathVector
