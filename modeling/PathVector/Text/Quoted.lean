import PathVector.Text.Hidden

/-! Text between quotes, as it is shown in an error message. -/
namespace PathVector
namespace Text

def hexDigits (n : Nat) : List Char := Nat.toDigits 16 n

def quoteChar (c : Char) : List Char :=
  match c with
  | '\x00' => ['\\','0']
  | '\t' => ['\\','t']
  | '\n' => ['\\','n']
  | '\r' => ['\\','r']
  | '"' => ['\\','"']
  | '\\' => ['\\','\\']
  | c => if isHidden c then ['\\','u','\x7b']++hexDigits c.toNat++['\x7d'] else [c]

def quoted (s : String) : String := String.ofList ('"'::s.toList.flatMap quoteChar++['"'])

end Text
end PathVector
