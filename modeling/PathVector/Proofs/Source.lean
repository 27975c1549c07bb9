import PathVector.Proofs.Token

/-! JSON as it is written. The source of a text is its tree with the strings and numbers as they are
spelled; its tokens may be laid out with blanks around them. -/
namespace PathVector

namespace Reader

/-- What may stand between the quotes of a string. -/
inductive StringBody : List UInt8 → Prop where
  | nil : StringBody []
  | plain {b : UInt8} {bs : List UInt8} (hb : Plain b) (h : StringBody bs) : StringBody (b::bs)
  | escape {c : Char} {bs : List UInt8} (hc : c ∈ ['"','\\','/','b','f','n','r','t'])
    (h : StringBody bs) : StringBody (0x5c::UInt8.ofNat c.toNat::bs)
  /-- Four hexadecimal digits, with their values. -/
  | unicode {a b c d : UInt8} {ds : List Nat} {bs : List UInt8}
    (hd : [a,b,c,d].mapM hexValue? = some ds) (h : StringBody bs) :
    StringBody (0x5c::0x75::a::b::c::d::bs)

theorem StringBody.of_plain {bs : List UInt8} (h : ∀ b ∈ bs, Plain b) : StringBody bs := by
  induction bs with
  | nil => exact .nil
  | cons b bs ih =>
    exact .plain (h b List.mem_cons_self) (ih fun c hc => h c (List.mem_cons_of_mem b hc))

inductive IsFraction : List UInt8 → Prop where
  | absent : IsFraction []
  | present {ds : List UInt8} (h : IsDigits ds) : IsFraction (0x2e::ds)

inductive IsExponent : List UInt8 → Prop where
  | absent : IsExponent []
  | present {e : UInt8} {sign ds : List UInt8} (he : e = 0x45 ∨ e = 0x65)
    (hs : sign = [] ∨ sign = [0x2b] ∨ sign = [0x2d]) (h : IsDigits ds) : IsExponent (e::(sign++ds))

/-- A number without its sign: no zero stands in front of another digit. -/
inductive Magnitude : List UInt8 → Prop where
  | mk {whole fraction exponent : List UInt8} (hw : IsDigits whole)
    (hz : whole.head? = some 0x30 → whole = [0x30]) (hf : IsFraction fraction)
    (he : IsExponent exponent) : Magnitude (whole++(fraction++exponent))

end Reader

open Reader

/-- A string as it is spelled. -/
def Quoted := { bs : List UInt8 // StringBody bs }

/-- The tree of a text, its strings and numbers as they are spelled. -/
inductive Source where
  | null
  | boolean (b : Bool)
  | number (negative : Bool) (magnitude : { bs : List UInt8 // Magnitude bs })
  | string (s : Quoted)
  | list (items : List Source)
  | object (members : List (Quoted × Source))

abbrev Token := List UInt8

/-- A token of one ASCII character. -/
def mark (c : Char) : Token := [UInt8.ofNat c.toNat]

namespace Quoted

/-- A string spelled without escapes. -/
def plain (s : String) (h : ∀ b ∈ Utf8.encode s.toList, Plain b) : Quoted :=
  ⟨Utf8.encode s.toList,.of_plain h⟩

def token (s : Quoted) : Token := 0x22::(s.1++[0x22])

/-- The string that is meant: not every escape is a character, nor every byte UTF-8. -/
def text? (s : Quoted) : Option String := (Reader.string.run (s.1++[0x22])).toOption

end Quoted

namespace Source

/-- Induction on sources: of an item or the value of a member the property may be assumed. -/
@[elab_as_elim, induction_eliminator]
theorem induction {P : Source → Prop} (null : P .null) (boolean : ∀ b, P (.boolean b))
    (number : ∀ negative u, P (.number negative u)) (string : ∀ s, P (.string s))
    (list : ∀ xs, (∀ x ∈ xs, P x) → P (.list xs))
    (object : ∀ ms, (∀ m ∈ ms, P m.2) → P (.object ms)) (s : Source) : P s := by
  match s with
  | .null => exact null
  | .boolean b => exact boolean b
  | .number negative u => exact number negative u
  | .string s => exact string s
  | .list xs =>
    exact list xs fun x hx => induction null boolean number string list object x
  | .object ms =>
    exact object ms fun m hm => induction null boolean number string list object m.2
termination_by sizeOf s
decreasing_by
  · have h := List.sizeOf_lt_of_mem hx
    simp only [Source.list.sizeOf_spec]
    omega
  · have h := List.sizeOf_lt_of_mem hm
    have hm : sizeOf m = 1+sizeOf m.1+sizeOf m.2 := rfl
    simp only [Source.object.sizeOf_spec]
    omega

mutual

def tokens : Source → List Token
  | .null => [Utf8.encode ['n','u','l','l']]
  | .boolean true => [Utf8.encode ['t','r','u','e']]
  | .boolean false => [Utf8.encode ['f','a','l','s','e']]
  | .number true u => [0x2d::u.1]
  | .number false u => [u.1]
  | .string s => [s.token]
  | .list xs => mark '['::(itemTokens xs++[mark ']'])
  | .object ms => mark '\x7b'::(memberTokens ms++[mark '\x7d'])

def itemTokens : List Source → List Token
  | [] => []
  | [x] => x.tokens
  | x::xs => x.tokens++mark ','::itemTokens xs

def memberTokens : List (Quoted × Source) → List Token
  | [] => []
  | [(k,v)] => k.token::mark ':'::v.tokens
  | (k,v)::ms => k.token::mark ':'::(v.tokens++mark ','::memberTokens ms)

end

def tokensOfMember (m : Quoted × Source) : List Token := m.1.token::mark ':'::m.2.tokens

theorem itemTokens_cons (x : Source) (xs : List Source) :
    itemTokens (x::xs) = x.tokens++xs.flatMap fun y => mark ','::y.tokens := by
  induction xs generalizing x with
  | nil => simp [itemTokens]
  | cons y xs ih =>
    rw [itemTokens,ih,List.flatMap_cons,List.cons_append]
    simp

theorem memberTokens_cons (m : Quoted × Source) (ms : List (Quoted × Source)) :
    memberTokens (m::ms) = tokensOfMember m++ms.flatMap fun n => mark ','::tokensOfMember n := by
  induction ms generalizing m with
  | nil => simp [memberTokens,tokensOfMember]
  | cons n ms ih =>
    rw [memberTokens,ih,List.flatMap_cons]
    · simp [tokensOfMember]
    · simp

mutual

/-- The tree that is meant, if lists and objects are nested at most so deep and all its strings and
numbers stand for something. -/
def tree? : Source → Nat → Option Json
  | .null, _ => some .null
  | .boolean b, _ => some (.boolean b)
  | .number negative u, _ => ((Reader.number negative).run u.1).toOption.map .number
  | .string s, _ => s.text?.map .string
  | .list _, 0 => none
  | .list xs, d+1 => (itemTrees? xs d).map .list
  | .object _, 0 => none
  | .object ms, d+1 => (memberTrees? ms d).map .object

def itemTrees? : List Source → Nat → Option (List Json)
  | [], _ => some []
  | x::xs, d => do return (← x.tree? d)::(← itemTrees? xs d)

def memberTrees? : List (Quoted × Source) → Nat → Option (List (String × Json))
  | [], _ => some []
  | (k,v)::ms, d => do return (← k.text?,← v.tree? d)::(← memberTrees? ms d)

end

end Source

/-- The tokens in order, with any blanks before, between and after them. -/
inductive Spaced : List Token → List UInt8 → Prop where
  | nil {ws : List UInt8} (h : ∀ b ∈ ws, isSpace b = true) : Spaced [] ws
  | cons {ws t : List UInt8} {ts : List Token} {bs : List UInt8} (h : ∀ b ∈ ws, isSpace b = true)
    (hs : Spaced ts bs) : Spaced (t::ts) (ws++(t++bs))

/-- A text with this source. -/
def Source.Text (s : Source) (bs : List UInt8) : Prop := Spaced s.tokens bs

end PathVector
