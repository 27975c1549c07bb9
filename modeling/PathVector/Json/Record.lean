import PathVector.Json.Form

/-! Records: objects with known members in any order, or lists of their values in the order of
declaration. Members with other names are passed over. The values read so far stand in slots `σ`. -/
namespace PathVector

structure Field (σ α : Type) where
  name : String
  isSet : σ → Bool
  read : Nat → σ → Reader σ
  ofJson : Json → σ → Except Fault σ
  toJson? : α → Option Json
  /-- A list of values may end before this one. -/
  optional : Bool := false

namespace Field

variable {σ α β : Type}

/-- A field whose value fills a slot. -/
def ofForm (name : String) (f : Form β) (slot : σ → Option β) (fill : σ → β → σ)
    (toJson? : α → Option Json) (optional : Bool) : Field σ α where
  name
  isSet s := (slot s).isSome
  read depth s := return fill s (← f.read depth)
  ofJson j s := return fill s (← f.ofJson j)
  toJson?
  optional

def required (name : String) (f : Form β) (slot : σ → Option β) (fill : σ → β → σ) (get : α → β) :
    Field σ α :=
  ofForm name f slot fill (fun a => some (f.toJson (get a))) false

/-- A field that is absent, null, or has a value, and is written only if it has one. -/
def optionally (name : String) (f : Form β) (slot : σ → Option (Option β))
    (fill : σ → Option β → σ) (get : α → Option β) : Field σ α :=
  ofForm name f.optional slot fill (fun a => (get a).map f.toJson) true

end Field

structure Record (σ α : Type) where
  title : String
  fields : List (Field σ α)
  empty : σ
  /-- The fault is about a field that is missing. -/
  build : σ → Except Fault α

/-- The value of a field that must be there. -/
def require {β : Type} (name : String) : Option β → Except Fault β
  | some b => .ok b
  | none => .error (.missingField name)

namespace Record

variable {σ α : Type}

def field? (r : Record σ α) (name : String) : Option (Field σ α) :=
  r.fields.find? fun f => f.name = name

def tooShort (r : Record σ α) (n : Nat) : Fault :=
  .invalidLength n s!"struct {r.title} with {r.fields.length} elements"

/-- The items of a list, one for each field from index `i` on. -/
def readItems (r : Record σ α) (depth : Nat) : Nat → List (Field σ α) → σ → Reader σ
  | _, [], s => return s
  | i, f::fs, s => do
    if ← Reader.hasItem (i == 0) then r.readItems depth (i+1) fs (← f.read depth s)
    else if f.optional then r.readItems depth (i+1) fs s
    else throw (r.tooShort i)

def readMember (r : Record σ α) (depth : Nat) (name : String) (s : σ) : Reader σ :=
  match r.field? name with
  | some f =>
    if f.isSet s then throw (.duplicateField name)
    else do
      Reader.colon
      f.read depth s
  | none => do
    Reader.colon
    Reader.skipValue
    return s

def itemsOfJson (r : Record σ α) : Nat → List (Field σ α) → List Json → σ → Except Fault σ
  | _, [], [], s => .ok s
  | i, [], xs, _ => .error (.invalidLength (i+xs.length) "fewer elements in array")
  | i, f::fs, x::xs, s => do r.itemsOfJson (i+1) fs xs (← f.ofJson x s)
  | i, f::fs, [], s => if f.optional then r.itemsOfJson i fs [] s else .error (r.tooShort i)

def memberOfJson (r : Record σ α) (s : σ) (m : String × Json) : Except Fault σ :=
  match r.field? m.1 with
  | some f => if f.isSet s then .error (.duplicateField m.1) else f.ofJson m.2 s
  | none => .ok s

def ofMembers (r : Record σ α) (ms : List (String × Json)) : Except Fault α := do
  r.build (← ms.foldlM r.memberOfJson r.empty)

def members (r : Record σ α) (a : α) : List (String × Json) :=
  r.fields.filterMap fun f => (f.toJson? a).map (f.name,·)

def form (r : Record σ α) : Form α where
  read depth := do
    let c ← Reader.peekToken
    if c = some '[' ∨ c = some '\x7b' then
      if depth = 0 then throw .tooDeep
      Reader.advance
      let s ← if c = some '[' then do
          let s ← r.readItems (depth-1) 0 r.fields r.empty
          Reader.endList
          pure s
        else Reader.object (r.readMember (depth-1)) r.empty
      StateT.lift (r.build s)
    else Reader.mismatch s!"struct {r.title}"
  ofJson
    | .list xs => do r.build (← r.itemsOfJson 0 r.fields xs r.empty)
    | .object ms => r.ofMembers ms
    | j => Form.mismatch j s!"struct {r.title}"
  toJson a := .object (r.members a)

end Record
end PathVector
