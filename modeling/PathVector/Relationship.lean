/-! The business relationship with a neighbor, and what it allows: routing information and traffic
are carried only when a customer is on one of the two sides. -/
namespace PathVector

inductive Relationship where
  | customer | peer | provider
deriving DecidableEq, Repr

namespace Relationship

def text : Relationship → String
  | customer => "cust"
  | peer => "peer"
  | provider => "prov"

instance : ToString Relationship := ⟨text⟩

def all : List Relationship := [customer,peer,provider]

def ofText? (s : String) : Option Relationship := all.find? fun r => r.text = s

@[simp] theorem ofText?_text (r : Relationship) : ofText? r.text = some r := by
  cases r <;> decide

theorem text_of_ofText? {s : String} {r : Relationship} (h : ofText? s = some r) : r.text = s := by
  simpa using List.find?_some h

/-- What a customer sends goes to every neighbor; what a peer or a provider sends goes to customers.
-/
def exports : (source target : Relationship) → Bool
  | customer, _ => true
  | _, customer => true
  | _, _ => false

/-- Traffic of a peer or a provider is not handed to a peer or a provider. -/
def forwards : (source target : Relationship) → Bool
  | peer, peer => false
  | peer, provider => false
  | provider, peer => false
  | provider, provider => false
  | _, _ => true

theorem exports_iff (s t : Relationship) : s.exports t = true ↔ s = customer ∨ t = customer := by
  cases s <;> cases t <;> decide

theorem forwards_iff (s t : Relationship) : s.forwards t = true ↔ s = customer ∨ t = customer := by
  cases s <;> cases t <;> decide

end Relationship
end PathVector
