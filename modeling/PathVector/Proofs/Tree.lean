import PathVector.Json.Basic
import PathVector.Proofs.Table

/-! Induction on JSON trees, how deep they are nested, the numbers in them, and what sorting the
members of all objects does to a tree. -/
namespace PathVector

/-- Whole numbers of 64 bits, signed or not: these keep their value. -/
def Number.Exact : Number → Prop
  | integer n => -0x8000000000000000 ≤ n ∧ n < 0x10000000000000000
  | real _ => False

/-- Numbers that are not rounded. -/
def Number.Whole : Number → Prop
  | integer _ => True
  | real _ => False

instance : DecidablePred Number.Exact
  | .integer _ => inferInstanceAs (Decidable (_ ∧ _))
  | .real _ => inferInstanceAs (Decidable False)

instance : DecidablePred Number.Whole
  | .integer _ => inferInstanceAs (Decidable True)
  | .real _ => inferInstanceAs (Decidable False)

namespace Json

/-- Induction on trees: of an item or the value of a member the property may be assumed. -/
@[elab_as_elim, induction_eliminator]
theorem induction {P : Json → Prop} (null : P .null) (boolean : ∀ b, P (.boolean b))
    (number : ∀ n, P (.number n)) (string : ∀ s, P (.string s))
    (list : ∀ xs, (∀ x ∈ xs, P x) → P (.list xs))
    (object : ∀ ms, (∀ m ∈ ms, P m.2) → P (.object ms)) (j : Json) : P j := by
  match j with
  | .null => exact null
  | .boolean b => exact boolean b
  | .number n => exact number n
  | .string s => exact string s
  | .list xs =>
    exact list xs fun x hx => induction null boolean number string list object x
  | .object ms =>
    exact object ms fun m hm => induction null boolean number string list object m.2
termination_by sizeOf j
decreasing_by
  · have h := List.sizeOf_lt_of_mem hx
    simp only [Json.list.sizeOf_spec]
    omega
  · have h := List.sizeOf_lt_of_mem hm
    have hm : sizeOf m = 1+sizeOf m.1+sizeOf m.2 := rfl
    simp only [Json.object.sizeOf_spec]
    omega

mutual

/-- How deep lists and objects are nested. -/
def depth : Json → Nat
  | .list xs => depthItems xs+1
  | .object ms => depthMembers ms+1
  | _ => 0

def depthItems : List Json → Nat
  | [] => 0
  | x::xs => max x.depth (depthItems xs)

def depthMembers : List (String × Json) → Nat
  | [] => 0
  | (_,v)::ms => max v.depth (depthMembers ms)

end

mutual

/-- All numbers of a tree in text order. -/
def numbers : Json → List Number
  | .number n => [n]
  | .list xs => numbersItems xs
  | .object ms => numbersMembers ms
  | _ => []

def numbersItems : List Json → List Number
  | [] => []
  | x::xs => x.numbers++numbersItems xs

def numbersMembers : List (String × Json) → List Number
  | [] => []
  | (_,v)::ms => v.numbers++numbersMembers ms

end

theorem depth_list_le_iff {xs : List Json} {d : Nat} :
    (list xs).depth ≤ d+1 ↔ ∀ x ∈ xs, x.depth ≤ d := by
  rw [depth,Nat.add_le_add_iff_right]
  induction xs with
  | nil => simp [depthItems]
  | cons x xs ih => simp [depthItems,ih]

theorem depth_object_le_iff {ms : List (String × Json)} {d : Nat} :
    (object ms).depth ≤ d+1 ↔ ∀ m ∈ ms, m.2.depth ≤ d := by
  rw [depth,Nat.add_le_add_iff_right]
  induction ms with
  | nil => simp [depthMembers]
  | cons m ms ih => simp [depthMembers,ih]

theorem mem_numbers_list_iff {xs : List Json} {n : Number} :
    n ∈ (list xs).numbers ↔ ∃ x ∈ xs, n ∈ x.numbers := by
  rw [numbers]
  induction xs with
  | nil => simp [numbersItems]
  | cons x xs ih => simp [numbersItems,ih]

theorem mem_numbers_object_iff {ms : List (String × Json)} {n : Number} :
    n ∈ (object ms).numbers ↔ ∃ m ∈ ms, n ∈ m.2.numbers := by
  rw [numbers]
  induction ms with
  | nil => simp [numbersMembers]
  | cons m ms ih => simp [numbersMembers,ih]

theorem fits_object {ms : List (String × Json)} {d : Nat}
    (h : ∀ m ∈ ms, m.2.depth ≤ d ∧ ∀ n ∈ m.2.numbers, n.Exact) :
    (object ms).depth ≤ d+1 ∧ ∀ n ∈ (object ms).numbers, n.Exact := by
  refine ⟨depth_object_le_iff.mpr fun m hm => (h m hm).1,fun n hn => ?_⟩
  obtain ⟨m,hm,hn⟩ := mem_numbers_object_iff.mp hn
  exact (h m hm).2 n hn

theorem mem_of_mem_sortMembers {ms : List (String × Json)} {m : String × Json}
    (h : m ∈ sortMembers ms) : m ∈ ms :=
  Table.mem_of_mem_ofList h

theorem sortMembers_sortMembers (ms : List (String × Json)) :
    sortMembers (sortMembers ms) = sortMembers ms :=
  congrArg Table.entries (Table.ofList_entries _)

theorem sortMembers_perm {ms : List (String × Json)} (h : (ms.map (·.1)).Nodup) :
    (sortMembers ms).Perm ms :=
  Table.ofList_perm h

theorem canonical_list (xs : List Json) : (list xs).canonical = list (xs.map canonical) := by
  rw [canonical,canonicalItems_eq_map]

theorem canonical_object (ms : List (String × Json)) :
    (object ms).canonical = object (sortMembers (ms.map fun m => (m.1,m.2.canonical))) := by
  rw [canonical,canonicalMembers_eq_map]

theorem canonical_canonical (j : Json) : j.canonical.canonical = j.canonical := by
  induction j with
  | null | boolean | number | string => rfl
  | list xs ih =>
    rw [canonical_list,canonical_list,List.map_map]
    exact congrArg list (List.map_congr_left fun x hx => ih x hx)
  | object ms ih =>
    rw [canonical_object,canonical_object]
    have h : ∀ m ∈ sortMembers (ms.map fun m => (m.1,m.2.canonical)),
        (m.1,m.2.canonical) = m := fun m hm => by
      obtain ⟨n,hn,rfl⟩ := List.mem_map.mp (mem_of_mem_sortMembers hm)
      exact Prod.ext rfl (ih n hn)
    rw [List.map_congr_left h,List.map_id',sortMembers_sortMembers]

theorem depth_canonical_le (j : Json) : ∀ {d : Nat}, j.depth ≤ d → j.canonical.depth ≤ d := by
  induction j with
  | null | boolean | number | string => exact fun h => h
  | list xs ih =>
    intro d h
    obtain _ | d := d
    · simp [depth] at h
    rw [canonical_list,depth_list_le_iff]
    rw [depth_list_le_iff] at h
    intro y hy
    obtain ⟨x,hx,rfl⟩ := List.mem_map.mp hy
    exact ih x hx (h x hx)
  | object ms ih =>
    intro d h
    obtain _ | d := d
    · simp [depth] at h
    rw [canonical_object,depth_object_le_iff]
    rw [depth_object_le_iff] at h
    intro m hm
    obtain ⟨n,hn,rfl⟩ := List.mem_map.mp (mem_of_mem_sortMembers hm)
    exact ih n hn (h n hn)

theorem mem_numbers_of_canonical {j : Json} {n : Number} (h : n ∈ j.canonical.numbers) :
    n ∈ j.numbers := by
  induction j with
  | null | boolean | number | string => exact h
  | list xs ih =>
    rw [canonical_list,mem_numbers_list_iff] at h
    obtain ⟨y,hy,h⟩ := h
    obtain ⟨x,hx,rfl⟩ := List.mem_map.mp hy
    exact mem_numbers_list_iff.mpr ⟨x,hx,ih x hx h⟩
  | object ms ih =>
    rw [canonical_object,mem_numbers_object_iff] at h
    obtain ⟨m,hm,h⟩ := h
    obtain ⟨k,hk,rfl⟩ := List.mem_map.mp (mem_of_mem_sortMembers hm)
    exact mem_numbers_object_iff.mpr ⟨k,hk,ih k hk h⟩

end Json
end PathVector
