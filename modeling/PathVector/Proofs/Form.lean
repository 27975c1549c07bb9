import PathVector.Json.Form
import PathVector.Proofs.Value

/-! Laws of forms. A form agrees with itself if reading the text of a tree is taking the value from
the tree; it inverts itself if the tree that it writes gives the value back; it fits if that tree
can be carried by text. -/
namespace PathVector

/-- A tree that text carries through a reader that allows depth `d`: its numbers are exact, and the
members of its objects are sorted and do not repeat. -/
structure Json.Portable (d : Nat) (j : Json) : Prop where
  depth_le : j.depth ≤ d
  exact : ∀ n ∈ j.numbers, n.Exact
  sorted : j.canonical = j

namespace Json

theorem portable_string (d : Nat) (s : String) : (Json.string s).Portable d :=
  ⟨Nat.zero_le d,fun n hn => by simp [numbers] at hn,rfl⟩

theorem Portable.mono {d e : Nat} {j : Json} (h : j.Portable d) (hd : d ≤ e) : j.Portable e :=
  ⟨Nat.le_trans h.depth_le hd,h.exact,h.sorted⟩

end Json

namespace Form

open Reader

variable {α β : Type}

/-- Where the tree has a value, its text has the same. -/
def Agrees (f : Form α) : Prop :=
  ∀ (d : Nat) (j : Json) (a : α), j.Portable d → f.ofJson j = .ok a →
    Takes (f.read d) j.chars a

/-- Any value comes back from the canonical form of its tree. -/
def Inverts (f : Form α) : Prop := ∀ a, f.ofJson (f.toJson a).canonical = .ok a

/-- The trees that are written are at most so deep and have exact numbers. -/
def Fits (f : Form α) (d : Nat) : Prop :=
  ∀ a, (f.toJson a).depth ≤ d ∧ ∀ n ∈ (f.toJson a).numbers, n.Exact

theorem Fits.portable {f : Form α} {d : Nat} (h : f.Fits d) (a : α) :
    (f.toJson a).canonical.Portable d :=
  ⟨Json.depth_canonical_le _ (h a).1,fun n hn => (h a).2 n (Json.mem_numbers_of_canonical hn),
    Json.canonical_canonical _⟩

theorem Fits.mono {f : Form α} {d e : Nat} (h : f.Fits d) (hd : d ≤ e) : f.Fits e :=
  fun a => ⟨Nat.le_trans (h a).1 hd,(h a).2⟩

theorem fits_scalar {f : Form α} (h : ∀ a, (f.toJson a).depth = 0 ∧ (f.toJson a).numbers = []) :
    f.Fits 0 := by
  intro a
  refine ⟨Nat.le_of_eq (h a).1,fun n hn => ?_⟩
  rw [(h a).2] at hn
  cases hn

theorem agrees_json : json.Agrees := by
  intro d j a hp h
  cases h
  obtain ⟨ho,hr⟩ := takes_value j hp.depth_le hp.exact
  refine ⟨ho,fun bs hs => ?_⟩
  change StateT.run (Json.canonical <$> value d) _ = _
  rw [← bind_pure_comp,run_bind_ok (hr bs hs),hp.sorted]
  rfl

theorem takes_stringToken (wanted s : String) :
    Takes (stringToken wanted) (Json.string s).chars s := by
  refine ⟨⟨'"',_,rfl,by decide,by decide,by decide⟩,fun bs _ => ?_⟩
  rw [Json.chars,Json.stringChars,List.cons_append,encode_ascii (by decide),stringToken,
    run_bind_ok (run_peekToken (by decide) (by decide) _),if_pos rfl,
    run_bind_ok (run_advance _ _)]
  exact run_string s bs

theorem agrees_string (wanted : String) : (string wanted).Agrees := by
  intro d j a _ h
  cases j with
  | string s =>
    cases h
    exact takes_stringToken wanted _
  | null | boolean | number | list | object => cases h

theorem inverts_string (wanted : String) : (string wanted).Inverts := fun _ => rfl

theorem fits_string (wanted : String) : (string wanted).Fits 0 :=
  fits_scalar fun _ => ⟨rfl,rfl⟩

section Map

variable {f : Form α} {decode : α → Except Fault β} {encode : β → α}

theorem Agrees.map (h : f.Agrees) : (f.map decode encode).Agrees := by
  intro d j b hp hb
  obtain ⟨a,ha,hb⟩ := of_bind_eq_ok hb
  obtain ⟨ho,hr⟩ := h d j a hp ha
  refine ⟨ho,fun bs hs => ?_⟩
  change StateT.run (f.read d >>= fun a => StateT.lift (decode a)) _ = _
  rw [run_bind_ok (hr bs hs),hb]
  rfl

theorem Inverts.map (h : f.Inverts) (hd : ∀ b, decode (encode b) = .ok b) :
    (f.map decode encode).Inverts := by
  intro b
  change f.ofJson (f.toJson (encode b)).canonical >>= decode = _
  rw [h (encode b)]
  exact hd b

theorem Fits.map {d : Nat} (h : f.Fits d) : (f.map decode encode).Fits d :=
  fun b => h (encode b)

end Map

theorem unsigned_natCast {n bound : Nat} (h : n < bound) (wanted : String) :
    unsigned bound wanted (.integer n) = .ok n :=
  if_pos ⟨Int.natCast_nonneg n,Int.ofNat_lt.mpr h⟩

theorem inverts_word32 : word32.Inverts := by
  intro n
  have hu := unsigned_natCast n.toNat_lt "u32"
  unfold word32 map natural
  simp only [Json.integer,Json.canonical,UInt32.size]
  rw [hu]
  exact congrArg Except.ok UInt32.ofNat_toNat

theorem fits_word32 : word32.Fits 0 := by
  intro n
  have hn : n.toNat < 0x100000000 := n.toNat_lt
  refine ⟨Nat.le_refl 0,fun m hm => ?_⟩
  rw [List.mem_singleton.mp (show m ∈ [Number.integer n.toNat] from hm)]
  exact ⟨by omega,by omega⟩

theorem inverts_boolean : boolean.Inverts := fun _ => rfl

theorem fits_boolean : boolean.Fits 0 := fits_scalar fun _ => ⟨rfl,rfl⟩

theorem inverts_choice {names : List String} {ofName? : String → Option α} {name : α → String}
    {emptyObject : Bool} (h : ∀ a, ofName? (name a) = some a) :
    (choice names ofName? name emptyObject).Inverts := by
  intro a
  change variant names ofName? (name a) = _
  rw [variant,h]

theorem fits_choice (names : List String) (ofName? : String → Option α) (name : α → String)
    (emptyObject : Bool) : (choice names ofName? name emptyObject).Fits 0 :=
  fits_scalar fun _ => ⟨rfl,rfl⟩

theorem Inverts.list {f : Form α} (h : f.Inverts) : (Form.list f).Inverts := by
  intro xs
  change (Form.list f).ofJson (Json.list (xs.map f.toJson)).canonical = _
  rw [Json.canonical_list]
  change ((xs.map f.toJson).map Json.canonical).mapM f.ofJson = _
  induction xs with
  | nil => rfl
  | cons x xs ih =>
    rw [List.map_cons,List.map_cons,List.mapM_cons,h x,ih]
    rfl

theorem Fits.list {f : Form α} {d : Nat} (h : f.Fits d) : (Form.list f).Fits (d+1) := by
  intro xs
  change (Json.list (xs.map f.toJson)).depth ≤ d+1 ∧ ∀ n ∈ (Json.list (xs.map f.toJson)).numbers, _
  refine ⟨Json.depth_list_le_iff.mpr fun j hj => ?_,fun n hn => ?_⟩
  · obtain ⟨x,_,rfl⟩ := List.mem_map.mp hj
    exact (h x).1
  · obtain ⟨j,hj,hn⟩ := Json.mem_numbers_list_iff.mp hn
    obtain ⟨x,_,rfl⟩ := List.mem_map.mp hj
    exact (h x).2 n hn

end Form
end PathVector
