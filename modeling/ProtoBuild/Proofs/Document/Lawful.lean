import Mathlib.Data.List.Perm.Basic
import ProtoBuild.Document
import ProtoBuild.Proofs.Value.Reordered

/-!
# Documents that can be read back

A type is a `LawfulDocument` if each of its values is read back from what it is written as, with
the fields of every object in any order, and if what is written can be held in a text.  Lists and
maps of lawful documents are lawful.

## Why the order is in the law

One could read a value back first, and say afterwards that no reader looks at the order of fields.
But readers do: of two fields with one name a map takes the last.  That fields have different names
is known of what is written, and not of what may be read; so the law speaks of values in some other
order only where they come from a writer.
-/

namespace ProtoBuild

open Document Value

/-! ## Maps in any order -/

namespace StringMap

variable {α : Type} {m : StringMap α} {l : List (String × α)}

/-- After some entries with different keys are set, a key has the value that was set, or the one
before. -/
theorem get?_foldl_insert_iff {k : String} {v : α} (h : (l.map Prod.fst).Nodup) :
    (l.foldl (fun m e => m.insert e.1 e.2) m).get? k = some v ↔
      (k, v) ∈ l ∨ k ∉ l.map Prod.fst ∧ m.get? k = some v := by
  induction l generalizing m with
  | nil => simp
  | cons e l ih =>
    obtain ⟨j, u⟩ := e
    rw [List.map_cons, List.nodup_cons] at h
    rw [List.foldl_cons, ih h.2, get?_insert]
    by_cases hk : k = j
    · subst hk
      have hmem : (k, v) ∉ l := fun hv => h.1 (List.mem_map.mpr ⟨_, hv, rfl⟩)
      simp [hmem, h.1, eq_comm]
    · simp [hk]

/-- A map is made again from its entries in any order. -/
theorem ofList_eq_of_perm (h : m.toList.Perm l) : ofList l = m := by
  have hkeys : (m.toList.map Prod.fst).Nodup := by
    refine List.pairwise_map.mpr (m.sorted.imp fun {a b} hlt heq => ?_)
    rw [heq] at hlt
    exact String.lt_irrefl _ hlt
  refine ext_get? fun k => Option.ext fun v => ?_
  rw [ofList, get?_foldl_insert_iff ((h.map Prod.fst).nodup_iff.mp hkeys), ← m.mem_entries_iff]
  simp only [get?_empty, reduceCtorEq, and_false, or_false]
  exact h.mem_iff.symm

end StringMap

/-- Values that are read back whatever the order of the fields in what is written for them. -/
class LawfulDocument (α : Type) [Document α] (levels : outParam Nat) : Prop where
  decode?_eq : ∀ {a : α} {w : Value}, (encode a).Reordered w → decode? w = some a
  plain : ∀ a : α, (encode a).Plain levels
  encode_ne_null : ∀ a : α, encode a ≠ .null

namespace LawfulDocument

/-! ## Scalars, lists and maps -/

instance : LawfulDocument String 0 where
  decode?_eq h := by
    rw [h.eq_of_isScalar trivial]
    rfl
  plain s := .string s
  encode_ne_null s := nofun

instance : LawfulDocument Bool 0 where
  decode?_eq h := by
    rw [h.eq_of_isScalar trivial]
    rfl
  plain b := .bool b
  encode_ne_null b := nofun

instance : LawfulDocument UInt64 0 where
  decode?_eq {n w} h := by
    rw [h.eq_of_isScalar trivial]
    exact (dif_pos n.toNat_lt_size).trans (congrArg some n.ofNatLT_toNat)
  plain n := .natural n.toNat_lt_size
  encode_ne_null n := nofun

instance : LawfulDocument UInt32 0 where
  decode?_eq {n w} h := by
    rw [h.eq_of_isScalar trivial]
    exact (dif_pos n.toNat_lt_size).trans (congrArg some n.ofNatLT_toNat)
  plain n := .natural (Nat.lt_trans n.toNat_lt_size (by decide))
  encode_ne_null n := nofun

/-- What is read item by item from a list, if each item is read as one of another list. -/
theorem mapM_eq_some {β γ : Type} {read? : γ → Option β} {bs : List β} {cs : List γ}
    (h : List.Forall₂ (fun b c => read? c = some b) bs cs) : cs.mapM read? = some bs := by
  induction h with
  | nil => rfl
  | cons hbc _ ih => rw [List.mapM_cons, hbc, ih]; rfl

instance {α : Type} [Document α] {levels : Nat} [LawfulDocument α levels] :
    LawfulDocument (List α) (levels + 1) where
  decode?_eq {l w} h := by
    obtain ⟨items, rfl, hitems⟩ := h.exists_list
    rw [List.forall₂_map_left_iff] at hitems
    exact mapM_eq_some (hitems.imp fun _ _ => decode?_eq)
  plain l := .list fun v hv => by
    obtain ⟨a, -, rfl⟩ := List.mem_map.mp hv
    exact plain a
  encode_ne_null l := nofun

instance {α : Type} [Document α] {levels : Nat} [LawfulDocument α levels] :
    LawfulDocument (StringMap α) (levels + 1) where
  decode?_eq {m w} h := by
    obtain ⟨fields', fields'', rfl, hperm, hfields⟩ := h.exists_object
    rw [List.forall₂_map_left_iff] at hfields
    have hread : List.Forall₂ (fun e f => (decode? f.2).map (f.1, ·) = some e) m.toList fields' :=
      hfields.imp fun e f ⟨hname, hvalue⟩ => by rw [decode?_eq hvalue, Option.map_some, ← hname]
    have hboth : Relation.Comp (List.Forall₂ fun e f => (decode? f.2).map (f.1, ·) = some e)
        List.Perm m.toList fields'' := ⟨fields', hread, hperm⟩
    rw [List.forall₂_comp_perm_eq_perm_comp_forall₂] at hboth
    obtain ⟨entries, hentries, hall⟩ := hboth
    show mapOfFields? fields'' = _
    rw [mapOfFields?, mapM_eq_some hall, Option.map_some, StringMap.ofList_eq_of_perm hentries]
  plain m := .object fun f hf => by
    obtain ⟨e, -, rfl⟩ := List.mem_map.mp hf
    exact plain e.2
  encode_ne_null m := nofun

/-- An enumeration is lawful if each member is found by its name. -/
theorem of_enumeration {α : Type} {all : List α} {name : α → String}
    (h : ∀ a, ofName? all name (name a) = some a) :
    @LawfulDocument α (enumeration all name) 0 :=
  @LawfulDocument.mk α (enumeration all name) 0
    (fun {a w} hw => by rw [Reordered.eq_of_isScalar hw trivial]; exact h a)
    (fun a => .string (name a)) fun a => nofun

end LawfulDocument
end ProtoBuild
