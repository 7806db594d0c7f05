import Mathlib.Data.List.Forall2
import ProtoBuild.Value

/-!
# Values with their fields in another order

The fields of an object have no order of their own: who writes a document may put them as he
likes.  `Value.Reordered` relates a value to those that say the same with the fields of some of
their objects in another order, at any depth.

Not every value can be written and read back.  One that is `Value.Plain` can: its numbers are
natural and have sixty-four bits, and its lists and objects do not lie too deep in one another.  It
stays so when its fields are put into another order (`Plain.reordered`).
-/

namespace ProtoBuild
namespace Value

/-- A value whose numbers are natural and have sixty-four bits, with at most some levels of lists
and objects. -/
inductive Plain : Nat → Value → Prop
  | null {levels : Nat} : Plain levels .null
  | bool {levels : Nat} (b : Bool) : Plain levels (.bool b)
  | natural {levels n : Nat} (h : n < UInt64.size) : Plain levels (.natural n)
  | string {levels : Nat} (s : String) : Plain levels (.string s)
  | list {levels : Nat} {items : List Value} (h : ∀ v ∈ items, Plain levels v) :
      Plain (levels + 1) (.list items)
  | object {levels : Nat} {fields : List (String × Value)} (h : ∀ f ∈ fields, Plain levels f.2) :
      Plain (levels + 1) (.object fields)

/-- A value says the same as another one, with the fields of its objects in some order. -/
inductive Reordered : Value → Value → Prop
  | same (v : Value) : Reordered v v
  | list {items items' : List Value} (h : List.Forall₂ Reordered items items') :
      Reordered (.list items) (.list items')
  | object {fields fields' fields'' : List (String × Value)}
      (hnames : fields.map Prod.fst = fields'.map Prod.fst)
      (hvalues : List.Forall₂ Reordered (fields.map Prod.snd) (fields'.map Prod.snd))
      (hperm : fields'.Perm fields'') : Reordered (.object fields) (.object fields'')

variable {levels more : Nat} {v w : Value}

/-! ## What a value is reordered to -/

/-- A value without parts. -/
def IsScalar : Value → Prop
  | .list _ => False
  | .object _ => False
  | _ => True

theorem Reordered.eq_of_isScalar (h : Reordered v w) (hv : v.IsScalar) : w = v := by
  cases h with
  | same => rfl
  | list => exact hv.elim
  | object => exact hv.elim

theorem Reordered.eq_null (h : Reordered v .null) : v = .null := by
  cases h
  rfl

theorem Reordered.exists_list {items : List Value} (h : Reordered (.list items) w) :
    ∃ items', w = .list items' ∧ List.Forall₂ Reordered items items' := by
  cases h with
  | same => exact ⟨items, rfl, List.forall₂_same.mpr fun v _ => .same v⟩
  | list h => exact ⟨_, rfl, h⟩

/-- Fields with the same names and reordered values. -/
theorem forall₂_fields_iff {fields fields' : List (String × Value)} :
    List.Forall₂ (fun f f' => f.1 = f'.1 ∧ Reordered f.2 f'.2) fields fields' ↔
      fields.map Prod.fst = fields'.map Prod.fst ∧
        List.Forall₂ Reordered (fields.map Prod.snd) (fields'.map Prod.snd) := by
  rw [← List.forall₂_eq_eq_eq]
  simp only [List.forall₂_map_left_iff, List.forall₂_map_right_iff]
  exact ⟨fun h => ⟨h.imp fun _ _ => And.left, h.imp fun _ _ => And.right⟩,
    fun h => h.1.mp (fun _ _ => And.intro) h.2⟩

/-- An object is reordered in two steps: the values of its fields, and then the fields
themselves. -/
theorem Reordered.exists_object {fields : List (String × Value)}
    (h : Reordered (.object fields) w) :
    ∃ fields' fields'', w = .object fields'' ∧ fields'.Perm fields'' ∧
      List.Forall₂ (fun f f' => f.1 = f'.1 ∧ Reordered f.2 f'.2) fields fields' := by
  cases h with
  | same =>
    exact ⟨fields, fields, rfl, .refl _, List.forall₂_same.mpr fun f _ => ⟨rfl, .same f.2⟩⟩
  | @object _ fields' fields'' hnames hvalues hperm =>
    exact ⟨fields', fields'', rfl, hperm, forall₂_fields_iff.mpr ⟨hnames, hvalues⟩⟩

/-! ## Plain values -/

theorem Plain.mono (h : Plain levels v) (hle : levels ≤ more) : Plain more v := by
  induction h generalizing more with
  | null => exact .null
  | bool b => exact .bool b
  | natural h => exact .natural h
  | string s => exact .string s
  | list _ ih =>
    obtain ⟨more, rfl⟩ := Nat.exists_eq_add_of_le' (Nat.le_trans (Nat.le_add_left 1 _) hle)
    exact .list fun v hv => ih v hv (Nat.le_of_succ_le_succ hle)
  | object _ ih =>
    obtain ⟨more, rfl⟩ := Nat.exists_eq_add_of_le' (Nat.le_trans (Nat.le_add_left 1 _) hle)
    exact .object fun f hf => ih f hf (Nat.le_of_succ_le_succ hle)

theorem exists_of_mem_right {α β : Type} {R : α → β → Prop} {as : List α} {bs : List β} {b : β}
    (h : List.Forall₂ R as bs) (hb : b ∈ bs) : ∃ a ∈ as, R a b := by
  induction h with
  | nil => exact absurd hb List.not_mem_nil
  | cons hab _ ih =>
    rcases List.mem_cons.mp hb with rfl | hb
    · exact ⟨_, List.mem_cons_self, hab⟩
    · obtain ⟨a, ha, hab⟩ := ih hb
      exact ⟨a, List.mem_cons_of_mem _ ha, hab⟩

theorem Plain.reordered (h : Plain levels v) (hr : Reordered v w) : Plain levels w := by
  induction h generalizing w with
  | null => cases hr; exact .null
  | bool b => cases hr; exact .bool b
  | natural h => cases hr; exact .natural h
  | string s => cases hr; exact .string s
  | list _ ih =>
    obtain ⟨items', rfl, hitems⟩ := hr.exists_list
    refine .list fun w hw => ?_
    obtain ⟨v, hv, hvw⟩ := exists_of_mem_right hitems hw
    exact ih v hv hvw
  | object _ ih =>
    obtain ⟨fields', fields'', rfl, hperm, hfields⟩ := hr.exists_object
    refine .object fun f'' hf => ?_
    obtain ⟨f, hf, -, hff⟩ := exists_of_mem_right hfields (hperm.mem_iff.mpr hf)
    exact ih f hf hff

theorem areWellFormed_iff {items : List Value} :
    areWellFormed items = true ↔ ∀ v ∈ items, v.isWellFormed = true := by
  induction items with
  | nil => simp [areWellFormed]
  | cons v items ih => simp [areWellFormed, ih]

theorem fieldsWellFormed_iff {fields : List (String × Value)} :
    fieldsWellFormed fields = true ↔ ∀ f ∈ fields, f.2.isWellFormed = true := by
  induction fields with
  | nil => simp [fieldsWellFormed]
  | cons f fields ih => simp [fieldsWellFormed, ih]

/-- Every part of a plain value can be held. -/
theorem Plain.isWellFormed (h : Plain levels v) : v.isWellFormed = true := by
  induction h with
  | list _ ih => exact areWellFormed_iff.mpr ih
  | object _ ih => exact fieldsWellFormed_iff.mpr ih
  | _ => rfl

end Value
end ProtoBuild
