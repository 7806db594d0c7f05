import Mathlib.Data.List.Nodup
import ProtoBuild.Proofs.Document.Lawful

/-!
# Records that are read back

A record is written as an object with a field for each of its places, apart from those that are
left out.  With the fields in any order it is read by `Value.fields?` as fields that hold what was
written (`fields?_objectOf`), and each way to read a field gives back what one way to write it has
written.  `LawfulDocument.ofRecord` puts this together for a whole record.
-/

namespace ProtoBuild

open Document Value

variable {names : List String} {slots : List (Option (String × Value))} {levels : Nat} {w : Value}

/-! ## Places of a record -/

/-- What may be written in a place of a record: a field with the name of the place, or nothing. -/
structure Slot (levels : Nat) (name : String) (slot : Option (String × Value)) : Prop where
  name_eq : ∀ f ∈ slot, f.1 = name
  plain : ∀ f ∈ slot, f.2.Plain levels

/-! ## Looking up a field -/

theorem lookup_eq_some_iff_mem {l : List (String × Value)} (h : (l.map Prod.fst).Nodup)
    {k : String} {v : Value} : List.lookup k l = some v ↔ (k, v) ∈ l := by
  induction l with
  | nil => simp
  | cons e l ih =>
    obtain ⟨j, u⟩ := e
    rw [List.map_cons, List.nodup_cons] at h
    by_cases hk : k = j
    · subst hk
      have hmem : (k, v) ∉ l := fun hv => h.1 (List.mem_map.mpr ⟨_, hv, rfl⟩)
      simp [hmem, eq_comm]
    · have hbeq : (k == j) = false := beq_eq_false_iff_ne.mpr hk
      rw [List.lookup_cons, hbeq, List.mem_cons, Prod.mk.injEq]
      simp [ih h.2, hk]

theorem lookup_eq_of_perm {l l' : List (String × Value)} (hperm : l.Perm l')
    (h : (l.map Prod.fst).Nodup) (k : String) : List.lookup k l = List.lookup k l' := by
  refine Option.ext fun v => ?_
  rw [lookup_eq_some_iff_mem h, lookup_eq_some_iff_mem ((hperm.map Prod.fst).nodup_iff.mp h),
    hperm.mem_iff]

theorem rel_lookup {fields fields' : List (String × Value)}
    (h : List.Forall₂ (fun f f' => f.1 = f'.1 ∧ Reordered f.2 f'.2) fields fields') (k : String) :
    Option.Rel Reordered (List.lookup k fields) (List.lookup k fields') := by
  induction h with
  | nil => exact .none
  | @cons f f' _ _ hf _ ih =>
    rw [List.lookup_cons, List.lookup_cons, ← hf.1]
    cases k == f.1 with
    | true => exact .some hf.2
    | false => exact ih

/-- The fields that are written have names of the record, each of them at most once. -/
theorem sublist_names (h : List.Forall₂ (Slot levels) names slots) :
    ((slots.filterMap id).map Prod.fst).Sublist names := by
  induction h with
  | nil => exact .slnil
  | @cons name slot names slots hslot _ ih =>
    cases slot with
    | none => exact ih.cons name
    | some f =>
      show (f.1 :: (slots.filterMap id).map Prod.fst).Sublist (name :: names)
      rw [hslot.name_eq f rfl]
      exact ih.cons_cons name

theorem lookup_slots (hnodup : names.Nodup) (h : List.Forall₂ (Slot levels) names slots) :
    List.Forall₂ (fun name slot => List.lookup name (slots.filterMap id) = slot.map Prod.snd)
      names slots := by
  induction h with
  | nil => exact .nil
  | @cons name slot names slots hslot hrest ih =>
    obtain ⟨hnew, hnodup⟩ := List.nodup_cons.mp hnodup
    refine .cons ?_ ?_
    · cases slot with
      | none =>
        refine List.lookup_eq_none_iff.mpr fun f hf => bne_iff_ne.mpr ?_
        rintro rfl
        exact hnew ((sublist_names hrest).subset (List.mem_map_of_mem hf))
      | some f =>
        rw [← hslot.name_eq f rfl]
        exact List.lookup_cons_self
    · -- what is written in this place has none of the names that come after
      have hothers : ∀ n ∈ names, n ≠ name := fun n hn heq => hnew (heq ▸ hn)
      refine ((List.forall₂_and_left _ _).mpr ⟨hothers, ih hnodup⟩).imp ?_
      rintro n s ⟨hne, hlookup⟩
      cases slot with
      | none => exact hlookup
      | some f =>
        have hbeq : (n == f.1) = false := by
          rw [hslot.name_eq f rfl]
          exact beq_eq_false_iff_ne.mpr hne
        show List.lookup n ((f.1, f.2) :: slots.filterMap id) = _
        rw [List.lookup_cons, hbeq]
        exact hlookup

/-- **A record is read as what was written.** -/
theorem fields?_objectOf (hnodup : names.Nodup) (hslots : List.Forall₂ (Slot levels) names slots)
    (h : (Value.objectOf slots).Reordered w) :
    ∃ fields, w.fields? names = some fields ∧
      List.Forall₂ (fun name slot => Option.Rel Reordered (slot.map Prod.snd) (fields name))
        names slots := by
  obtain ⟨fields', fields'', rfl, hperm, hfields⟩ := h.exists_object
  have hkeys : (slots.filterMap id).map Prod.fst = fields'.map Prod.fst :=
    (forall₂_fields_iff.mp hfields).1
  have hnodup' : (fields'.map Prod.fst).Nodup := hkeys ▸ (sublist_names hslots).nodup hnodup
  have honce : ∀ name, countName name fields'' ≤ 1 := by
    intro name
    have hcount : (fields''.map Prod.fst).count name ≤ 1 :=
      List.nodup_iff_count_le_one.mp ((hperm.map Prod.fst).nodup_iff.mp hnodup') name
    rwa [List.count_eq_countP, List.countP_map] at hcount
  refine ⟨fun name => List.lookup name fields'', ?_, (lookup_slots hnodup hslots).imp ?_⟩
  · exact if_pos (List.all_eq_true.mpr fun name _ => decide_eq_true (honce name))
  · intro name slot hlookup
    show Option.Rel Reordered _ (List.lookup name fields'')
    rw [← hlookup, ← lookup_eq_of_perm hperm hnodup']
    exact rel_lookup hfields name

theorem plain_objectOf (h : List.Forall₂ (Slot levels) names slots) :
    (Value.objectOf slots).Plain (levels + 1) := by
  refine .object fun f hf => ?_
  obtain ⟨slot, hslot, rfl⟩ := List.mem_filterMap.mp hf
  obtain ⟨name, -, hname⟩ := exists_of_mem_right h hslot
  exact hname.plain f rfl

/-! ## Writing and reading a place -/

section

variable {α : Type} {name : String} {fields : Fields}

theorem exists_of_rel_some {v : Value} {read : Option Value}
    (h : Option.Rel Reordered (some v) read) : ∃ w, read = some w ∧ v.Reordered w := by
  cases h with
  | some h => exact ⟨_, rfl, h⟩

theorem eq_none_of_rel_none {read : Option Value} (h : Option.Rel Reordered none read) :
    read = none := by
  cases h
  rfl

/-- A place that is written in a way of its own, if there is something to write. -/
theorem optionalBy_eq {encode : α → Value} {read? : Value → Option α} {a : Option α}
    (hread : ∀ a w, (encode a).Reordered w → read? w = some a) (hnull : ∀ a, encode a ≠ .null)
    (h : Option.Rel Reordered ((a.map fun a => (name, encode a)).map Prod.snd) (fields name)) :
    fields.optionalBy read? name = some a := by
  unfold Fields.optionalBy
  cases a with
  | none => rw [eq_none_of_rel_none h]
  | some a =>
    obtain ⟨w, hw, hr⟩ := exists_of_rel_some h
    have hne : w ≠ .null := by
      rintro rfl
      exact hnull a hr.eq_null
    rw [hw]
    split
    · rename_i heq
      exact nomatch heq
    · rename_i heq
      exact absurd (Option.some.inj heq) hne
    · rename_i v _ heq
      obtain rfl := Option.some.inj heq
      rw [hread a w hr, Option.map_some]

theorem slot_map {encode : α → Value} (h : ∀ a, (encode a).Plain levels) (name : String)
    (a : Option α) : Slot levels name (a.map fun a => (name, encode a)) := by
  cases a with
  | none => exact ⟨nofun, nofun⟩
  | some a =>
    refine ⟨fun f hf => ?_, fun f hf => ?_⟩ <;> obtain rfl := Option.some.inj hf
    · rfl
    · exact h a

variable [Document α] {n : Nat}

theorem slot_written [LawfulDocument α n] (h : n ≤ levels) (name : String) (a : α) :
    Slot levels name (written name a) :=
  slot_map (fun a => (LawfulDocument.plain a).mono h) name (some a)

theorem slot_writtenIf [LawfulDocument α n] (h : n ≤ levels) (name : String) (a : Option α) :
    Slot levels name (writtenIf name a) :=
  slot_map (fun a => (LawfulDocument.plain a).mono h) name a

theorem required_eq [LawfulDocument α n] {a : α}
    (h : Option.Rel Reordered ((written name a).map Prod.snd) (fields name)) :
    fields.required name = some a := by
  obtain ⟨w, hw, hr⟩ := exists_of_rel_some h
  rw [Fields.required, hw, Option.bind_some, LawfulDocument.decode?_eq hr]

theorem orDefault_eq [LawfulDocument α n] {a : α} (default : α)
    (h : Option.Rel Reordered ((written name a).map Prod.snd) (fields name)) :
    fields.orDefault name default = some a := by
  obtain ⟨w, hw, hr⟩ := exists_of_rel_some h
  rw [Fields.orDefault, Fields.orDefaultBy, hw]
  exact LawfulDocument.decode?_eq hr

theorem optional_eq [LawfulDocument α n] {a : Option α}
    (h : Option.Rel Reordered ((writtenIf name a).map Prod.snd) (fields name)) :
    fields.optional name = some a :=
  optionalBy_eq (fun _ _ => LawfulDocument.decode?_eq) LawfulDocument.encode_ne_null h

end

/-- A record is lawful if each place can be held and the record is made again from its places. -/
theorem LawfulDocument.ofRecord {α : Type} [Document α]
    {slots : α → List (Option (String × Value))} {build : Fields → Option α}
    (hencode : ∀ a, encode a = Value.objectOf (slots a))
    (hdecode : ∀ v, decode? v = (v.fields? names).bind build) (hnodup : names.Nodup)
    (hslots : ∀ a, List.Forall₂ (Slot levels) names (slots a))
    (hbuild : ∀ a fields, List.Forall₂
      (fun name slot => Option.Rel Reordered (slot.map Prod.snd) (fields name)) names (slots a) →
        build fields = some a) :
    LawfulDocument α (levels + 1) where
  decode?_eq {a w} h := by
    rw [hencode] at h
    obtain ⟨fields, hfields, hread⟩ := fields?_objectOf hnodup (hslots a) h
    rw [hdecode, hfields, Option.bind_some, hbuild a fields hread]
  plain a := by
    rw [hencode]
    exact plain_objectOf (hslots a)
  encode_ne_null a := by
    rw [hencode]
    nofun

end ProtoBuild
