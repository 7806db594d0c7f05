/-!
# Finite maps from strings

A `StringMap` is its list of entries in increasing order of their keys.  The
order is part of the type, so two maps with the same look-ups are equal
(`StringMap.ext_get?`), listing a map needs no sorting, and what is printed from a
map does not depend on how it came about.

The main statements give the look-up after each operation: `get?_insert`,
`get?_erase`, `get?_update` and `get?_filter`.

## Why the order is in the type

What is printed of a build goes through its units in the order of their directories, and
pages of operations follow the order of their names.  Were a map a bare list, each of these
places would have to sort, and a statement about two of them would have to say that they
sort alike.  With the order in the type there is one order, and equality of maps is
equality of what can be looked up.
-/

namespace ProtoBuild

/-- A finite map with string keys, kept in the order of its keys. -/
structure StringMap (α : Type) where
  entries : List (String × α)
  sorted : entries.Pairwise (fun a b => a.1 < b.1)

namespace StringMap

variable {α β : Type}

/-! ## Entry lists -/

/-- The value of a key in an entry list. -/
def lookupEntry (k : String) : List (String × α) → Option α
  | [] => none
  | (k', v) :: rest => if k = k' then some v else lookupEntry k rest

/-- An entry list with the value of one key set. -/
def insertEntry (k : String) (v : α) : List (String × α) → List (String × α)
  | [] => [(k, v)]
  | (k', v') :: rest =>
    if k < k' then (k, v) :: (k', v') :: rest
    else if k = k' then (k, v) :: rest
    else (k', v') :: insertEntry k v rest

theorem lt_of_not_lt_of_ne {a b : String} (h : ¬ a < b) (hne : a ≠ b) : b < a := by
  apply Decidable.byContradiction
  intro hb
  exact hne (String.le_antisymm (String.not_lt.mp hb) (String.not_lt.mp h))

theorem mem_insertEntry {k : String} {v : α} {l : List (String × α)} {e : String × α}
    (h : e ∈ insertEntry k v l) : e = (k, v) ∨ e ∈ l := by
  induction l with
  | nil => simpa [insertEntry] using h
  | cons e' rest ih =>
    unfold insertEntry at h
    split at h
    · simpa using h
    · split at h
      · simp at h ⊢
        rcases h with h | h
        · exact Or.inl h
        · exact Or.inr (Or.inr h)
      · simp at h ⊢
        rcases h with h | h
        · exact Or.inr (Or.inl h)
        · rcases ih h with h | h
          · exact Or.inl h
          · exact Or.inr (Or.inr h)

theorem pairwise_insertEntry {k : String} {v : α} {l : List (String × α)}
    (h : l.Pairwise (fun a b => a.1 < b.1)) :
    (insertEntry k v l).Pairwise (fun a b => a.1 < b.1) := by
  induction l with
  | nil => simp [insertEntry]
  | cons e rest ih =>
    obtain ⟨k', v'⟩ := e
    rw [List.pairwise_cons] at h
    unfold insertEntry
    split
    · rename_i hlt
      refine List.pairwise_cons.mpr ⟨?_, List.pairwise_cons.mpr h⟩
      intro e he
      rcases List.mem_cons.mp he with rfl | he
      · exact hlt
      · exact String.lt_trans hlt (h.1 e he)
    · split
      · rename_i heq
        subst heq
        exact List.pairwise_cons.mpr h
      · rename_i hlt hne
        refine List.pairwise_cons.mpr ⟨?_, ih h.2⟩
        intro e he
        rcases mem_insertEntry he with rfl | he
        · exact lt_of_not_lt_of_ne hlt hne
        · exact h.1 e he

theorem lookupEntry_eq_none {k : String} {l : List (String × α)} (h : ∀ e ∈ l, k < e.1) :
    lookupEntry k l = none := by
  induction l with
  | nil => rfl
  | cons e rest ih =>
    have hk := h e (by simp)
    have hne : k ≠ e.1 := fun heq => String.lt_irrefl _ (heq ▸ hk)
    simp only [lookupEntry, if_neg hne]
    exact ih fun e he => h e (List.mem_cons_of_mem _ he)

theorem lookupEntry_insertEntry (k j : String) (v : α) (l : List (String × α)) :
    lookupEntry j (insertEntry k v l) = if j = k then some v else lookupEntry j l := by
  induction l with
  | nil => simp [insertEntry, lookupEntry]
  | cons e rest ih =>
    obtain ⟨k', v'⟩ := e
    unfold insertEntry
    split
    · simp [lookupEntry]
    · split
      · rename_i heq
        subst heq
        simp only [lookupEntry]
        split <;> rfl
      · rename_i hne
        simp only [lookupEntry, ih]
        split
        · rename_i h₁
          subst h₁
          rw [if_neg (fun h => hne h.symm)]
        · rfl

/-! ## Maps -/

/-- The map without entries. -/
def empty : StringMap α := ⟨[], List.Pairwise.nil⟩

instance : EmptyCollection (StringMap α) := ⟨empty⟩

instance : Inhabited (StringMap α) := ⟨empty⟩

/-- The value of a key. -/
def get? (m : StringMap α) (k : String) : Option α :=
  lookupEntry k m.entries

/-- Whether a key has a value. -/
def contains (m : StringMap α) (k : String) : Bool :=
  (m.get? k).isSome

/-- The map with the value of one key set. -/
def insert (m : StringMap α) (k : String) (v : α) : StringMap α :=
  ⟨insertEntry k v m.entries, pairwise_insertEntry m.sorted⟩

/-- The map of the entries that pass a test. -/
def filter (m : StringMap α) (keep : String → α → Bool) : StringMap α :=
  ⟨m.entries.filter fun e => keep e.1 e.2, m.sorted.filter _⟩

/-- The map without one key. -/
def erase (m : StringMap α) (k : String) : StringMap α :=
  m.filter fun j _ => j != k

/-- The map with the value of one key changed, if it has one. -/
def update (m : StringMap α) (k : String) (f : α → α) : StringMap α where
  entries := m.entries.map fun e => (e.1, if e.1 = k then f e.2 else e.2)
  sorted := List.pairwise_map.mpr m.sorted

/-- The map with every value changed. -/
def map (m : StringMap α) (f : α → β) : StringMap β where
  entries := m.entries.map fun e => (e.1, f e.2)
  sorted := List.pairwise_map.mpr m.sorted

/-- The map of a list of entries; of entries with one key the last one stays. -/
def ofList (l : List (String × α)) : StringMap α :=
  l.foldl (fun m e => m.insert e.1 e.2) empty

/-- The entries in the order of their keys. -/
def toList (m : StringMap α) : List (String × α) := m.entries

/-- The keys in order. -/
def keys (m : StringMap α) : List String := m.entries.map Prod.fst

/-- The values in the order of their keys. -/
def values (m : StringMap α) : List α := m.entries.map Prod.snd

/-- The number of entries. -/
def size (m : StringMap α) : Nat := m.entries.length

/-! ## Look-ups after an operation -/

@[simp] theorem get?_empty (k : String) : (empty : StringMap α).get? k = none := rfl

theorem get?_insert (m : StringMap α) (k j : String) (v : α) :
    (m.insert k v).get? j = if j = k then some v else m.get? j :=
  lookupEntry_insertEntry k j v m.entries

@[simp] theorem get?_insert_self (m : StringMap α) (k : String) (v : α) :
    (m.insert k v).get? k = some v := by
  simp [get?_insert]

/-- After the values of some keys are set, a key has the value that was set or the one before. -/
theorem get?_foldl_insert {f : String → α} {l : List String} {m : StringMap α} {j : String}
    {v : α} (h : (l.foldl (fun m k => m.insert k (f k)) m).get? j = some v) :
    j ∈ l ∧ v = f j ∨ m.get? j = some v := by
  induction l generalizing m with
  | nil => exact Or.inr h
  | cons k rest ih =>
    rcases ih h with ⟨hj, hv⟩ | h
    · exact Or.inl ⟨List.mem_cons_of_mem k hj, hv⟩
    · rw [get?_insert] at h
      split at h
      · rename_i hj
        subst hj
        exact Or.inl ⟨List.mem_cons_self, (Option.some.inj h).symm⟩
      · exact Or.inr h

theorem lookupEntry_map_update (k j : String) (f : α → α) (l : List (String × α)) :
    lookupEntry j (l.map fun e => (e.1, if e.1 = k then f e.2 else e.2)) =
      (lookupEntry j l).map fun v => if j = k then f v else v := by
  induction l with
  | nil => rfl
  | cons e rest ih =>
    obtain ⟨k', v'⟩ := e
    simp only [List.map_cons, lookupEntry, ih]
    split
    · rename_i h
      subst h
      rfl
    · rfl

theorem get?_update (m : StringMap α) (k j : String) (f : α → α) :
    (m.update k f).get? j = (m.get? j).map fun v => if j = k then f v else v :=
  lookupEntry_map_update k j f m.entries

theorem lookupEntry_filter {keep : String → α → Bool} {j : String} {l : List (String × α)}
    (h : l.Pairwise (fun a b => a.1 < b.1)) :
    lookupEntry j (l.filter fun e => keep e.1 e.2) = (lookupEntry j l).filter (keep j) := by
  induction l with
  | nil => rfl
  | cons e rest ih =>
    obtain ⟨k', v'⟩ := e
    rw [List.pairwise_cons] at h
    have hrest := ih h.2
    by_cases hj : j = k'
    · subst hj
      have hnone : lookupEntry j rest = none := lookupEntry_eq_none h.1
      by_cases hk : keep j v' = true
      · simp [List.filter, lookupEntry, Option.filter, hk]
      · simp only [Bool.not_eq_true] at hk
        simp [List.filter, lookupEntry, Option.filter, hk, hrest, hnone]
    · by_cases hk : keep k' v' = true
      · simp [List.filter, lookupEntry, hk, hj, hrest]
      · simp only [Bool.not_eq_true] at hk
        simp [List.filter, lookupEntry, hk, hj, hrest]

theorem get?_filter (m : StringMap α) (keep : String → α → Bool) (j : String) :
    (m.filter keep).get? j = (m.get? j).filter (keep j) :=
  lookupEntry_filter m.sorted

theorem get?_erase (m : StringMap α) (k j : String) :
    (m.erase k).get? j = if j = k then none else m.get? j := by
  unfold erase
  rw [get?_filter]
  by_cases h : j = k
  · cases hg : m.get? j <;> simp [h]
  · cases hg : m.get? j <;> simp [h]

/-! ## Equality -/

theorem mem_of_lookupEntry {k : String} {v : α} {l : List (String × α)}
    (h : lookupEntry k l = some v) : (k, v) ∈ l := by
  induction l with
  | nil => simp [lookupEntry] at h
  | cons e rest ih =>
    unfold lookupEntry at h
    split at h
    · rename_i hk
      simp only [Option.some.injEq] at h
      subst hk h
      exact List.mem_cons_self
    · exact List.mem_cons_of_mem _ (ih h)

theorem lookupEntry_of_mem {k : String} {v : α} {l : List (String × α)}
    (hl : l.Pairwise (fun a b => a.1 < b.1)) (h : (k, v) ∈ l) : lookupEntry k l = some v := by
  induction l with
  | nil => exact absurd h List.not_mem_nil
  | cons e rest ih =>
    rw [List.pairwise_cons] at hl
    rw [lookupEntry]
    rcases List.mem_cons.mp h with rfl | h
    · exact if_pos rfl
    · have hlt : e.1 < k := hl.1 (k, v) h
      rw [if_neg fun heq => String.lt_irrefl _ (heq ▸ hlt)]
      exact ih hl.2 h

/-- The entries of a map are its look-ups. -/
theorem mem_entries_iff (m : StringMap α) (k : String) (v : α) :
    (k, v) ∈ m.entries ↔ m.get? k = some v :=
  ⟨lookupEntry_of_mem m.sorted, mem_of_lookupEntry⟩

theorem entries_eq_of_lookupEntry {l₁ l₂ : List (String × α)}
    (h₁ : l₁.Pairwise (fun a b => a.1 < b.1)) (h₂ : l₂.Pairwise (fun a b => a.1 < b.1))
    (h : ∀ k, lookupEntry k l₁ = lookupEntry k l₂) : l₁ = l₂ := by
  induction l₁ generalizing l₂ with
  | nil =>
    cases l₂ with
    | nil => rfl
    | cons e rest =>
      have := h e.1
      simp [lookupEntry] at this
  | cons e₁ rest₁ ih =>
    cases l₂ with
    | nil =>
      have := h e₁.1
      simp [lookupEntry] at this
    | cons e₂ rest₂ =>
      obtain ⟨k₁, v₁⟩ := e₁
      obtain ⟨k₂, v₂⟩ := e₂
      rw [List.pairwise_cons] at h₁ h₂
      have hkey : k₁ = k₂ := by
        apply Decidable.byContradiction
        intro hne
        have ha := h k₁
        have hb := h k₂
        simp only [lookupEntry, if_true, if_neg hne, if_neg (Ne.symm hne)] at ha hb
        have h₃ := h₂.1 _ (mem_of_lookupEntry ha.symm)
        have h₄ := h₁.1 _ (mem_of_lookupEntry hb)
        exact String.lt_asymm h₃ h₄
      subst hkey
      have hval := h k₁
      simp only [lookupEntry, if_true, Option.some.injEq] at hval
      subst hval
      have htail : rest₁ = rest₂ := by
        apply ih h₁.2 h₂.2
        intro k
        by_cases hk : k = k₁
        · subst hk
          rw [lookupEntry_eq_none h₁.1, lookupEntry_eq_none h₂.1]
        · have := h k
          simpa [lookupEntry, hk] using this
      rw [htail]

/-- **Maps with the same look-ups are equal.** -/
theorem ext_get? {m₁ m₂ : StringMap α} (h : ∀ k, m₁.get? k = m₂.get? k) : m₁ = m₂ := by
  obtain ⟨l₁, s₁⟩ := m₁
  obtain ⟨l₂, s₂⟩ := m₂
  have : l₁ = l₂ := entries_eq_of_lookupEntry s₁ s₂ h
  subst this
  rfl

end StringMap
end ProtoBuild
