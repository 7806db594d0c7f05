import Mathlib.Data.List.Basic
import Mathlib.Data.List.Count
import ProtoBuild.StringMap

/-!
# Counting in a map

How many values of a map have a property depends on the map alone and not on how it came
about.  A change of one value moves the count by what is said of this value before and after
(`countP_update`), and a change that leaves the property alone does not move it
(`countP_update_of_iff`).

The size does not move under a change of a value (`size_update`), and a key that is new adds one
to it (`size_insert`).
-/

namespace ProtoBuild
namespace StringMap

variable {α : Type} {m : StringMap α} {k : String} {v : α} {f : α → α} {P : α → Bool}

theorem mem_values_iff : v ∈ m.values ↔ ∃ k, m.get? k = some v := by
  simp only [values, List.mem_map, Prod.exists, ← mem_entries_iff]
  constructor
  · rintro ⟨k, v', h, rfl⟩
    exact ⟨k, h⟩
  · rintro ⟨k, h⟩
    exact ⟨k, v, h, rfl⟩

@[simp] theorem length_values (m : StringMap α) : m.values.length = m.size :=
  List.length_map _

@[simp] theorem size_update (m : StringMap α) (k : String) (f : α → α) :
    (m.update k f).size = m.size :=
  List.length_map _

/-- A map without a key is not changed there. -/
theorem update_of_get?_eq_none (h : m.get? k = none) (f : α → α) : m.update k f = m := by
  refine ext_get? fun j => ?_
  rw [get?_update]
  by_cases hj : j = k
  · rw [hj, h]
    rfl
  · cases m.get? j <;> simp [hj]

/-! ## How a count moves -/

theorem countP_map_update_of_lt {l : List (String × α)} (h : ∀ e ∈ l, k < e.1) :
    ((l.map fun e => (e.1, if e.1 = k then f e.2 else e.2)).map Prod.snd).countP P =
      (l.map Prod.snd).countP P := by
  rw [List.map_map]
  congr 1
  refine List.map_congr_left fun e he => ?_
  have hne : e.1 ≠ k := fun heq => String.lt_irrefl k (heq ▸ h e he)
  simp [hne]

theorem countP_map_update {l : List (String × α)} (hl : l.Pairwise fun a b => a.1 < b.1)
    (h : lookupEntry k l = some v) :
    ((l.map fun e => (e.1, if e.1 = k then f e.2 else e.2)).map Prod.snd).countP P +
        (if P v then 1 else 0) =
      (l.map Prod.snd).countP P + if P (f v) then 1 else 0 := by
  induction l with
  | nil => exact nomatch h
  | cons e rest ih =>
    obtain ⟨j, w⟩ := e
    rw [List.pairwise_cons] at hl
    by_cases hj : k = j
    · -- the order keeps the key out of the rest
      subst hj
      simp only [lookupEntry, if_true, Option.some.injEq] at h
      subst h
      simp only [List.map_cons, List.countP_cons, if_true, countP_map_update_of_lt hl.1]
      omega
    · rw [lookupEntry, if_neg hj] at h
      have hrest := ih hl.2 h
      simp only [List.map_cons, List.countP_cons, if_neg (Ne.symm hj)]
      omega

/-- The value of one key is changed: the count loses the value before and gains the one
after. -/
theorem countP_update (h : m.get? k = some v) (f : α → α) (P : α → Bool) :
    (m.update k f).values.countP P + (if P v then 1 else 0) =
      m.values.countP P + if P (f v) then 1 else 0 :=
  countP_map_update m.sorted h

/-- A change that a property does not notice leaves the count as it is. -/
theorem countP_update_of_iff (hf : ∀ v, P (f v) = P v) (m : StringMap α) (k : String) :
    (m.update k f).values.countP P = m.values.countP P := by
  cases h : m.get? k with
  | none => rw [update_of_get?_eq_none h]
  | some v =>
    have hcount := countP_update h f P
    rw [hf v] at hcount
    omega

/-! ## Many new values -/

/-- Of the keys under which values are set each has its value, and the others keep theirs. -/
theorem get?_foldl_insert_eq {f : String → α} (l : List String) (m : StringMap α) (k : String) :
    (l.foldl (fun m k => m.insert k (f k)) m).get? k =
      if k ∈ l then some (f k) else m.get? k := by
  induction l generalizing m with
  | nil => simp
  | cons j rest ih =>
    rw [List.foldl_cons, ih, get?_insert]
    by_cases hk : k = j
    · simp [hk]
    · simp [hk]

/-! ## How the size moves -/

/-- What a filter takes away is what the opposite filter leaves. -/
theorem size_sub_size_filter (m : StringMap α) (keep : String → α → Bool) :
    m.size - (m.filter keep).size = (m.filter fun k v => ! keep k v).size := by
  have hparts : m.size = (m.filter keep).size + (m.filter fun k v => ! keep k v).size :=
    List.length_eq_length_filter_add fun e : String × α => keep e.1 e.2
  rw [hparts, Nat.add_sub_cancel_left]

theorem filter_filter_self (m : StringMap α) (keep : String → α → Bool) :
    (m.filter keep).filter keep = m.filter keep := by
  refine ext_get? fun k => ?_
  rw [get?_filter, get?_filter, Option.filter_filter]
  simp only [Bool.and_self]

theorem nodup_keys (m : StringMap α) : m.keys.Nodup := by
  rw [keys, List.Nodup, List.pairwise_map]
  refine m.sorted.imp fun {a b} hlt heq => ?_
  exact String.lt_irrefl b.1 (heq ▸ hlt)

theorem mem_keys_iff : k ∈ m.keys ↔ ∃ v, m.get? k = some v := by
  simp only [keys, List.mem_map, Prod.exists, exists_and_right, exists_eq_right, mem_entries_iff]

@[simp] theorem length_keys (m : StringMap α) : m.keys.length = m.size :=
  List.length_map _

theorem length_insertEntry {l : List (String × α)} (hl : l.Pairwise fun a b => a.1 < b.1)
    (h : lookupEntry k l = none) : (insertEntry k v l).length = l.length + 1 := by
  induction l with
  | nil => rfl
  | cons e rest ih =>
    obtain ⟨j, w⟩ := e
    rw [List.pairwise_cons] at hl
    by_cases hj : k = j
    · simp [lookupEntry, hj] at h
    · rw [lookupEntry, if_neg hj] at h
      rw [insertEntry]
      split
      · rfl
      · rw [List.length_cons, ih hl.2 h, List.length_cons]

theorem size_insert (h : m.get? k = none) (v : α) : (m.insert k v).size = m.size + 1 :=
  length_insertEntry m.sorted h

/-- Values are set under keys that are new and different. -/
theorem size_foldl_insert {f : String → α} {l : List String} (hl : l.Nodup)
    (h : ∀ k ∈ l, m.get? k = none) :
    (l.foldl (fun m k => m.insert k (f k)) m).size = m.size + l.length := by
  induction l generalizing m with
  | nil => rfl
  | cons k rest ih =>
    rw [List.nodup_cons] at hl
    have hk : m.get? k = none := h k List.mem_cons_self
    rw [List.foldl_cons, ih hl.2, size_insert hk, List.length_cons]
    · omega
    · intro j hj
      have hne : j ≠ k := fun heq => hl.1 (heq ▸ hj)
      rw [get?_insert, if_neg hne]
      exact h j (List.mem_cons_of_mem k hj)

end StringMap
end ProtoBuild
