import ProtoBuild.Proofs.Value.Json.Tokens
import ProtoBuild.Value.Json.Reader

/-!
# A value that is read back

The tokens of a value lead the reader from a state in which a value may come to the state with the
value pushed (`reads_tokensOf`).  So a plain value that does not lie too deep is read back from
what is written of it, in either layout (`ofJson?_write`).

The stack takes the parts of a container in reverse order, so what lies on it after some items is
the reverse of these items, put before those that were there; and how deep a container lies is how
many others are open below it.  A value that is plain with some levels is read on a stack that
leaves so many levels free.
-/

namespace ProtoBuild
namespace Json

variable {stack : List Frame} {ts : List Token}

theorem run_cons {state next : State} {t : Token} (h : step state t = some next) :
    run state (t :: ts) = run next ts := by
  rw [run, h]

/-- In a state in which a value may come, some tokens lead to the state with a value pushed. -/
def Reads (stack : List Frame) (tokens : List Token) (v : Value) : Prop :=
  ∀ {e : Expect} {ts : List Token} {next : State}, e = .value ∨ e = .firstItem →
    push v stack = some next → run (.reading stack e) (tokens ++ ts) = run next ts

theorem reads_scalar (v : Value) : Reads stack [.scalar v] v := by
  rintro e ts next (rfl | rfl) hnext <;> exact run_cons hnext

theorem reads_string (s : String) : Reads stack [.string (some s)] (.string s) := by
  rintro e ts next (rfl | rfl) hnext <;> exact run_cons hnext

/-! ## The parts of a container -/

/-- The fields that were read, as the stack holds them. -/
def held (fields : List (String × Value)) : List (Option String × Value) :=
  (fields.map fun f => (some f.1, f.2)).reverse

theorem held_append_singleton (fields : List (String × Value)) (f : String × Value) :
    held (fields ++ [f]) = (some f.1, f.2) :: held fields := by
  simp [held]

theorem objectOf_held (fields : List (String × Value)) :
    objectOf (held fields) = .object fields := by
  have hnames : (fields.map fun f => (some f.1, f.2)).mapM
      (fun f : Option String × Value => f.1.map (·, f.2)) = some fields := by
    induction fields with
    | nil => rfl
    | cons f fs ih => simp [List.mapM_cons, ih]
  rw [objectOf, held, List.reverse_reverse, hnames]

theorem run_itemTokens {items before : List Value}
    (h : ∀ v ∈ items, ∀ before, Reads (.list before :: stack) (tokensOf v) v) :
    run (.reading (.list before :: stack) .next) (itemTokens items ++ ts) =
      run (.reading (.list (items.reverse ++ before) :: stack) .next) ts := by
  induction items generalizing before with
  | nil => rfl
  | cons v vs ih =>
    obtain ⟨hv, hvs⟩ := List.forall_mem_cons.mp h
    have hcomma : step (.reading (.list before :: stack) .next) .comma =
        some (.reading (.list before :: stack) .value) := rfl
    rw [itemTokens, List.cons_append, List.cons_append, List.append_assoc, run_cons hcomma,
      hv before (.inl rfl) rfl, ih hvs, List.reverse_cons, List.append_assoc]
    rfl

/-- The name of a field and its value. -/
theorem run_field {f : String × Value} {e : Expect} {before : List (String × Value)}
    (he : e = .firstName ∨ e = .name)
    (h : ∀ before, Reads (.field before (some f.1) :: stack) (tokensOf f.2) f.2) :
    run (.reading (.object (held before) :: stack) e)
        (.string (some f.1) :: .colon :: (tokensOf f.2 ++ ts)) =
      run (.reading (.object (held (before ++ [f])) :: stack) .next) ts := by
  have hname : step (.reading (.object (held before) :: stack) e) (.string (some f.1)) =
      some (.reading (.field (held before) (some f.1) :: stack) .colon) := by
    rcases he with rfl | rfl <;> rfl
  have hcolon : step (.reading (.field (held before) (some f.1) :: stack) .colon) .colon =
      some (.reading (.field (held before) (some f.1) :: stack) .value) := rfl
  rw [run_cons hname, run_cons hcolon, h _ (.inl rfl) rfl, held_append_singleton]

theorem run_fieldTokens {fields before : List (String × Value)}
    (h : ∀ f ∈ fields, ∀ before, Reads (.field before (some f.1) :: stack) (tokensOf f.2) f.2) :
    run (.reading (.object (held before) :: stack) .next) (fieldTokens fields ++ ts) =
      run (.reading (.object (held (before ++ fields)) :: stack) .next) ts := by
  induction fields generalizing before with
  | nil =>
    rw [List.append_nil]
    rfl
  | cons f fs ih =>
    obtain ⟨hf, hfs⟩ := List.forall_mem_cons.mp h
    have hcomma : step (.reading (.object (held before) :: stack) .next) .comma =
        some (.reading (.object (held before) :: stack) .name) := rfl
    rw [fieldTokens]
    simp only [List.cons_append, List.append_assoc]
    rw [run_cons hcomma, run_field (.inr rfl) hf, ih hfs, List.append_assoc,
      List.singleton_append]

/-! ## A value -/

theorem close_eq_push (v : Value) (h : stack.length < maxDepth) : close v stack = push v stack := by
  have hfree : (stack.drop (maxDepth - 1)).isEmpty = true := by
    rw [List.isEmpty_iff, List.drop_eq_nil_iff]
    omega
  rw [close, hfree, if_pos rfl]

/-- The tokens of a plain value are read as that value, if the stack leaves its levels free. -/
theorem reads_tokensOf {levels : Nat} {v : Value} (hv : v.Plain levels)
    (hfree : levels + stack.length ≤ maxDepth) : Reads stack (tokensOf v) v := by
  induction hv generalizing stack with
  | null => exact reads_scalar .null
  | bool b => exact reads_scalar (.bool b)
  | @natural _ n _ => exact reads_scalar (.natural n)
  | string s => exact reads_string s
  | @list levels items _ ih =>
    intro e ts next he hnext
    have hopen : step (.reading stack e) .openList =
        some (.reading (.list [] :: stack) .firstItem) := by
      rcases he with rfl | rfl <;> rfl
    have hparts : ∀ v ∈ items, ∀ before, Reads (.list before :: stack) (tokensOf v) v :=
      fun v hv before => ih v hv (by rw [List.length_cons]; omega)
    have hclose : close (.list items) stack = some next := by
      rw [close_eq_push _ (by omega), hnext]
    cases items with
    | nil =>
      show run _ (.openList :: .closeList :: ts) = _
      rw [run_cons hopen]
      exact run_cons hclose
    | cons v vs =>
      obtain ⟨hv, hvs⟩ := List.forall_mem_cons.mp hparts
      have hend : step (.reading (.list (vs.reverse ++ [v]) :: stack) .next) .closeList =
          some next := by
        rw [← hclose]
        simp [step]
      rw [tokensOf]
      simp only [List.cons_append, List.append_assoc, List.nil_append]
      rw [run_cons hopen, hv [] (.inr rfl) rfl, run_itemTokens hvs, run_cons hend]
  | @object levels fields _ ih =>
    intro e ts next he hnext
    have hopen : step (.reading stack e) .openObject =
        some (.reading (.object (held []) :: stack) .firstName) := by
      rcases he with rfl | rfl <;> rfl
    have hparts : ∀ f ∈ fields, ∀ before,
        Reads (.field before (some f.1) :: stack) (tokensOf f.2) f.2 :=
      fun f hf before => ih f hf (by rw [List.length_cons]; omega)
    have hclose : close (objectOf (held fields)) stack = some next := by
      rw [objectOf_held, close_eq_push _ (by omega), hnext]
    cases fields with
    | nil =>
      show run _ (.openObject :: .closeObject :: ts) = _
      rw [run_cons hopen]
      exact run_cons hclose
    | cons f fs =>
      obtain ⟨hf, hfs⟩ := List.forall_mem_cons.mp hparts
      have hend : step (.reading (.object (held (f :: fs)) :: stack) .next) .closeObject =
          some next := hclose
      rw [tokensOf]
      simp only [List.cons_append, List.append_assoc, List.nil_append]
      rw [run_cons hopen, run_field (.inl rfl) hf, run_fieldTokens hfs]
      exact run_cons hend

/-- **A plain value is read back from what is written of it.** -/
theorem ofJson?_write {levels : Nat} {v : Value} (hv : v.Plain levels) (hle : levels ≤ maxDepth)
    (layout : Layout) : Value.ofJson? (String.ofList (write layout 0 v)) = some v := by
  have hrun : run start (tokensOf v ++ []) = run (.finished v) [] :=
    reads_tokensOf hv (by simpa using hle) (.inl rfl) rfl
  rw [List.append_nil] at hrun
  rw [Value.ofJson?, String.toList_ofList, read?, tokens?_write hv]
  simp only
  rw [hrun]
  rfl

end Json
end ProtoBuild
