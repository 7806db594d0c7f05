import ProtoBuild.Proofs.Value.Json.Scalars
import ProtoBuild.Proofs.Value.Reordered

/-!
# The tokens of a value that is written

A plain value is written in two layouts, and both are cut into the same tokens, `tokensOf`
(`cuts_write`).

The reader looks at the text from its beginning, but what it makes of a part depends on what comes
after it.  So a text `Cuts` into tokens if it does so before every text that is cut into tokens
itself; the only thing to know of what comes after is that it does not go on with a number.
-/

namespace ProtoBuild
namespace Json

mutual
/-- The tokens of a value. -/
def tokensOf : Value → List Token
  | .string s => [.string (some s)]
  | .list [] => [.openList, .closeList]
  | .list (v :: vs) => .openList :: tokensOf v ++ itemTokens vs ++ [.closeList]
  | .object [] => [.openObject, .closeObject]
  | .object (f :: fs) =>
    .openObject :: .string (some f.1) :: .colon :: tokensOf f.2 ++ fieldTokens fs ++ [.closeObject]
  | v => [.scalar v]
/-- The tokens of the items after the first. -/
def itemTokens : List Value → List Token
  | [] => []
  | v :: vs => .comma :: tokensOf v ++ itemTokens vs
/-- The tokens of the fields after the first. -/
def fieldTokens : List (String × Value) → List Token
  | [] => []
  | f :: fs => .comma :: .string (some f.1) :: .colon :: tokensOf f.2 ++ fieldTokens fs
end

/-! ## Enough fuel -/

/-- More fuel does not change what a text is cut into. -/
theorem tokensWithin_succ {fuel : Nat} {cs : List Char} {ts : List Token}
    (h : tokensWithin fuel cs = some ts) : tokensWithin (fuel + 1) cs = some ts := by
  have hthen : ∀ {fuel : Nat} {rest : List Char} {t : Token} {ts : List Token},
      (∀ rest {ts}, tokensWithin fuel rest = some ts → tokensWithin (fuel + 1) rest = some ts) →
      (tokensWithin fuel rest).map (t :: ·) = some ts →
      (tokensWithin (fuel + 1) rest).map (t :: ·) = some ts := by
    intro fuel rest t ts ih h
    obtain ⟨ts', hts, rfl⟩ := Option.map_eq_some_iff.mp h
    rw [ih rest hts, Option.map_some]
  fun_induction tokensWithin fuel cs generalizing ts with
  | case1 => exact h
  | case2 => exact nomatch h
  | case3 | case4 | case5 | case6 =>
    rename_i ih
    exact ih h
  | case13 =>
    rename_i hunits ih
    rw [hunits] at h
    rw [tokensWithin, hunits]
    exact hthen ih h
  | case14 =>
    rename_i hunits ih
    rw [hunits] at h
    exact nomatch h
  | case18 =>
    rename_i ih
    have hnumber := ‹number? _ = some _›
    rw [hnumber] at h
    rw [tokensWithin, hnumber]
    · exact hthen ih h
    all_goals assumption
  | case19 =>
    have hnumber := ‹number? _ = none›
    rw [hnumber] at h
    exact nomatch h
  | _ =>
    rename_i ih
    exact hthen ih h

theorem tokensWithin_of_le {fuel : Nat} {cs : List Char} {ts : List Token}
    (h : tokens? cs = some ts) (hle : cs.length ≤ fuel) : tokensWithin fuel cs = some ts := by
  induction hle with
  | refl => exact h
  | step _ ih => exact tokensWithin_succ ih

/-! ## The parts of a text -/

/-- The tokens of one character. -/
def punctuation? : Char → Option Token
  | '[' => some .openList
  | ']' => some .closeList
  | '\x7b' => some .openObject
  | '\x7d' => some .closeObject
  | ':' => some .colon
  | ',' => some .comma
  | _ => none

section

variable {rest : List Char} {ts : List Token} (h : tokens? rest = some ts)
include h

theorem tokens?_cons {c : Char} {t : Token} (hc : punctuation? c = some t) :
    tokens? (c :: rest) = some (t :: ts) := by
  have hstep : tokens? (c :: rest) = (tokens? rest).map (t :: ·) := by
    unfold punctuation? at hc
    split at hc <;> cases hc <;> rfl
  rw [hstep, h, Option.map_some]

theorem tokens?_break (layout : Layout) (level : Nat) :
    tokens? (layout.break level ++ rest) = some ts := by
  cases layout with
  | line => exact h
  | block =>
    have hblanks : ∀ n, tokens? (List.replicate n ' ' ++ rest) = some ts := by
      intro n
      induction n with
      | zero => exact h
      | succ n ih => exact ih
    exact hblanks (2 * level)

theorem tokens?_colon (layout : Layout) :
    tokens? (layout.colon ++ rest) = some (.colon :: ts) := by
  cases layout with
  | line =>
    show tokens? (':' :: rest) = _
    exact tokens?_cons h rfl
  | block =>
    have hblank : tokens? (' ' :: rest) = some ts := h
    show tokens? (':' :: ' ' :: rest) = _
    exact tokens?_cons hblank rfl

theorem tokens?_quote (s : String) :
    tokens? (quote s ++ rest) = some (.string (some s) :: ts) := by
  have htext : quote s ++ rest = '"' :: (s.toList.flatMap escapeChar ++ '"' :: rest) := by
    simp [quote]
  have hrest : tokensWithin (s.toList.flatMap escapeChar ++ '"' :: rest).length rest = some ts :=
    tokensWithin_of_le h (by simp only [List.length_append, List.length_cons]; omega)
  rw [htext, tokens?, List.length_cons, tokensWithin, stringUnits?_flatMap]
  simp only
  rw [hrest, textOfUnits?_map, Option.map_some, Option.map_some, String.ofList_toList]

theorem tokens?_word {word : List Char} {v : Value} {n : Nat}
    (hword : tokens? (word ++ rest) =
      (tokensWithin (rest.length + n) rest).map (.scalar v :: ·)) :
    tokens? (word ++ rest) = some (.scalar v :: ts) := by
  rw [hword, tokensWithin_of_le h (Nat.le_add_right _ n), Option.map_some]

theorem tokens?_null : tokens? ("null".toList ++ rest) = some (.scalar .null :: ts) :=
  tokens?_word h (n := 3) rfl

theorem tokens?_bool (b : Bool) :
    tokens? ((if b then "true" else "false").toList ++ rest) = some (.scalar (.bool b) :: ts) := by
  cases b with
  | true => exact tokens?_word h (n := 3) rfl
  | false => exact tokens?_word h (n := 4) rfl

theorem tokens?_natural (hend : Delimited rest) {n : Nat} (hn : n < UInt64.size) :
    tokens? ((toString n).toList ++ rest) = some (.scalar (.natural n) :: ts) := by
  have hnumber := number?_toDigits hend hn
  obtain ⟨c, cs, hcons⟩ := List.exists_cons_of_ne_nil (Nat.toDigits_ne_nil (n := n) (b := 10))
  have hc : Text.isAsciiDigit c = true :=
    Text.isAsciiDigit_of_mem_toDigits (n := n) (by rw [hcons]; exact List.mem_cons_self)
  have hrest : tokensWithin (cs ++ rest).length rest = some ts :=
    tokensWithin_of_le h (by rw [List.length_append]; omega)
  rw [Nat.toString_eq_repr, Nat.toList_repr, hcons, List.cons_append, tokens?, List.length_cons,
    tokensWithin]
  · rw [hcons, List.cons_append] at hnumber
    rw [hnumber]
    simp only
    rw [hrest, Option.map_some]
  -- a digit begins nothing else
  all_goals
    intros
    subst_vars
    cases hc

end

/-! ## A value that is written -/

/-- A text is cut into some tokens wherever it stands, unless a number goes on after it. -/
def Cuts (text : List Char) (tokens : List Token) : Prop :=
  ∀ {rest : List Char} {ts : List Token}, Delimited rest → tokens? rest = some ts →
    tokens? (text ++ rest) = some (tokens ++ ts)

theorem delimited_break {rest : List Char} (h : Delimited rest) (layout : Layout) (level : Nat) :
    Delimited (layout.break level ++ rest) := by
  cases layout with
  | line => exact h
  | block => rfl

variable {layout : Layout} {level : Nat}

theorem delimited_writeItems {items : List Value} {rest : List Char} (h : Delimited rest) :
    Delimited (writeItems layout level items ++ rest) := by
  cases items with
  | nil => exact h
  | cons v vs => rfl

theorem delimited_writeFields {fields : List (String × Value)} {rest : List Char}
    (h : Delimited rest) : Delimited (writeFields layout level fields ++ rest) := by
  cases fields with
  | nil => exact h
  | cons f fs => rfl

theorem cuts_writeItems {items : List Value}
    (h : ∀ v ∈ items, Cuts (write layout level v) (tokensOf v)) :
    Cuts (writeItems layout level items) (itemTokens items) := by
  intro rest ts hend hrest
  induction items with
  | nil => exact hrest
  | cons v vs ih =>
    obtain ⟨hv, hvs⟩ := List.forall_mem_cons.mp h
    have hvalue := hv (delimited_writeItems hend) (ih hvs)
    have hcomma := tokens?_cons (c := ',') (tokens?_break hvalue layout level) rfl
    simpa only [writeItems, itemTokens, List.cons_append, List.append_assoc] using hcomma

theorem cuts_writeFields {fields : List (String × Value)}
    (h : ∀ f ∈ fields, Cuts (write layout level f.2) (tokensOf f.2)) :
    Cuts (writeFields layout level fields) (fieldTokens fields) := by
  intro rest ts hend hrest
  induction fields with
  | nil => exact hrest
  | cons f fs ih =>
    obtain ⟨hf, hfs⟩ := List.forall_mem_cons.mp h
    have hvalue := hf (delimited_writeFields hend) (ih hfs)
    have hname := tokens?_quote (tokens?_colon hvalue layout) f.1
    have hcomma := tokens?_cons (c := ',') (tokens?_break hname layout level) rfl
    simpa only [writeFields, fieldTokens, List.cons_append, List.append_assoc] using hcomma

/-- A plain value is written as its tokens, in either layout. -/
theorem cuts_write {levels : Nat} {v : Value} (hv : v.Plain levels) :
    Cuts (write layout level v) (tokensOf v) := by
  induction hv generalizing level with
  | null => exact fun _ hrest => tokens?_null hrest
  | bool b => exact fun _ hrest => tokens?_bool hrest b
  | natural hn => exact fun hend hrest => tokens?_natural hrest hend hn
  | string s => exact fun _ hrest => tokens?_quote hrest s
  | @list _ items _ ih =>
    intro rest ts hend hrest
    have hclose := tokens?_cons (c := ']') hrest rfl
    cases items with
    | nil => exact tokens?_cons (c := '[') hclose rfl
    | cons v vs =>
      have hparts : ∀ u ∈ v :: vs, Cuts (write layout (level + 1) u) (tokensOf u) :=
        fun u hu => ih u hu
      obtain ⟨hv, hvs⟩ := List.forall_mem_cons.mp hparts
      have hbefore := delimited_break (show Delimited (']' :: rest) from rfl) layout level
      have hitems := cuts_writeItems hvs hbefore
        (tokens?_break hclose layout level)
      have hitem := hv (delimited_writeItems hbefore) hitems
      have hopen := tokens?_cons (c := '[') (tokens?_break hitem layout (level + 1)) rfl
      simpa only [write, tokensOf, List.cons_append, List.append_assoc, List.nil_append] using hopen
  | @object _ fields _ ih =>
    intro rest ts hend hrest
    have hclose := tokens?_cons (c := '\x7d') hrest rfl
    cases fields with
    | nil => exact tokens?_cons (c := '\x7b') hclose rfl
    | cons f fs =>
      have hparts : ∀ g ∈ f :: fs, Cuts (write layout (level + 1) g.2) (tokensOf g.2) :=
        fun g hg => ih g hg
      obtain ⟨hf, hfs⟩ := List.forall_mem_cons.mp hparts
      have hbefore := delimited_break (show Delimited ('\x7d' :: rest) from rfl) layout level
      have hfields := cuts_writeFields hfs hbefore
        (tokens?_break hclose layout level)
      have hvalue := hf (delimited_writeFields hbefore) hfields
      have hname := tokens?_quote (tokens?_colon hvalue layout) f.1
      have hopen := tokens?_cons (c := '\x7b') (tokens?_break hname layout (level + 1)) rfl
      simpa only [write, tokensOf, List.cons_append, List.append_assoc, List.nil_append] using hopen

/-- The whole text of a plain value is cut into its tokens. -/
theorem tokens?_write {levels : Nat} {v : Value} (hv : v.Plain levels) (layout : Layout) :
    tokens? (write layout 0 v) = some (tokensOf v) := by
  have hnothing : tokens? [] = some [] := rfl
  have hwhole : tokens? (write layout 0 v ++ []) = some (tokensOf v ++ []) :=
    cuts_write hv rfl hnothing
  rwa [List.append_nil, List.append_nil] at hwhole

end Json
end ProtoBuild
