import Mathlib.Data.List.Nodup
import ProtoBuild.Proofs.Registry.Agreement
import ProtoBuild.Proofs.Registry.Selection

/-!
# Going through the pages of a list

Whoever lists operations asks for a page, and with the name at its end for the next one, until a
page has no next.  Between two requests the registry may change in any way: operations end, are
added, expire or are deleted, among them the one whose name is asked with.  `Listing` is such a
walk, and `Walked` is what holds of it all the same.

What comes on a page depends on the names alone.  The operations of a registry stand in the order
of their names, a page is the first of them after a name, and the next page goes on after its
last.  So no name comes twice, and one that is there at each request cannot slip through, since
each name lies on one side of every name that was asked with.

## Why the names and not the operations

An operation may be deleted and another one registered under its name between two requests, and
an operation that ends is another one as well.  What is counted is therefore names, and "registered
and selected at each request" is said of the name.
-/

namespace ProtoBuild
namespace Registry

variable {r : Registry} {f : Filter} {size : Nat} {after : Option String} {text last : String}
  {o : Operation} {retention : UInt64}

/-! ## The operations in the order of their names -/

/-- Comes after the name that a page is asked with; without one everything does. -/
def Beyond (after : Option String) (name : String) : Prop :=
  ∀ last, after = some last → last < name

theorem Agrees.name_of_mem (h : r.Agrees) {k : String} {e : Entry}
    (he : (k, e) ∈ r.entries.entries) : e.operation.name.text = k := by
  have hget : r.entryOf? ⟨k⟩ = some e := (r.entries.mem_entries_iff k e).mp he
  rw [h.name_eq hget]

theorem Agrees.pairwise_operations (h : r.Agrees) :
    (r.entries.values.map Entry.operation).Pairwise fun a b => a.name.text < b.name.text := by
  rw [StringMap.values, List.map_map, List.pairwise_map]
  refine r.entries.sorted.imp_of_mem fun {a b} ha hb hlt => ?_
  show a.2.operation.name.text < b.2.operation.name.text
  rw [h.name_of_mem ha, h.name_of_mem hb]
  exact hlt

theorem Agrees.mem_operations_iff (h : r.Agrees) :
    o ∈ r.entries.values.map Entry.operation ↔ r.get? o.name = some o := by
  rw [get?_eq_some_iff, List.mem_map]
  constructor
  · rintro ⟨e, he, rfl⟩
    obtain ⟨⟨k, e⟩, hmem, rfl⟩ := List.mem_map.mp he
    refine ⟨e, ?_, rfl⟩
    have hname : e.operation.name = ⟨k⟩ := OperationName.text_inj.mp (h.name_of_mem hmem)
    rw [hname]
    exact (r.entries.mem_entries_iff k e).mp hmem
  · rintro ⟨e, he, rfl⟩
    exact ⟨e, List.mem_map.mpr ⟨_, (r.entries.mem_entries_iff _ e).mpr he, rfl⟩, rfl⟩

theorem Agrees.mem_listed_iff (h : r.Agrees) :
    o ∈ r.listed f after ↔
      r.get? o.name = some o ∧ f.accepts o = true ∧ Beyond after o.name.text := by
  rw [listed, List.mem_filter, h.mem_operations_iff, Bool.and_eq_true]
  refine and_congr_right fun _ => and_congr_right fun _ => ?_
  cases after with
  | none => simp [Beyond]
  | some last => simp [Beyond]

theorem Agrees.pairwise_listed (h : r.Agrees) (f : Filter) (after : Option String) :
    (r.listed f after).Pairwise fun a b => a.name.text < b.name.text :=
  h.pairwise_operations.sublist List.filter_sublist

/-! ## One page -/

/-- The number of operations that a page has at most. -/
def pageSize (size : Nat) : Nat := if size = 0 then defaultPageSize else size

theorem pageSize_pos (size : Nat) : 0 < pageSize size := by
  unfold pageSize
  split
  · decide
  · omega

theorem operations_page :
    (r.page f size after).operations = (r.listed f after).take (pageSize size) := rfl

theorem list_eq_ok_iff (hf : Filter.parse text = .ok f) {p : Page} :
    r.list text size after = .ok p ↔ p = r.page f size after := by
  rw [list, hf]
  exact ⟨fun h => (Except.ok.inj h).symm, fun h => h ▸ rfl⟩

theorem next_page_eq_none_iff :
    (r.page f size after).next = none ↔ (r.listed f after).length ≤ pageSize size := by
  have hpos : 0 < pageSize size := pageSize_pos size
  show (if pageSize size < (r.listed f after).length then
      ((r.listed f after).take (pageSize size)).getLast?.map fun o => o.name.text
    else none) = none ↔ _
  split
  · rename_i hmore
    refine iff_of_false ?_ (by omega)
    rw [Option.map_eq_none_iff, List.getLast?_eq_none_iff, List.take_eq_nil_iff]
    rintro (hzero | hnil)
    · omega
    · rw [hnil] at hmore
      exact Nat.not_lt_zero _ hmore
  · rename_i hall
    exact iff_of_true rfl (by omega)

/-- A page that has a next is full, and the name that the next is asked with parts the names: those
on the page do not come after it, and those left over do. -/
theorem Agrees.next_page (h : r.Agrees) (hnext : (r.page f size after).next = some last) :
    pageSize size < (r.listed f after).length ∧
      (∀ o ∈ (r.listed f after).take (pageSize size), ¬ last < o.name.text) ∧
      (∀ o ∈ (r.listed f after).drop (pageSize size), last < o.name.text) ∧
      Beyond after last := by
  have hsorted := h.pairwise_listed f after
  change (if pageSize size < (r.listed f after).length then
    ((r.listed f after).take (pageSize size)).getLast?.map fun o => o.name.text else none) =
      some last at hnext
  split at hnext
  · rename_i hmore
    obtain ⟨o, ho, rfl⟩ := Option.map_eq_some_iff.mp hnext
    obtain ⟨before, htake⟩ := List.getLast?_eq_some_iff.mp ho
    have hmem : o ∈ (r.listed f after).take (pageSize size) := List.mem_of_getLast? ho
    rw [← List.take_append_drop (pageSize size) (r.listed f after), List.pairwise_append] at hsorted
    obtain ⟨hpage, -, hparts⟩ := hsorted
    rw [htake, List.pairwise_append] at hpage
    refine ⟨hmore, fun a ha hlt => ?_, fun b hb => hparts o hmem b hb, ?_⟩
    · rw [htake] at ha
      rcases List.mem_append.mp ha with ha | ha
      · have hback := hpage.2.2 a ha o (List.mem_singleton_self o)
        exact String.lt_irrefl _ (String.lt_trans hlt hback)
      · rw [List.mem_singleton.mp ha] at hlt
        exact String.lt_irrefl _ hlt
    · exact (h.mem_listed_iff.mp (List.mem_of_mem_take hmem)).2.2
  · exact nomatch hnext

/-- The operations after the last name of a page are those that were left over. -/
theorem Agrees.listed_next (h : r.Agrees) (hnext : (r.page f size after).next = some last) :
    r.listed f (some last) = (r.listed f after).drop (pageSize size) := by
  obtain ⟨-, htake, hdrop, hlast⟩ := h.next_page hnext
  have hlater : r.listed f (some last) =
      (r.listed f after).filter fun o => decide (last < o.name.text) := by
    rw [listed, listed, List.filter_filter]
    refine List.filter_congr fun o _ => ?_
    cases after with
    | none => simp [Bool.and_comm]
    | some earlier =>
      have hlt : earlier < last := hlast earlier rfl
      have himp : last < o.name.text → earlier < o.name.text := String.lt_trans hlt
      by_cases ho : last < o.name.text
      · simp [ho, himp ho]
      · simp [ho]
  have hnone : ((r.listed f after).take (pageSize size)).filter
      (fun o => decide (last < o.name.text)) = [] :=
    List.filter_eq_nil_iff.mpr fun o ho hlt => htake o ho (of_decide_eq_true hlt)
  have hall : ((r.listed f after).drop (pageSize size)).filter
      (fun o => decide (last < o.name.text)) = (r.listed f after).drop (pageSize size) :=
    List.filter_eq_self.mpr fun o ho => decide_eq_true (hdrop o ho)
  calc r.listed f (some last)
      = ((r.listed f after).take (pageSize size) ++ (r.listed f after).drop (pageSize size)).filter
          fun o => decide (last < o.name.text) := by rw [hlater, List.take_append_drop]
    _ = (r.listed f after).drop (pageSize size) := by
        rw [List.filter_append, hnone, hall, List.nil_append]

/-! ## From page to page -/

/-- A page that was served, and the registry that served it. -/
structure Visit where
  registry : Registry
  page : Page

/-- A walk through the pages of a list, from a registry and the name that its first page is asked
with.  It ends with the first page that has no next, and before each other page any messages may
have arrived. -/
inductive Listing (retention : UInt64) (text : String) (size : Nat) :
    Registry → Option String → List Visit → Prop
  | last {r : Registry} {after : Option String} {page : Page}
      (hpage : r.list text size after = .ok page) (hlast : page.next = none) :
      Listing retention text size r after [⟨r, page⟩]
  | more {r : Registry} {after : Option String} {page : Page} {last : String}
      {visits : List Visit} (hpage : r.list text size after = .ok page)
      (hnext : page.next = some last) (messages : List (UInt64 × Message))
      (hrest : Listing retention text size (r.after retention messages) (some last) visits) :
      Listing retention text size r after (⟨r, page⟩ :: visits)

/-- The names on all pages, in the order in which they were served. -/
def namesOn (visits : List Visit) : List OperationName :=
  visits.flatMap fun v => v.page.operations.map Operation.name

/-- A name is of an operation that is registered and selected. -/
def Offers (r : Registry) (text : String) (name : OperationName) : Prop :=
  ∃ o, r.get? name = some o ∧ Filter.Selects text o

namespace Listing

variable {visits : List Visit}

/-- Each page is one of a registry whose maps agree. -/
theorem page_eq (hf : Filter.parse text = .ok f) (hr : r.Agrees)
    (h : Listing retention text size r after visits) :
    ∀ v ∈ visits, v.registry.Agrees ∧ ∃ after, v.page = v.registry.page f size after := by
  induction h with
  | last hpage _ =>
    intro v hv
    rw [List.mem_singleton.mp hv]
    exact ⟨hr, _, (list_eq_ok_iff hf).mp hpage⟩
  | more hpage _ messages _ ih =>
    intro v hv
    rcases List.mem_cons.mp hv with rfl | hv
    · exact ⟨hr, _, (list_eq_ok_iff hf).mp hpage⟩
    · exact ih (hr.after retention messages) v hv

/-- **The names increase from page to page**, from the one that the first page is asked with. -/
theorem increasing (hf : Filter.parse text = .ok f) (hr : r.Agrees)
    (h : Listing retention text size r after visits) :
    (namesOn visits).Pairwise (fun a b => a.text < b.text) ∧
      ∀ name ∈ namesOn visits, Beyond after name.text := by
  have hone : ∀ {r : Registry} {after : Option String}, r.Agrees →
      ((r.page f size after).operations.map Operation.name).Pairwise
          (fun a b => a.text < b.text) ∧
        ∀ name ∈ (r.page f size after).operations.map Operation.name, Beyond after name.text := by
    intro r after hr
    refine ⟨?_, fun name hname => ?_⟩
    · rw [List.pairwise_map]
      exact (hr.pairwise_listed f after).sublist (List.take_sublist _ _)
    · obtain ⟨o, ho, rfl⟩ := List.mem_map.mp hname
      exact (hr.mem_listed_iff.mp (List.mem_of_mem_take ho)).2.2
  induction h with
  | last hpage _ =>
    obtain rfl := (list_eq_ok_iff hf).mp hpage
    simpa [namesOn] using hone hr
  | @more r after page last visits hpage hnext messages _ ih =>
    obtain rfl := (list_eq_ok_iff hf).mp hpage
    obtain ⟨hpairwise, hbeyond⟩ := ih (hr.after retention messages)
    obtain ⟨hfirst, hafter⟩ := @hone r after hr
    obtain ⟨-, htake, -, hlast⟩ := hr.next_page hnext
    rw [namesOn, List.flatMap_cons]
    refine ⟨List.pairwise_append.mpr ⟨hfirst, hpairwise, fun a ha b hb => ?_⟩, fun name hname => ?_⟩
    · -- the name between the two pages parts them
      obtain ⟨o, ho, rfl⟩ := List.mem_map.mp ha
      have hb' : last < b.text := hbeyond b hb last rfl
      by_cases heq : last = o.name.text
      · exact heq ▸ hb'
      · exact String.lt_trans (StringMap.lt_of_not_lt_of_ne (htake o ho) heq) hb'
    · rcases List.mem_append.mp hname with hname | hname
      · exact hafter name hname
      · exact fun earlier hearlier =>
          String.lt_trans (hlast earlier hearlier) (hbeyond name hname last rfl)

/-- **No name is lost** that is offered at each request. -/
theorem mem_names (hf : Filter.parse text = .ok f) (hr : r.Agrees)
    (h : Listing retention text size r after visits) {name : OperationName}
    (hoffered : ∀ v ∈ visits, v.registry.Offers text name) (hbeyond : Beyond after name.text) :
    name ∈ namesOn visits := by
  have hlisted : ∀ {r : Registry} {after : Option String}, r.Agrees → r.Offers text name →
      Beyond after name.text → ∃ o ∈ r.listed f after, o.name = name := by
    rintro r after hr ⟨o, ho, hselected⟩ hbeyond
    obtain ⟨e, he, rfl⟩ := get?_eq_some_iff.mp ho
    have hname : e.operation.name = name := hr.name_eq he
    refine ⟨e.operation, hr.mem_listed_iff.mpr ⟨?_, ?_, ?_⟩, hname⟩
    · rw [hname]
      exact ho
    · exact (Filter.accepts_iff_selects hf _).mpr hselected
    · rw [hname]
      exact hbeyond
  induction h with
  | @last r after page hpage hlast =>
    obtain rfl := (list_eq_ok_iff hf).mp hpage
    obtain ⟨o, ho, rfl⟩ := hlisted hr (hoffered _ (List.mem_singleton_self _)) hbeyond
    have hall : (r.page f size after).operations = r.listed f after :=
      List.take_of_length_le (next_page_eq_none_iff.mp hlast)
    simp only [namesOn, List.flatMap_cons, List.flatMap_nil, List.append_nil, hall]
    exact List.mem_map_of_mem ho
  | @more r after page last visits hpage hnext messages _ ih =>
    obtain rfl := (list_eq_ok_iff hf).mp hpage
    rw [namesOn, List.flatMap_cons, List.mem_append]
    by_cases hlater : last < name.text
    · refine Or.inr (ih (hr.after retention messages)
        (fun v hv => hoffered v (List.mem_cons_of_mem _ hv)) fun l hl => ?_)
      obtain rfl := Option.some.inj hl
      exact hlater
    · obtain ⟨o, ho, rfl⟩ := hlisted hr (hoffered _ List.mem_cons_self) hbeyond
      obtain ⟨-, -, hdrop, -⟩ := hr.next_page hnext
      rw [← List.take_append_drop (pageSize size) (r.listed f after), List.mem_append] at ho
      rcases ho with ho | ho
      · exact Or.inl (List.mem_map_of_mem ho)
      · exact absurd (hdrop o ho) hlater

/-! ## A registry that does not change -/

theorem exists_head (h : Listing retention text size r after visits) :
    ∃ page rest, visits = ⟨r, page⟩ :: rest := by
  cases h with
  | last _ _ => exact ⟨_, _, rfl⟩
  | more _ _ _ _ => exact ⟨_, _, rfl⟩

/-- The number of pages that a number of operations fills; there is always one. -/
def pages (size count : Nat) : Nat := max 1 ((count + pageSize size - 1) / pageSize size)

theorem pages_of_le {count : Nat} (h : count ≤ pageSize size) : pages size count = 1 := by
  have hpos : 0 < pageSize size := pageSize_pos size
  have hlt : (count + pageSize size - 1) / pageSize size < 2 :=
    Nat.div_lt_of_lt_mul (by omega)
  rw [pages]
  omega

theorem pages_of_lt {count : Nat} (h : pageSize size < count) :
    pages size count = pages size (count - pageSize size) + 1 := by
  have hpos : 0 < pageSize size := pageSize_pos size
  have hfull : 1 ≤ (count - pageSize size + pageSize size - 1) / pageSize size :=
    Nat.div_pos (by omega) hpos
  have hcount : count + pageSize size - 1 =
      count - pageSize size + pageSize size - 1 + pageSize size := by omega
  rw [pages, pages, hcount, Nat.add_div_right _ hpos]
  omega

/-- Without changes there are as many pages as the operations fill. -/
theorem length_of_unchanged (hf : Filter.parse text = .ok f) (hr : r.Agrees)
    (h : Listing retention text size r after visits) (hsame : ∀ v ∈ visits, v.registry = r) :
    visits.length = pages size (r.listed f after).length := by
  induction h with
  | last hpage hlast =>
    obtain rfl := (list_eq_ok_iff hf).mp hpage
    exact (pages_of_le (next_page_eq_none_iff.mp hlast)).symm
  | @more r after page last visits hpage hnext messages hrest ih =>
    obtain rfl := (list_eq_ok_iff hf).mp hpage
    obtain ⟨page', rest, rfl⟩ := hrest.exists_head
    have hunchanged : r.after retention messages = r :=
      hsame ⟨r.after retention messages, page'⟩ (List.mem_cons_of_mem _ List.mem_cons_self)
    have hlength := ih (hr.after retention messages) fun v hv =>
      (hsame v (List.mem_cons_of_mem _ hv)).trans hunchanged.symm
    rw [List.length_cons, hlength, hunchanged, hr.listed_next hnext, List.length_drop,
      ← pages_of_lt (hr.next_page hnext).1]

/-- Without changes the walk comes to an end. -/
theorem exists_unchanged (retention : UInt64) (hf : Filter.parse text = .ok f) (hr : r.Agrees)
    (size : Nat) (after : Option String) :
    ∃ visits, Listing retention text size r after visits ∧ ∀ v ∈ visits, v.registry = r := by
  induction hn : (r.listed f after).length using Nat.strongRecOn generalizing after with
  | _ n ih =>
    subst hn
    have hpage : r.list text size after = .ok (r.page f size after) := (list_eq_ok_iff hf).mpr rfl
    cases hnext : (r.page f size after).next with
    | none =>
      refine ⟨_, .last hpage hnext, fun v hv => ?_⟩
      rw [List.mem_singleton.mp hv]
    | some last =>
      have hshorter : (r.listed f (some last)).length < (r.listed f after).length := by
        rw [hr.listed_next hnext, List.length_drop]
        have hpos := pageSize_pos size
        have hmore := (hr.next_page hnext).1
        omega
      obtain ⟨visits, hvisits, hsame⟩ := ih _ hshorter (some last) rfl
      refine ⟨_, .more hpage hnext [] hvisits, fun v hv => ?_⟩
      rcases List.mem_cons.mp hv with rfl | hv
      · rfl
      · exact hsame v hv

end Listing

/-! ## What holds of a walk -/

/-- What a walk through the pages of a list gives, however the registry changes between them: the
names increase, no page has more operations than it may, each operation is as its registry has it
and is selected, and a name that is offered at each request comes exactly once.  If the registry
does not change, there are as many pages as the names that it offers fill. -/
structure Walked (text : String) (size : Nat) (r : Registry) (visits : List Visit) : Prop where
  increasing : (namesOn visits).Pairwise fun a b => a.text < b.text
  bounded : ∀ v ∈ visits, v.page.operations.length ≤ pageSize size
  served : ∀ v ∈ visits, ∀ o ∈ v.page.operations,
    v.registry.get? o.name = some o ∧ Filter.Selects text o
  complete : ∀ name, (∀ v ∈ visits, v.registry.Offers text name) →
    (namesOn visits).count name = 1
  length_of_unchanged : ∀ names : List OperationName, names.Nodup →
    (∀ name, name ∈ names ↔ r.Offers text name) → (∀ v ∈ visits, v.registry = r) →
    visits.length = max 1 ((names.length + pageSize size - 1) / pageSize size)

/-- However the names are listed that a registry offers, there are as many as it lists. -/
theorem Agrees.length_listed (h : r.Agrees) (hf : Filter.parse text = .ok f)
    {names : List OperationName} (hnodup : names.Nodup)
    (hnames : ∀ name, name ∈ names ↔ r.Offers text name) :
    (r.listed f none).length = names.length := by
  have hlisted : ((r.listed f none).map Operation.name).Nodup := by
    refine List.Pairwise.map _ (fun a b hlt heq => ?_) (h.pairwise_listed f none)
    rw [heq] at hlt
    exact String.lt_irrefl _ hlt
  have hmem : ∀ name, name ∈ (r.listed f none).map Operation.name ↔ name ∈ names := by
    intro name
    rw [hnames, List.mem_map]
    constructor
    · rintro ⟨o, ho, rfl⟩
      obtain ⟨hget, hselected, -⟩ := h.mem_listed_iff.mp ho
      exact ⟨o, hget, (Filter.accepts_iff_selects hf o).mp hselected⟩
    · rintro ⟨o, hget, hselected⟩
      obtain ⟨e, he, rfl⟩ := get?_eq_some_iff.mp hget
      have hname : e.operation.name = name := h.name_eq he
      refine ⟨e.operation, h.mem_listed_iff.mpr ⟨?_, ?_, fun _ hnone => nomatch hnone⟩, hname⟩
      · rw [hname]
        exact hget
      · exact (Filter.accepts_iff_selects hf _).mpr hselected
  have hperm := (List.perm_ext_iff_of_nodup hlisted hnodup).mpr hmem
  rw [← hperm.length_eq, List.length_map]

theorem Listing.walked {visits : List Visit} (hf : Filter.parse text = .ok f) (hr : r.Agrees)
    (h : Listing retention text size r none visits) : Walked text size r visits where
  increasing := (h.increasing hf hr).1
  bounded v hv := by
    obtain ⟨-, after, hpage⟩ := h.page_eq hf hr v hv
    rw [hpage, operations_page, List.length_take]
    exact Nat.min_le_left _ _
  served v hv o ho := by
    obtain ⟨hagrees, after, hpage⟩ := h.page_eq hf hr v hv
    rw [hpage, operations_page] at ho
    obtain ⟨hget, hselected, -⟩ := hagrees.mem_listed_iff.mp (List.mem_of_mem_take ho)
    exact ⟨hget, (Filter.accepts_iff_selects hf o).mp hselected⟩
  complete name hoffered := by
    have hnodup : (namesOn visits).Nodup := by
      refine (h.increasing hf hr).1.imp fun {a b} hlt heq => ?_
      rw [heq] at hlt
      exact String.lt_irrefl _ hlt
    exact List.count_eq_one_of_mem hnodup (h.mem_names hf hr hoffered fun _ hnone => nomatch hnone)
  length_of_unchanged names hnodup hnames hsame := by
    rw [← hr.length_listed hf hnodup hnames]
    exact h.length_of_unchanged hf hr hsame

/-- **Going through the pages of a list.**  Take any filter that can be read, any size of a page
and any registry that messages have led to, and let any messages arrive between two requests.  Then
the names on the pages increase, so none comes twice, no page is too long, each operation was
registered and selected when its page was served, and each name of a registered and selected
operation at every request comes exactly once.  If nothing arrives, the walk comes to an end, after
as many pages as the operations fill. -/
theorem walked_of_parse (retention : UInt64) (before : List (UInt64 × Message)) (text : String)
    (size : Nat) (hf : ∃ f, Filter.parse text = .ok f) :
    (∀ visits, Listing retention text size (empty.after retention before) none visits →
      Walked text size (empty.after retention before) visits) ∧
    ∃ visits, Listing retention text size (empty.after retention before) none visits ∧
      ∀ v ∈ visits, v.registry = empty.after retention before := by
  obtain ⟨f, hf⟩ := hf
  have hr : (empty.after retention before).Agrees := Agrees.empty.after retention before
  exact ⟨fun visits h => h.walked hf hr, Listing.exists_unchanged retention hf hr size none⟩

/-- Operations on three lakes, of which the second has ended. -/
def threeLakes : List (UInt64 × Message) :=
  [(1, .register ⟨"lakes/a/operations/op-1"⟩ ⟨"lakes/a"⟩
      { target := ".", branch := "main", startTime := 1 } ⟨1⟩),
    (2, .register ⟨"lakes/b/operations/op-1"⟩ ⟨"lakes/b"⟩
      { target := ".", branch := "main", startTime := 2 } ⟨2⟩),
    (3, .fail ⟨"lakes/b/operations/op-1"⟩ "no"),
    (4, .register ⟨"lakes/c/operations/op-1"⟩ ⟨"lakes/c"⟩
      { target := ".", branch := "main", startTime := 4 } ⟨3⟩)]

/-- The operation on the first page is deleted before the second page is asked for with its name,
and the one that was there at both requests is not lost. -/
theorem walked_past_deletion :
    ∃ visits,
      Listing 1000 "resource=lakes/ done=false" 1 (empty.after 1000 threeLakes) none visits ∧
      visits.map (fun v => (v.registry.get? ⟨"lakes/a/operations/op-1"⟩).isSome) = [true, false] ∧
      (namesOn visits).count ⟨"lakes/c/operations/op-1"⟩ = 1 := by
  have hparse : Filter.parse "resource=lakes/ done=false" =
      .ok { resourceStart := some "lakes/", done := some false } := rfl
  obtain ⟨hwalked, -⟩ :=
    walked_of_parse 1000 threeLakes "resource=lakes/ done=false" 1 ⟨_, hparse⟩
  have hlisting : Listing 1000 "resource=lakes/ done=false" 1 (empty.after 1000 threeLakes) none
      [⟨empty.after 1000 threeLakes, _⟩, ⟨_, _⟩] :=
    .more rfl rfl [(5, .delete ⟨"lakes/a/operations/op-1"⟩)] (.last rfl rfl)
  refine ⟨_, hlisting, rfl, (hwalked _ hlisting).complete _ fun v hv => ?_⟩
  rcases List.mem_cons.mp hv with rfl | hv
  · exact ⟨_, rfl, (Filter.accepts_iff_selects hparse _).mp rfl⟩
  · obtain rfl := List.mem_singleton.mp hv
    exact ⟨_, rfl, (Filter.accepts_iff_selects hparse _).mp rfl⟩

end Registry
end ProtoBuild
