import ProtoBuild.Pipeline
import ProtoBuild.Proofs.Registry.Agreement

/-!
# Changes of different builds do not meet

Many builds share one registry, and nothing in it keeps them apart but the names under which
they are stored.  `handle_commute` says that this is enough: two messages that name different
operations and concern different resources can be handled in either order, with the same
answers, the same registry and the same tripped tokens.

## Why a message is local

A message looks at two places only, the entry of its operation and the slot of its resource, and
it writes nowhere else.  These are two statements.  What it does not write is said by
`entryOf?_handle_of_ne` and `active?_handle_of_ne`; that it does not look elsewhere is
`Alike.handle`, which compares two registries that are alike at these places and may differ
everywhere else.  Tokens are apart from both, since they are only ever tripped
(`tripped_handle_iff`).

Commutation then needs no look at any pair of messages: at each place at most one of the two
writes, and it sees there what it would have seen without the other.
-/

namespace ProtoBuild
namespace Registry

/-- The operation that a message names.  A sweep and a shutdown name none. -/
def Message.operation? : Message → Option OperationName
  | .register name _ _ _ | .update name _ | .complete name _ | .fail name _ | .cancel name
  | .delete name => some name
  | .sweep | .shutdown => none

/-- The resource that a message concerns: the one that a new operation is to act on, and else the
one of the registered operation, if there is one. -/
def Message.resource? (r : Registry) : Message → Option ResourceName
  | .register _ resource _ _ => some resource
  | m => (m.operation?.bind r.get?).map Operation.resource

/-- The tokens that a message trips. -/
def Message.Trips (r : Registry) (t : Token) : Message → Prop
  | .cancel name | .delete name => ∃ e, r.Open name e ∧ e.token = t
  | _ => False

/-- Two messages name different operations and concern different resources. -/
structure Independent (r : Registry) (m m' : Message) : Prop where
  names : ∃ name name', m.operation? = some name ∧ m'.operation? = some name' ∧ name ≠ name'
  resources : ∀ resource, m.resource? r = some resource → m'.resource? r ≠ some resource

variable {r r' : Registry} {name other : OperationName} {resource s : ResourceName} {t : Token}
  {m m' : Message} {e : Entry} {retention now : UInt64}

theorem Independent.symm (h : r.Independent m m') : r.Independent m' m where
  names := by
    obtain ⟨name, name', hm, hm', hne⟩ := h.names
    exact ⟨name', name, hm', hm, hne.symm⟩
  resources s hs hs' := h.resources s hs' hs

/-! ## Where a message writes -/

theorem entryOf?_handle_of_ne (hm : m.operation? = some name) (hne : other ≠ name) :
    (r.handle retention now m).1.entryOf? other = r.entryOf? other := by
  cases m with
  | register name' resource p t =>
    obtain rfl := Option.some.inj hm
    exact entryOf?_register_of_ne hne resource p t
  | update name' p =>
    obtain rfl := Option.some.inj hm
    exact entryOf?_update_of_ne hne p
  | complete name' result =>
    obtain rfl := Option.some.inj hm
    exact entryOf?_complete_of_ne hne result now
  | fail name' message =>
    obtain rfl := Option.some.inj hm
    exact entryOf?_fail_of_ne hne message now
  | cancel name' =>
    obtain rfl := Option.some.inj hm
    exact entryOf?_cancel_of_ne hne now
  | delete name' =>
    obtain rfl := Option.some.inj hm
    exact entryOf?_delete_of_ne hne
  | sweep => exact nomatch hm
  | shutdown => exact nomatch hm

/-- An end of an operation frees no resource but its own. -/
theorem active?_finish_of_ne (hs : e.operation.resource ≠ s) (p : Progress)
    (result : Option BuildResult) (fault : Option Fault) :
    (r.finish name e p result fault now).active? s = r.active? s := by
  rw [active?_finish, if_neg fun h => hs h.1.symm]

theorem active?_release_of_ne (hs : resource ≠ s) :
    (r.release resource name).active? s = r.active? s := by
  rw [active?_release, if_neg fun h => hs h.1.symm]

/-- The resource of a registered operation is the one that its messages concern. -/
theorem resource_ne_of_entryOf? (he : r.entryOf? name = some e)
    (hs : (r.get? name).map Operation.resource ≠ some s) : e.operation.resource ≠ s := by
  rintro rfl
  refine hs ?_
  rw [get?, he]
  rfl

theorem active?_handle_of_ne (hm : m.operation? = some name) (hs : m.resource? r ≠ some s) :
    (r.handle retention now m).1.active? s = r.active? s := by
  cases m with
  | register name' resource p t =>
    show (r.register name' resource p t).1.active? s = r.active? s
    rcases register_cases r name' resource p t with ⟨-, -, heq⟩ | ⟨-, other, heq⟩
    · rw [heq, active?_addEntry, if_neg fun h => hs (congrArg some h.symm)]
    · rw [heq]
  | update name' p =>
    show (r.update name' p).1.active? s = r.active? s
    rcases update_cases r name' p with heq | ⟨e, -, -, heq⟩
    · rw [heq]
    · rw [heq, active?_setEntry]
  | complete name' result =>
    show (r.complete name' result now).1.active? s = r.active? s
    rcases complete_cases r name' result now with ⟨-, err, heq⟩ | ⟨e, ho, heq⟩
    · rw [heq]
    · rw [heq, active?_finish_of_ne (resource_ne_of_entryOf? ho.1 hs)]
  | fail name' message =>
    show (r.fail name' message now).1.active? s = r.active? s
    rcases fail_cases r name' message now with ⟨-, err, heq⟩ | ⟨e, ho, heq⟩
    · rw [heq]
    · rw [heq, active?_finish_of_ne (resource_ne_of_entryOf? ho.1 hs)]
  | cancel name' =>
    show (r.cancel name' now).1.active? s = r.active? s
    rcases cancel_cases r name' now with ⟨-, heq⟩ | ⟨e, ho, heq⟩
    · rw [heq]
    · rw [heq, active?_finish_of_ne (resource_ne_of_entryOf? ho.1 hs), active?_trip]
  | delete name' =>
    show (r.delete name').1.active? s = r.active? s
    rcases delete_cases r name' with ⟨-, heq⟩ | ⟨e, he, -, heq⟩ | ⟨e, ho, heq⟩
    · rw [heq]
    · rw [heq, active?_release_of_ne (resource_ne_of_entryOf? he hs), active?_eraseEntry]
    · rw [heq, active?_release_of_ne (resource_ne_of_entryOf? ho.1 hs), active?_eraseEntry,
        active?_trip]
  | sweep => exact nomatch hm
  | shutdown => exact nomatch hm

/-! ## Which tokens a message trips -/

theorem Open.exists_token_iff (ho : r.Open name e) :
    (∃ d, r.Open name d ∧ d.token = t) ↔ t = e.token := by
  constructor
  · rintro ⟨d, hd, rfl⟩
    rw [ho.unique hd]
  · rintro rfl
    exact ⟨e, ho, rfl⟩

theorem tripped_handle_iff (hm : m.operation? = some name) :
    (r.handle retention now m).1.tripped t = true ↔ m.Trips r t ∨ r.tripped t = true := by
  cases m with
  | register name' resource p t' =>
    show (r.register name' resource p t').1.tripped t = true ↔ False ∨ _
    rcases register_cases r name' resource p t' with ⟨-, -, heq⟩ | ⟨-, other, heq⟩
    · rw [heq, tripped_addEntry, false_or]
    · rw [heq, false_or]
  | update name' p =>
    show (r.update name' p).1.tripped t = true ↔ False ∨ _
    rcases update_cases r name' p with heq | ⟨e, -, -, heq⟩
    · rw [heq, false_or]
    · rw [heq, tripped_setEntry, false_or]
  | complete name' result =>
    show (r.complete name' result now).1.tripped t = true ↔ False ∨ _
    rcases complete_cases r name' result now with ⟨-, err, heq⟩ | ⟨e, -, heq⟩
    · rw [heq, false_or]
    · rw [heq, tripped_finish, false_or]
  | fail name' message =>
    show (r.fail name' message now).1.tripped t = true ↔ False ∨ _
    rcases fail_cases r name' message now with ⟨-, err, heq⟩ | ⟨e, -, heq⟩
    · rw [heq, false_or]
    · rw [heq, tripped_finish, false_or]
  | cancel name' =>
    show (r.cancel name' now).1.tripped t = true ↔ (∃ e, r.Open name' e ∧ e.token = t) ∨ _
    rcases cancel_cases r name' now with ⟨hn, heq⟩ | ⟨e, ho, heq⟩
    · rw [heq]
      exact (or_iff_right fun ⟨e, ho, _⟩ => hn e ho).symm
    · rw [heq, tripped_finish, tripped_trip, ho.exists_token_iff]
  | delete name' =>
    show (r.delete name').1.tripped t = true ↔ (∃ e, r.Open name' e ∧ e.token = t) ∨ _
    rcases delete_cases r name' with ⟨hnone, heq⟩ | ⟨e, he, hdone, heq⟩ | ⟨e, ho, heq⟩
    · rw [heq]
      exact (or_iff_right fun ⟨e, ho, _⟩ => not_open_of_none hnone e ho).symm
    · rw [heq, tripped_release, tripped_eraseEntry]
      exact (or_iff_right fun ⟨d, ho, _⟩ => not_open_of_done he hdone d ho).symm
    · rw [heq, tripped_release, tripped_eraseEntry, tripped_trip, ho.exists_token_iff]
  | sweep => exact nomatch hm
  | shutdown => exact nomatch hm

/-! ## Where a message looks -/

/-- Two registries are alike where a message looks. -/
structure Alike (m : Message) (r r' : Registry) : Prop where
  entry : ∀ name, m.operation? = some name → r'.entryOf? name = r.entryOf? name
  active : ∀ s, m.resource? r = some s → r'.active? s = r.active? s

/-- Two registries with their answers agree: the answers are the same, and so are the entry of an
operation and the slot of a resource, if there is one. -/
structure Match (name : OperationName) (resource? : Option ResourceName)
    (a b : Registry × Reply) : Prop where
  reply : a.2 = b.2
  entry : a.1.entryOf? name = b.1.entryOf? name
  active : ∀ s, resource? = some s → a.1.active? s = b.1.active? s

namespace Alike

/-- A refusal changes nothing, so the registries are alike as before. -/
theorem refused (h : Alike m r r') (hm : m.operation? = some name) (reply : Reply) :
    Match name (m.resource? r) (r', reply) (r, reply) :=
  ⟨rfl, h.entry name hm, h.active⟩

theorem finish (h : Alike m r r') (e : Entry) (p : Progress) (result : Option BuildResult)
    (fault : Option Fault) (reply : Reply) :
    Match name (m.resource? r) (r'.finish name e p result fault now, reply)
      (r.finish name e p result fault now, reply) where
  reply := rfl
  entry := by rw [entryOf?_finish, entryOf?_finish, if_pos rfl, if_pos rfl]
  active s hs := by rw [active?_finish, active?_finish, h.active s hs]

theorem forget (h : Alike m r r') (resource : ResourceName) (reply : Reply) :
    Match name (m.resource? r) ((r'.eraseEntry name).release resource name, reply)
      ((r.eraseEntry name).release resource name, reply) where
  reply := rfl
  entry := by
    rw [entryOf?_release, entryOf?_release, entryOf?_eraseEntry, entryOf?_eraseEntry, if_pos rfl,
      if_pos rfl]
  active s hs := by
    rw [active?_release, active?_release, active?_eraseEntry, active?_eraseEntry, h.active s hs]

theorem trip (h : Alike m r r') (t : Token) : Alike m (r.trip t) (r'.trip t) where
  entry := h.entry
  active := h.active

theorem resource?_eq (h : Alike m r r') : m.resource? r' = m.resource? r := by
  cases m with
  | register name resource p t => rfl
  | sweep => rfl
  | shutdown => rfl
  | update name | complete name | fail name | cancel name | delete name =>
    show (r'.get? name).map _ = (r.get? name).map _
    rw [get?, get?, h.entry name rfl]

/-- **What a message does depends on nothing but the places that it names.** -/
theorem handle (h : Alike m r r') (hm : m.operation? = some name) (retention now : UInt64) :
    Match name (m.resource? r) (r'.handle retention now m) (r.handle retention now m) := by
  cases m with
  | register name' resource p t =>
    obtain rfl := Option.some.inj hm
    show Match _ _
      ((r'.register name' resource p t).1, .operation (r'.register name' resource p t).2)
      ((r.register name' resource p t).1, .operation (r.register name' resource p t).2)
    unfold Registry.register
    rw [h.active resource rfl, h.entry name' rfl]
    split
    · exact h.refused rfl _
    · split
      · exact h.refused rfl _
      · refine ⟨rfl, ?_, fun s hs => ?_⟩
        · rw [entryOf?_addEntry, entryOf?_addEntry, if_pos rfl, if_pos rfl]
        · rw [active?_addEntry, active?_addEntry, h.active s hs]
  | update name' p =>
    obtain rfl := Option.some.inj hm
    show Match _ _ ((r'.update name' p).1, .flag (r'.update name' p).2)
      ((r.update name' p).1, .flag (r.update name' p).2)
    unfold Registry.update
    rw [h.entry name' rfl]
    split
    · exact h.refused rfl _
    · dsimp only
      split
      · exact h.refused rfl _
      · refine ⟨rfl, ?_, fun s hs => h.active s hs⟩
        rw [entryOf?_setEntry, entryOf?_setEntry, if_pos rfl, if_pos rfl]
  | complete name' result =>
    obtain rfl := Option.some.inj hm
    show Match _ _ ((r'.complete name' result now).1, .outcome (r'.complete name' result now).2)
      ((r.complete name' result now).1, .outcome (r.complete name' result now).2)
    unfold Registry.complete
    rw [h.entry name' rfl]
    split
    · exact h.refused rfl _
    · split
      · exact h.refused rfl _
      · exact h.finish _ _ _ _ _
  | fail name' message =>
    obtain rfl := Option.some.inj hm
    show Match _ _ ((r'.fail name' message now).1, .outcome (r'.fail name' message now).2)
      ((r.fail name' message now).1, .outcome (r.fail name' message now).2)
    unfold Registry.fail
    rw [h.entry name' rfl]
    split
    · exact h.refused rfl _
    · split
      · exact h.refused rfl _
      · exact h.finish _ _ _ _ _
  | cancel name' =>
    obtain rfl := Option.some.inj hm
    show Match _ _ ((r'.cancel name' now).1, .flag (r'.cancel name' now).2)
      ((r.cancel name' now).1, .flag (r.cancel name' now).2)
    unfold Registry.cancel
    rw [h.entry name' rfl]
    split
    · exact h.refused rfl _
    · split
      · exact h.refused rfl _
      · exact (h.trip _).finish _ _ _ _ _
  | delete name' =>
    obtain rfl := Option.some.inj hm
    show Match _ _ ((r'.delete name').1, .flag (r'.delete name').2)
      ((r.delete name').1, .flag (r.delete name').2)
    unfold Registry.delete
    rw [h.entry name' rfl]
    split
    · exact h.refused rfl _
    · dsimp only
      split
      · exact h.forget _ _
      · exact (h.trip _).forget _ _
  | sweep => exact nomatch hm
  | shutdown => exact nomatch hm

end Alike

/-! ## Two messages in either order -/

theorem ext_look {a b : Registry} (hentry : ∀ name, a.entryOf? name = b.entryOf? name)
    (hactive : ∀ resource, a.active? resource = b.active? resource)
    (htripped : ∀ t, a.tripped t = true ↔ b.tripped t = true) : a = b := by
  have hentries : a.entries = b.entries := StringMap.ext_get? fun key => hentry ⟨key⟩
  have hslots : a.active = b.active := StringMap.ext_get? fun key => hactive ⟨key⟩
  have htokens : a.tripped = b.tripped := funext fun t => Bool.eq_iff_iff.mpr (htripped t)
  obtain ⟨_, _, _⟩ := a
  obtain ⟨_, _, _⟩ := b
  congr

/-- A message finds its places as they were before an independent one. -/
theorem Independent.alike (h : r.Independent m m') :
    Alike m r (r.handle retention now m').1 where
  entry name hm := by
    obtain ⟨first, second, hfirst, hsecond, hne⟩ := h.names
    obtain rfl := Option.some.inj (hm.symm.trans hfirst)
    exact entryOf?_handle_of_ne hsecond hne
  active s hs := by
    obtain ⟨-, second, -, hsecond, -⟩ := h.names
    exact active?_handle_of_ne hsecond (h.resources s hs)

theorem Alike.trips_iff (h : Alike m r r') : m.Trips r' t ↔ m.Trips r t := by
  cases m with
  | cancel name => simp only [Message.Trips, Open, h.entry name rfl]
  | delete name => simp only [Message.Trips, Open, h.entry name rfl]
  | _ => exact Iff.rfl

/-- **Independent builds do not interfere.**  In any registry, two messages that name different
operations and concern different resources, and arrive at the same time, get the same answers in
either order and leave the same registry, with the same tripped tokens. -/
theorem handle_commute (h : r.Independent m m') (retention now : UInt64) :
    ((r.handle retention now m').1.handle retention now m).2 = (r.handle retention now m).2 ∧
      ((r.handle retention now m).1.handle retention now m').2 = (r.handle retention now m').2 ∧
      ((r.handle retention now m).1.handle retention now m').1 =
        ((r.handle retention now m').1.handle retention now m).1 := by
  obtain ⟨name, name', hm, hm', hne⟩ := h.names
  have hfirst : Alike m r (r.handle retention now m').1 := h.alike
  have hsecond : Alike m' r (r.handle retention now m).1 := h.symm.alike
  have hmatch := hfirst.handle hm retention now
  have hmatch' := hsecond.handle hm' retention now
  refine ⟨hmatch.reply, hmatch'.reply, ext_look (fun other => ?_) (fun s => ?_) fun t => ?_⟩
  · by_cases hn : other = name
    · subst hn
      rw [entryOf?_handle_of_ne hm' hne, hmatch.entry]
    · by_cases hn' : other = name'
      · subst hn'
        rw [hmatch'.entry, entryOf?_handle_of_ne hm hn]
      · rw [entryOf?_handle_of_ne hm' hn', entryOf?_handle_of_ne hm hn, entryOf?_handle_of_ne hm hn,
          entryOf?_handle_of_ne hm' hn']
  · by_cases hs : m.resource? r = some s
    · have hs' : m'.resource? r ≠ some s := h.resources s hs
      rw [active?_handle_of_ne hm' (by rwa [hsecond.resource?_eq]), hmatch.active s hs]
    · have hs₁ : m.resource? (r.handle retention now m').1 ≠ some s := by
        rwa [hfirst.resource?_eq]
      rw [active?_handle_of_ne hm hs₁]
      by_cases hs' : m'.resource? r = some s
      · exact hmatch'.active s hs'
      · rw [active?_handle_of_ne hm' (by rwa [hsecond.resource?_eq]), active?_handle_of_ne hm hs,
          active?_handle_of_ne hm' hs']
  · rw [tripped_handle_iff hm', tripped_handle_iff hm, tripped_handle_iff hm,
      tripped_handle_iff hm', hfirst.trips_iff, hsecond.trips_iff]
    exact or_left_comm

/-- A registry with one running build. -/
def oneRunning : Registry :=
  empty.after 600000
    [(1, .register ⟨"lakes/a/operations/op-1"⟩ ⟨"lakes/a"⟩ (.initial {} "." "main" 1) ⟨0⟩)]

/-- The running build is cancelled. -/
def cancelRunning : Message := .cancel ⟨"lakes/a/operations/op-1"⟩

/-- A build of another lake is asked for. -/
def askOther : Message :=
  .register ⟨"lakes/b/operations/op-2"⟩ ⟨"lakes/b"⟩ (.initial {} "." "main" 2) ⟨1⟩

/-- A build is cancelled while another lake asks for one: in either order the cancellation is
granted, the other build is admitted and one token is tripped. -/
theorem handle_commute_of_two_lakes :
    oneRunning.Independent cancelRunning askOther ∧
      ((oneRunning.handle 600000 2 askOther).1.handle 600000 2 cancelRunning).2 = .flag true ∧
      ((oneRunning.handle 600000 2 cancelRunning).1.handle 600000 2 askOther).1 =
        ((oneRunning.handle 600000 2 askOther).1.handle 600000 2 cancelRunning).1 ∧
      ((oneRunning.handle 600000 2 cancelRunning).1.handle 600000 2 askOther).1.tripped ⟨0⟩ =
        true := by
  have hindependent : oneRunning.Independent cancelRunning askOther := by
    refine ⟨⟨_, _, rfl, rfl, by decide⟩, fun resource hresource hother => ?_⟩
    obtain rfl : ⟨"lakes/a"⟩ = resource := Option.some.inj hresource
    exact absurd (Option.some.inj hother) (by decide)
  obtain ⟨hgranted, -, hsame⟩ := handle_commute hindependent 600000 2
  exact ⟨hindependent, hgranted, hsame, rfl⟩

end Registry
end ProtoBuild
