import ProtoBuild.Document.Build
import ProtoBuild.Proofs.Document.Records
import ProtoBuild.Proofs.Value.Json.Reading

/-!
# The documents of a build

Everything that is told of a build is read back from the text that is written for it
(`documents_round_trip`): phases, units, packages, lakes, findings, summaries, results, faults and
operations.  The fields of the objects may stand in any order in the text, and what is not written
because it is missing or empty is missing or empty again.

Each of these types is a lawful document.  For a record this says of each of its places which way
of reading it belongs to the way in which it is written: `required_eq`, `optional_eq` or
`orDefault_eq`.  Were a place left out of a document that its reader asks for, or read with another
default, then there would be no such lemma for it.

An `Artifact` is not read like a record, because its kind decides which places it has
(`exists_tagged`).  The kind is taken out, wherever it stands, and the rest is read as a record.
-/

namespace ProtoBuild

open Document Value

/-! ## Enumerations and names -/

instance : LawfulDocument Stage 0 := .of_enumeration fun a => by cases a <;> rfl

instance : LawfulDocument PhaseState 0 := .of_enumeration fun a => by cases a <;> rfl

instance : LawfulDocument UnitStatus 0 := .of_enumeration fun a => by cases a <;> rfl

instance : LawfulDocument Check 0 := .of_enumeration fun a => by cases a <;> rfl

instance : LawfulDocument Severity 0 := .of_enumeration fun a => by cases a <;> rfl

instance : LawfulDocument FaultCode 0 := .of_enumeration fun a => by cases a <;> rfl

instance : LawfulDocument Verdict 0 := .of_enumeration fun a => by cases a <;> rfl

instance : LawfulDocument OperationName 0 where
  decode?_eq h := by
    rw [h.eq_of_isScalar trivial]
    rfl
  plain n := .string n.text
  encode_ne_null n := nofun

instance : LawfulDocument ResourceName 0 where
  decode?_eq h := by
    rw [h.eq_of_isScalar trivial]
    rfl
  plain n := .string n.text
  encode_ne_null n := nofun

/-! ## Phases -/

/-- A text that is left out if it is empty is empty if it is missing. -/
theorem orDefault_eq_of_isEmpty {name text : String} {fields : Fields}
    (h : Option.Rel Reordered
      ((if text.isEmpty then none else written name text).map Prod.snd) (fields name)) :
    fields.orDefault name "" = some text := by
  split at h
  · rename_i hempty
    rw [String.isEmpty_iff.mp hempty, Fields.orDefault, Fields.orDefaultBy,
      eq_none_of_rel_none h]
  · exact orDefault_eq "" h

instance : LawfulDocument PhaseRecord 2 := by
  refine .ofRecord (fun _ => rfl) (fun _ => rfl) (by decide) (fun r => ?_) fun r fields h => ?_
  · have hsub : Slot 1 "sub_phase"
        (if r.subPhase.isEmpty then none else written "sub_phase" r.subPhase) := by
      split
      · exact ⟨nofun, nofun⟩
      · exact slot_written (Nat.zero_le 1) _ _
    have hone : 1 ≤ 1 := Nat.le_refl 1
    have hzero : 0 ≤ 1 := Nat.zero_le 1
    exact .cons (slot_written hzero _ _) (.cons hsub (.cons (slot_writtenIf hzero _ _)
      (.cons (slot_writtenIf hzero _ _) (.cons (slot_writtenIf hzero _ _)
        (.cons (slot_written hone _ _) .nil)))))
  · simp only [List.forall₂_cons] at h
    obtain ⟨hstate, hsub, hstart, hend, herror, hlog, -⟩ := h
    rw [required_eq hstate, orDefault_eq_of_isEmpty hsub, optional_eq hstart, optional_eq hend,
      optional_eq herror, orDefault_eq [] hlog]
    rfl

instance : LawfulDocument PhaseRecords 3 := by
  refine .ofRecord (fun _ => rfl) (fun _ => rfl) (by decide) (fun r => ?_) fun r fields h => ?_
  · simp [slot_written]
  · simp only [List.forall₂_cons] at h
    obtain ⟨hcodegen, hvalidation, hbuild, hpublish, -⟩ := h
    rw [required_eq hcodegen, required_eq hvalidation, required_eq hbuild, required_eq hpublish]
    rfl

/-! ## Units and packages -/

/-- A field that tells what kind of object it stands in is found wherever it stands, and the other
fields are those of the object without it. -/
theorem exists_tagged {tag kind : String} {fields : List (String × Value)} {w : Value}
    (hfields : ∀ f ∈ fields, f.1 ≠ tag)
    (h : (Value.object ((tag, .string kind) :: fields)).Reordered w) :
    ∃ read, w = .object read ∧ read.filter (fun f => f.1 == tag) = [(tag, .string kind)] ∧
      (Value.object fields).Reordered (.object (read.filter fun f => f.1 != tag)) := by
  obtain ⟨fields', read, rfl, hperm, hall⟩ := h.exists_object
  cases hall with
  | @cons _ f _ rest hf hrest =>
    obtain ⟨name, value⟩ := f
    obtain ⟨rfl, hvalue⟩ := hf
    obtain rfl := hvalue.eq_of_isScalar trivial
    have hother : ∀ f ∈ rest, f.1 ≠ tag := by
      intro f' hf'
      obtain ⟨f, hf, hname, -⟩ := exists_of_mem_right hrest hf'
      exact hname ▸ hfields f hf
    have hnone : rest.filter (fun f => f.1 == tag) = [] :=
      List.filter_eq_nil_iff.mpr fun f hf => by simpa using hother f hf
    have hrest' : rest.filter (fun f => f.1 != tag) = rest :=
      List.filter_eq_self.mpr fun f hf => bne_iff_ne.mpr (hother f hf)
    have htag := hperm.filter fun f => f.1 == tag
    have hwithout := hperm.filter fun f => f.1 != tag
    rw [List.filter_cons_of_pos (by simp), hnone] at htag
    rw [List.filter_cons_of_neg (by simp), hrest'] at hwithout
    obtain ⟨hnames, hvalues⟩ := forall₂_fields_iff.mp hrest
    exact ⟨read, rfl, List.perm_singleton.mp htag.symm, .object hnames hvalues hwithout⟩

namespace Artifact

/-- The names of the places of a package besides its kind. -/
def placeNames : Artifact → List String
  | maven .. => ["group_id", "artifact_id", "version"]
  | python .. => ["package_name", "version"]
  | npm .. => ["package_name", "version"]

/-- What is written in the places of a package besides its kind. -/
def places : Artifact → List (Option (String × Value))
  | maven group name version =>
    [written "group_id" group, written "artifact_id" name, written "version" version]
  | python package version => [written "package_name" package, written "version" version]
  | npm package version => [written "package_name" package, written "version" version]

theorem encode_eq (a : Artifact) :
    encode a = Value.objectOf (written "kind" a.kind :: a.places) := by
  cases a <;> rfl

theorem nodup_placeNames (a : Artifact) : ("kind" :: a.placeNames).Nodup := by
  cases a <;> simp [placeNames]

theorem slot_places (a : Artifact) : List.Forall₂ (Slot 0) a.placeNames a.places := by
  cases a <;> simp [placeNames, places, slot_written]

theorem plain_encode (a : Artifact) : (encode a).Plain 1 := by
  rw [encode_eq]
  exact plain_objectOf (.cons (slot_written (Nat.le_refl 0) "kind" a.kind) a.slot_places)

/-- Of each kind its own places are read. -/
theorem ofKind?_eq {a : Artifact} {w : Value} (h : (Value.objectOf a.places).Reordered w) :
    ofKind? a.kind w = some a := by
  obtain ⟨-, hnodup⟩ := List.nodup_cons.mp a.nodup_placeNames
  obtain ⟨fields, hfields, hread⟩ := fields?_objectOf hnodup a.slot_places h
  cases a with
  | maven group name version =>
    simp only [placeNames, places, List.forall₂_cons] at hfields hread
    obtain ⟨hgroup, hname, hversion, -⟩ := hread
    show (w.fields? ["group_id", "artifact_id", "version"]).bind _ = _
    rw [hfields, Option.bind_some, required_eq hgroup,
      required_eq hname, required_eq hversion]
    rfl
  | python package version =>
    simp only [placeNames, places, List.forall₂_cons] at hfields hread
    obtain ⟨hpackage, hversion, -⟩ := hread
    show (w.fields? ["package_name", "version"]).bind _ = _
    rw [hfields, Option.bind_some, required_eq hpackage,
      required_eq hversion]
    rfl
  | npm package version =>
    simp only [placeNames, places, List.forall₂_cons] at hfields hread
    obtain ⟨hpackage, hversion, -⟩ := hread
    show (w.fields? ["package_name", "version"]).bind _ = _
    rw [hfields, Option.bind_some, required_eq hpackage,
      required_eq hversion]
    rfl

end Artifact

instance : LawfulDocument Artifact 1 where
  decode?_eq {a w} h := by
    have hwell : w.isWellFormed = true := (a.plain_encode.reordered h).isWellFormed
    have hother : ∀ f ∈ a.places.filterMap id, f.1 ≠ "kind" := by
      intro f hf heq
      have hmem := (sublist_names a.slot_places).subset (List.mem_map_of_mem hf)
      exact (List.nodup_cons.mp a.nodup_placeNames).1 (heq ▸ hmem)
    rw [a.encode_eq] at h
    obtain ⟨read, rfl, htag, hrest⟩ := exists_tagged hother h
    show (if ! (Value.object read).isWellFormed then none
      else match read.filter fun f => f.1 == "kind" with
        | [(_, .string kind)] => Artifact.ofKind? kind _
        | _ => none) = _
    rw [hwell, htag]
    exact Artifact.ofKind?_eq hrest
  plain a := a.plain_encode
  encode_ne_null a := by
    rw [a.encode_eq]
    nofun

instance : LawfulDocument UnitRecord 3 := by
  refine .ofRecord (fun _ => rfl) (fun _ => rfl) (by decide) (fun u => ?_) fun u fields h => ?_
  · simp [slot_written, slot_writtenIf]
  · simp only [List.forall₂_cons] at h
    obtain ⟨htarget, hversion, hstatus, hstart, hend, hartifacts, herror, hlogs, -⟩ := h
    rw [required_eq htarget, required_eq hversion, required_eq hstatus, optional_eq hstart,
      optional_eq hend, orDefault_eq ∅ hartifacts, optional_eq herror, orDefault_eq [] hlogs]
    rfl

/-! ## Lakes -/

instance : LawfulDocument BuildSettings 2 := by
  refine .ofRecord (fun _ => rfl) (fun _ => rfl) (by decide) (fun b => ?_) fun b fields h => ?_
  · simp [slot_written]
  · simp only [List.forall₂_cons] at h
    obtain ⟨henv, hisolate, hkeep, hclean, -⟩ := h
    rw [orDefault_eq ∅ henv, orDefault_eq false hisolate, orDefault_eq false hkeep,
      orDefault_eq false hclean]
    rfl

instance : LawfulDocument ValidationSettings 1 := by
  refine .ofRecord (fun _ => rfl) (fun _ => rfl) (by decide) (fun s => ?_) fun s fields h => ?_
  · simp [slot_written]
  · simp only [List.forall₂_cons] at h
    obtain ⟨henabled, hcompilation, hlint, hbreaking, hformat, -⟩ := h
    rw [orDefault_eq true henabled, orDefault_eq true hcompilation, orDefault_eq true hlint,
      orDefault_eq true hbreaking, orDefault_eq false hformat]
    rfl

theorem slot_singleton (name text : String) :
    List.Forall₂ (Slot 0) [name] [written name text] := by
  simp [slot_written]

/-- The object with one field is read as that field. -/
theorem fields?_singleton {name text : String} {w : Value}
    (h : (Value.objectOf [written name text]).Reordered w) :
    ∃ fields, w.fields? [name] = some fields ∧
      Option.Rel Reordered ((written name text).map Prod.snd) (fields name) := by
  obtain ⟨fields, hfields, hread⟩ :=
    fields?_objectOf (List.nodup_singleton name) (slot_singleton name text) h
  exact ⟨fields, hfields, (List.forall₂_cons.mp hread).1⟩

theorem onlyField?_eq {name text : String} {w : Value}
    (h : (Value.objectOf [written name text]).Reordered w) :
    onlyField? Value.fields? name w = some text := by
  obtain ⟨fields, hfields, hread⟩ := fields?_singleton h
  rw [onlyField?, hfields]
  exact required_eq hread

theorem onlyFieldOrEmpty?_eq {name text : String} {w : Value}
    (h : (Value.objectOf [written name text]).Reordered w) :
    onlyFieldOrEmpty? Value.fields? name w = some text := by
  obtain ⟨fields, hfields, hread⟩ := fields?_singleton h
  rw [onlyFieldOrEmpty?, hfields]
  exact orDefault_eq "" hread

instance : LawfulDocument LanguageSettings 2 := by
  refine .ofRecord (fun _ => rfl) (fun _ => rfl) (by decide) (fun l => ?_) fun l fields h => ?_
  · have hplain : ∀ (name text : String), (Value.objectOf [written name text]).Plain 1 :=
      fun name text => plain_objectOf (slot_singleton name text)
    exact .cons (slot_map (hplain "group_id") _ _) (.cons (slot_map (hplain "package_prefix") _ _)
      (.cons (slot_map (hplain "scope") _ _) .nil))
  · simp only [List.forall₂_cons] at h
    obtain ⟨hjava, hpython, hnpm, -⟩ := h
    rw [optionalBy_eq (fun _ _ => onlyField?_eq) nofun hjava,
      optionalBy_eq (fun _ _ => onlyFieldOrEmpty?_eq) nofun hpython,
      optionalBy_eq (fun _ _ => onlyField?_eq) nofun hnpm]
    rfl

instance : LawfulDocument Workspace 3 := by
  refine .ofRecord (fun _ => rfl) (fun _ => rfl) (by decide) (fun l => ?_) fun l fields h => ?_
  · simp [slot_written]
  · simp only [List.forall₂_cons] at h
    obtain ⟨hname, hversion, hroot, hbuild, hvalidation, hlanguages, -⟩ := h
    -- the settings are read in the way of JSON, which is that of their own documents
    have hbuild' : fields.orDefaultBy (BuildSettings.read? Value.fields?) "build" {} =
        some l.build := orDefault_eq ({} : BuildSettings) hbuild
    have hvalidation' : fields.orDefaultBy (ValidationSettings.read? Value.fields?) "validation"
        {} = some l.validation := orDefault_eq ({} : ValidationSettings) hvalidation
    have hlanguages' : fields.orDefaultBy (LanguageSettings.read? Value.fields?) "languages" {} =
        some l.languages := orDefault_eq ({} : LanguageSettings) hlanguages
    rw [orDefault_eq "" hname, orDefault_eq "0.1.0" hversion, orDefault_eq "" hroot, hbuild',
      hvalidation', hlanguages']
    rfl

/-! ## Progress and findings -/

instance : LawfulDocument Progress 5 := by
  refine .ofRecord (fun _ => rfl) (fun _ => rfl) (by decide) (fun p => ?_) fun p fields h => ?_
  · simp [slot_written, slot_writtenIf]
  · simp only [List.forall₂_cons] at h
    obtain ⟨htarget, hbranch, hstart, hstage, hphases, hunits, hlake, -⟩ := h
    rw [required_eq htarget, required_eq hbranch, required_eq hstart, required_eq hstage,
      required_eq hphases, orDefault_eq ∅ hunits, optional_eq hlake]
    rfl

instance : LawfulDocument Finding 1 := by
  refine .ofRecord (fun _ => rfl) (fun _ => rfl) (by decide) (fun f => ?_) fun f fields h => ?_
  · simp [slot_written, slot_writtenIf]
  · simp only [List.forall₂_cons] at h
    obtain ⟨hcheck, hseverity, hmessage, hfile, hline, hcolumn, -⟩ := h
    rw [required_eq hcheck, required_eq hseverity, required_eq hmessage, optional_eq hfile,
      optional_eq hline, optional_eq hcolumn]
    rfl

instance : LawfulDocument CheckReport 3 := by
  refine .ofRecord (fun _ => rfl) (fun _ => rfl) (by decide) (fun r => ?_) fun r fields h => ?_
  · simp [slot_written, slot_writtenIf]
  · simp only [List.forall₂_cons] at h
    obtain ⟨hsuccess, hfindings, hskipped, -⟩ := h
    rw [required_eq hsuccess, required_eq hfindings, optional_eq hskipped]
    rfl

/-! ## Operations -/

instance : LawfulDocument Fault 1 := by
  refine .ofRecord (fun _ => rfl) (fun _ => rfl) (by decide) (fun f => ?_) fun f fields h => ?_
  · simp [slot_written]
  · simp only [List.forall₂_cons] at h
    obtain ⟨hcode, hmessage, -⟩ := h
    rw [required_eq hcode, required_eq hmessage]
    rfl

instance : LawfulDocument Summary 2 := by
  refine .ofRecord (fun _ => rfl) (fun _ => rfl) (by decide) (fun s => ?_) fun s fields h => ?_
  · simp [slot_written, slot_writtenIf]
  · simp only [List.forall₂_cons] at h
    obtain ⟨htotal, hsuccessful, hfailed, hskipped, hartifacts, herror, -⟩ := h
    rw [required_eq htotal, required_eq hsuccessful, required_eq hfailed, required_eq hskipped,
      required_eq hartifacts, optional_eq herror]
    rfl

instance : LawfulDocument BuildResult 6 := by
  refine .ofRecord (fun _ => rfl) (fun _ => rfl) (by decide) (fun r => ?_) fun r fields h => ?_
  · simp [slot_written]
  · simp only [List.forall₂_cons] at h
    obtain ⟨hprogress, hverdict, htime, hsummary, -⟩ := h
    rw [required_eq hprogress, required_eq hverdict, required_eq htime, required_eq hsummary]
    rfl

instance : LawfulDocument Operation 7 := by
  refine .ofRecord (fun _ => rfl) (fun _ => rfl) (by decide) (fun o => ?_) fun o fields h => ?_
  · simp [slot_written, slot_writtenIf]
  · simp only [List.forall₂_cons] at h
    obtain ⟨hname, hresource, hprogress, hdone, hresult, hfault, -⟩ := h
    rw [required_eq hname, required_eq hresource, required_eq hprogress, required_eq hdone,
      optional_eq hresult, optional_eq hfault]
    rfl

/-! ## Every document -/

namespace Document

/-- What a JSON text says of a type. -/
def ofJson? (α : Type) [Document α] (text : String) : Option α :=
  (Value.ofJson? text).bind decode?

/-- Each value is read back from what is written for it, on one line or on many, with the fields
of its objects in any order; and what is read from any text is read again from what is then
written for it. -/
structure RoundTrips (α : Type) [Document α] : Prop where
  read_back : ∀ (a : α) (v : Value), (encode a).Reordered v →
    ofJson? α v.toJson = some a ∧ ofJson? α v.toJsonBlock = some a
  read_again : ∀ (text : String) (a : α), ofJson? α text = some a →
    ofJson? α (encode a).toJson = some a ∧ ofJson? α (encode a).toJsonBlock = some a

/-- A lawful document that does not lie too deep is read back. -/
theorem RoundTrips.of_lawful {α : Type} [Document α] {levels : Nat} [LawfulDocument α levels]
    (hle : levels ≤ Json.maxDepth) : RoundTrips α := by
  have hback : ∀ (a : α) (v : Value), (encode a).Reordered v →
      ofJson? α v.toJson = some a ∧ ofJson? α v.toJsonBlock = some a := by
    intro a v h
    have htext : ∀ layout, ofJson? α (String.ofList (Json.write layout 0 v)) = some a := by
      intro layout
      have hplain := (LawfulDocument.plain a).reordered h
      rw [ofJson?, Json.ofJson?_write hplain hle layout, Option.bind_some,
        LawfulDocument.decode?_eq h]
    exact ⟨htext .line, htext .block⟩
  exact ⟨hback, fun _ a _ => hback a (encode a) (.same _)⟩

/-- **The documents of a build are read back.**  Whatever texts, times, positions and names there
are in a value, and whichever of its parts are missing, it is read back from its JSON text, in
whatever order the fields of each object stand; and what is read from any JSON text is read again
from what is written for it. -/
theorem documents_round_trip :
    RoundTrips Progress ∧ RoundTrips PhaseRecord ∧ RoundTrips PhaseRecords ∧
      RoundTrips UnitRecord ∧ RoundTrips Artifact ∧ RoundTrips Workspace ∧ RoundTrips Finding ∧
      RoundTrips CheckReport ∧ RoundTrips Summary ∧ RoundTrips BuildResult ∧ RoundTrips Fault ∧
      RoundTrips Operation :=
  ⟨.of_lawful (by decide), .of_lawful (by decide), .of_lawful (by decide),
    .of_lawful (by decide), .of_lawful (by decide), .of_lawful (by decide),
    .of_lawful (by decide), .of_lawful (by decide), .of_lawful (by decide),
    .of_lawful (by decide), .of_lawful (by decide), .of_lawful (by decide)⟩

/-- A package is read back from a text in which its kind stands last. -/
theorem documents_round_trip_kind_last :
    ofJson? Artifact
        (Value.object [("version", .string "1"), ("package_name", .string "x"),
          ("kind", .string "npm")]).toJson =
      some (.npm "x" "1") := by
  obtain ⟨-, -, -, -, hartifact, -⟩ := documents_round_trip
  have hreordered : (encode (Artifact.npm "x" "1")).Reordered
      (.object [("version", .string "1"), ("package_name", .string "x"),
        ("kind", .string "npm")]) :=
    .object rfl (List.forall₂_same.mpr fun v _ => .same v) (List.reverse_perm _).symm
  exact (hartifact.read_back _ _ hreordered).1

end Document
end ProtoBuild
