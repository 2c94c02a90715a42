import Midend.Diagnostic.Report
import Midend.Proofs.Encoded
import Midend.Proofs.JsonText
import Midend.Proofs.ReadType

/-!
# Midend.Proofs.ReportText

What another program reads out of the text of a report (`Report.text_faithful`). The report itself
is read back from the fields that are copied from it; a field that was left out stands for the value
that it is left out for. The other fields are counts and lookups, which say the same as the report.
-/

namespace Midend

open Json (asFields asString asBool asUInt32 asUInt64 elements field? required defaulted)

def Label.ofReport (j : Json) : Decoded Label := do
  let fs ← asFields j
  let message ← required fs "message" asString
  let start ← required fs "start" asUInt64
  let stop ← required fs "end" asUInt64
  .ok ⟨⟨start, stop⟩, message⟩

def Diagnostic.ofReport (j : Json) : Decoded Diagnostic := do
  let fs ← asFields j
  let code ← Json.optional fs "code" asString
  let message ← required fs "message" asString
  let labels ← required fs "labels" (elements (fun _ => Label.ofReport) 1)
  let notes ← defaulted fs "notes" [] (elements (fun _ => asString) 1)
  let help ← Json.optional fs "help" asString
  .ok ⟨code, message, labels, notes, help⟩

namespace Report

def ofJson (j : Json) : Decoded Report := do
  let fs ← asFields j
  let file ← required fs "file" asString
  let phase ← required fs "phase" asString
  let diagnostics ← required fs "diagnostics" (elements (fun _ => Diagnostic.ofReport) 1)
  .ok ⟨file, phase, diagnostics⟩

def ofText (text : String) : Decoded Report :=
  match Json.parse? text with
  | some j => ofJson j
  | none => .error .malformed

variable {α : Type} {fs : Fields} {name : String}

@[simp]
theorem filter_optionalField (name key : String) (f : α → Json) (o : Option α) :
    (optionalField name f o).filter (fun g => g.1.text == key) =
      if name = key then optionalField name f o else [] := by
  cases o <;> by_cases h : name = key <;> simp [optionalField, h]

@[simp]
theorem filter_field (name key : String) (v : Json) :
    (field name v).filter (fun g => g.1.text == key) = if name = key then field name v else [] :=
  filter_optionalField name key id (some v)

@[simp]
theorem textsField_eq (name : String) (texts : List String) : textsField name texts =
    optionalField name (Json.ofList .str) (if texts = [] then none else some texts) := by
  cases texts <;> simp [textsField, optionalField]

theorem field?_of_optional {f : α → Json} {o : Option α}
    (h : fs.filter (fun g => g.1.text == name) = optionalField name f o) :
    field? fs name = .ok (o.map f) := by
  rw [field?, h]
  cases o <;> rfl

theorem field?_of_field {v : Json} (h : fs.filter (fun g => g.1.text == name) = field name v) :
    field? fs name = .ok (some v) := Json.field?_eq_some.2 ⟨_, h⟩

end Report

open Report

structure Diagnostic.Fields (d : Diagnostic) (fs : Midend.Fields) : Prop where
  code : field? fs "code" = .ok (d.code.map .str)
  category : field? fs "category" = .ok (d.category?.map fun c => .str c.text)
  message : field? fs "message" = .ok (some (.str d.message))
  location : field? fs "location" = .ok (d.primarySpan?.map Span.encode)
  labels : field? fs "labels" = .ok (some (Json.ofList labelJson d.labels))
  notes : field? fs "notes" =
    .ok ((if d.notes = [] then none else some d.notes).map (Json.ofList .str))
  help : field? fs "help" = .ok (d.help.map .str)

theorem Report.diagnosticJson_fields (d : Diagnostic) :
    ∃ fs, diagnosticJson d = .obj fs ∧ d.Fields fs := by
  refine ⟨_, rfl, field?_of_optional ?_, field?_of_optional ?_, field?_of_field ?_,
    field?_of_optional ?_, field?_of_field ?_, field?_of_optional ?_,
    field?_of_optional ?_⟩ <;> simp

theorem elements_ofList {α : Type} {f : α → Json} {decode : Json → Decoded α}
    (h : ∀ a, decode (f a) = .ok a) (xs : List α) :
    elements (fun _ => decode) 1 (Json.ofList f xs) = .ok xs := by
  show (xs.map f).mapM decode = .ok xs
  exact Json.mapM_eq_ok.2 (List.forall₂_map_left_iff.2 (List.forall₂_same.2 fun a _ => h a))

theorem asUInt64_toNat (n : UInt64) : asUInt64 (.int n.toNat) = .ok n :=
  (Json.reads_uint64 0).complete (Nat.le_refl 0) rfl

theorem Label.ofReport_labelJson (l : Label) : Label.ofReport (labelJson l) = .ok l := by
  simp only [Label.ofReport, Json.bind_eq_ok]
  exact ⟨_, rfl, l.message, rfl, l.span.start, asUInt64_toNat _, l.span.stop, asUInt64_toNat _, rfl⟩

theorem Diagnostic.ofReport_diagnosticJson (d : Diagnostic) :
    Diagnostic.ofReport (diagnosticJson d) = .ok d := by
  obtain ⟨fs, hjson, h⟩ := diagnosticJson_fields d
  have htext {name : String} {o : Option String} (ho : field? fs name = .ok (o.map .str)) :
      Json.optional fs name asString = .ok o := by
    simp only [Json.optional, ho]
    cases o <;> rfl
  have hmessage : required fs "message" asString = .ok d.message := by
    simp only [required, h.message, asString]
  have hlabels : required fs "labels" (elements (fun _ => Label.ofReport) 1) = .ok d.labels := by
    simp only [required, h.labels]
    exact elements_ofList Label.ofReport_labelJson d.labels
  have hnotes : defaulted fs "notes" [] (elements (fun _ => asString) 1) = .ok d.notes := by
    simp only [defaulted, h.notes]
    by_cases hnil : d.notes = []
    · rw [if_pos hnil, hnil]
      rfl
    · rw [if_neg hnil]
      exact elements_ofList (f := .str) (fun _ => rfl) d.notes
  rw [hjson]
  simp only [Diagnostic.ofReport, Json.bind_eq_ok]
  exact ⟨fs, rfl, d.code, htext h.code, d.message, hmessage, d.labels, hlabels, d.notes, hnotes,
    d.help, htext h.help, rfl⟩

theorem Report.ofJson_json (r : Report) : ofJson r.json = .ok r := by
  simp only [ofJson, Json.bind_eq_ok]
  exact ⟨_, rfl, r.file, rfl, r.phase, rfl, r.diagnostics,
    elements_ofList Diagnostic.ofReport_diagnosticJson _, rfl⟩

theorem exact_ofList {α : Type} {f : α → Json} (h : ∀ a, (f a).Exact) (xs : List α) :
    (Json.ofList f xs).Exact :=
  .arr fun j hj => by
    obtain ⟨a, _, rfl⟩ := List.mem_map.mp hj
    exact h a

/-- Fields whose text tells all of them. -/
def ExactFields (fs : Fields) : Prop :=
  ∀ f ∈ fs, f.1.escaped = Json.isEscaped f.1.text ∧ f.2.Exact

namespace ExactFields

variable {fs gs : Fields} {name : String}

theorem obj (h : ExactFields fs) : (Json.obj fs).Exact :=
  .obj (fun f hf => (h f hf).1) fun f hf => (h f hf).2

theorem nil : ExactFields [] := fun _ h => nomatch h

theorem cons {v : Json} (hname : Json.isEscaped name = false) (hv : v.Exact)
    (hfs : ExactFields fs) : ExactFields ((⟨name, false⟩, v) :: fs) :=
  List.forall_mem_cons.mpr ⟨⟨hname.symm, hv⟩, hfs⟩

theorem append (hfs : ExactFields fs) (hgs : ExactFields gs) : ExactFields (fs ++ gs) :=
  fun f hf => (List.mem_append.mp hf).elim (hfs f) (hgs f)

theorem optional {α : Type} {f : α → Json} (hname : Json.isEscaped name = false)
    (hf : ∀ a, (f a).Exact) (o : Option α) : ExactFields (optionalField name f o) := by
  cases o with
  | none => exact .nil
  | some a => exact .cons hname (hf a) .nil

end ExactFields

open ExactFields in
theorem Span.encode_exact (s : Span) : s.encode.Exact :=
  (cons rfl (.int _) (cons rfl (.int _) nil)).obj

open ExactFields in
theorem labelJson_exact (l : Label) : (labelJson l).Exact :=
  (cons rfl (.str _) (cons rfl (.int _) (cons rfl (.int _) nil))).obj

theorem diagnosticJson_exact (d : Diagnostic) : (diagnosticJson d).Exact := by
  refine ExactFields.obj ?_
  rw [textsField_eq]
  exact .append (.append (.append (.append (.append (.append (.optional rfl .str _)
    (.optional rfl (fun _ => .str _) _)) (.cons rfl (.str _) .nil))
      (.optional rfl Span.encode_exact _)) (.cons rfl (exact_ofList labelJson_exact _) .nil))
        (.optional rfl (exact_ofList .str) _)) (.optional rfl .str _)

theorem Report.json_exact (r : Report) : r.json.Exact :=
  ExactFields.obj (.cons rfl (.int _) (.cons rfl (.str _) (.cons rfl (.bool _) (.cons rfl (.str _)
    (.cons rfl (exact_ofList diagnosticJson_exact _) (.cons rfl (.int _) .nil))))))

theorem Report.parse?_text (r : Report) : Json.parse? r.text = some r.json :=
  r.json_exact.parse?_pretty

theorem Report.ofText_text (r : Report) : ofText r.text = .ok r := by
  simp only [ofText, parse?_text, ofJson_json]

theorem ErrorCode.ofText?_eq_some {text : String} {c : ErrorCode} :
    ErrorCode.ofText? text = some c ↔ text = c.text := by
  constructor
  · intro h
    have hfound := List.find?_some h
    exact (beq_iff_eq.mp hfound).symm
  · rintro rfl
    cases c <;> rfl

/-- What the fields of a diagnostic say that is not in the diagnostic itself. -/
structure Diagnostic.Derived (d : Diagnostic) (fs : Midend.Fields) : Prop where
  /-- The category is there if the code is one of those that are registered, -/
  registered : ∀ c : ErrorCode, d.code = some c.text →
    field? fs "category" = .ok (some (.str c.category.text))
  /-- and not if it is another one, or none. -/
  unregistered : (∀ c : ErrorCode, d.code ≠ some c.text) → field? fs "category" = .ok none
  /-- The location is the range of the first label. -/
  located : ∀ l rest, d.labels = l :: rest →
    required fs "location" (Span.decode 1) = .ok l.span
  unlocated : d.labels = [] → field? fs "location" = .ok none
  /-- What is not there is left out. -/
  code : field? fs "code" = .ok none ↔ d.code = none
  notes : field? fs "notes" = .ok none ↔ d.notes = []
  help : field? fs "help" = .ok none ↔ d.help = none

theorem Diagnostic.Fields.derived {d : Diagnostic} {fs : Midend.Fields} (h : d.Fields fs) :
    d.Derived fs where
  registered c hc := by
    rw [h.category, category?, hc, Option.bind_some, ErrorCode.ofText?_eq_some.mpr rfl]
    rfl
  unregistered hnone := by
    have hcode : d.code.bind ErrorCode.ofText? = none := by
      refine Option.eq_none_iff_forall_ne_some.mpr fun c hc => ?_
      obtain ⟨text, htext, hfound⟩ := Option.bind_eq_some_iff.mp hc
      exact hnone c (htext.trans (congrArg some (ErrorCode.ofText?_eq_some.mp hfound)))
    rw [h.category, category?, hcode]
    rfl
  located l rest hlabels := by
    have hlocation := h.location
    rw [primarySpan?, hlabels] at hlocation
    simp only [required, hlocation]
    exact (Span.reads 1).complete (Nat.le_refl 1) l.span.shape_encode
  unlocated hlabels := by
    rw [h.location, primarySpan?, hlabels]
    rfl
  code := by simp [h.code]
  notes := by simp [h.notes]
  help := by simp [h.help]

/-- What the fields of a report say that is not in the report itself. -/
structure Report.Derived (r : Report) (fs : Midend.Fields) : Prop where
  version : required fs "version" asUInt32 = .ok 1
  success : required fs "success" asBool = .ok (decide (r.diagnostics = []))
  errorCount : field? fs "error_count" = .ok (some (.int r.diagnostics.length))
  /-- One object for each diagnostic, in order. -/
  diagnostics : ∃ js, field? fs "diagnostics" = .ok (some (.arr js)) ∧
    List.Forall₂ (fun d j => ∃ ds, j = .obj ds ∧ d.Derived ds) r.diagnostics js

/-- The text of a report is JSON from which the report can be read, and what it says beside the
report follows from it. -/
theorem Report.text_faithful (r : Report) : Report.ofText r.text = .ok r ∧
    ∃ fs, Json.parse? r.text = some (.obj fs) ∧ r.Derived fs := by
  refine ⟨r.ofText_text, _, r.parse?_text, rfl, ?_, rfl, _, rfl, ?_⟩
  · show Except.ok r.diagnostics.isEmpty = _
    cases r.diagnostics <;> rfl
  · refine List.forall₂_map_right_iff.mpr (List.forall₂_same.mpr fun d _ => ?_)
    obtain ⟨fs, hjson, hfields⟩ := diagnosticJson_fields d
    exact ⟨fs, hjson, hfields.derived⟩

end Midend
