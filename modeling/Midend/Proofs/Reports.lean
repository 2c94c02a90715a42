import Mathlib.Algebra.Order.BigOperators.Group.List
import Mathlib.Algebra.Order.Ring.Nat
import Midend.Command.Folder
import Midend.Command.Run

/-!
# Midend.Proofs.Reports

The errors of a compilation, grouped into reports. The errors of all units are collected in one
list, each with the path of its unit, and a report takes from it those with its own path. So every
path that is given has its report, in order, and the reports are just the collected errors as long
as no path whose unit has errors is given twice (`Command.run_reports`). Each report on a path that
is given `n` times has the errors of its unit `n` times.
-/

namespace Midend

def Report.errorCount (r : Report) : Nat := r.diagnostics.length

theorem eq_ok_of_toOption {ε α : Type} {r : Except ε α} {a : α} (h : r.toOption = some a) :
    r = .ok a := by
  cases r with
  | ok _ => rw [Option.some.inj h]
  | error _ => cases h

theorem Report.json_errorCount (r : Report) : ∃ fields, r.json = .obj fields ∧
    fields.lookup ⟨"error_count", false⟩ = some (Json.ofNat r.errorCount) := ⟨_, rfl, rfl⟩

namespace Compilation

section

variable (config : Config) (read : String → Except ReadError String)

/-- The unit at the path can be read, and is lowered to a module. -/
def Succeeds (path : String) : Prop :=
  ∃ u m, load read path = .ok u ∧ (u.lower config).1 = .ok m

/-- The errors of the unit at the path. -/
def unitErrors (path : String) : List LowerError :=
  match load read path with
  | .ok u => (u.lower config).2
  | .error _ => []

/-- The errors of the units at the paths, each with its path. -/
def collected (paths : List String) : List UnitError :=
  paths.flatMap fun path => (unitErrors config read path).map (UnitError.mk path)

end

variable {config : Config} {read : String → Except ReadError String} {c : Compilation}

theorem succeeds_of_isSome {path : String} (h : ((load read path).toOption.bind fun u =>
    (u.lower config).1.toOption).isSome = true) : Succeeds config read path := by
  obtain ⟨m, hm⟩ := Option.isSome_iff_exists.mp h
  obtain ⟨u, hload, hlower⟩ := Option.bind_eq_some_iff.mp hm
  exact ⟨u, m, eq_ok_of_toOption hload, eq_ok_of_toOption hlower⟩

theorem add_eq {u : SourceUnit} {m : Ir.Module} (h : (u.lower config).1 = .ok m) (path : String) :
    c.add config path u =
      (none, ⟨c.modules ++ [m], c.errors ++ (u.lower config).2.map (UnitError.mk path)⟩) := by
  obtain ⟨r, errors, hlower⟩ : ∃ r errors, u.lower config = (r, errors) := ⟨_, _, rfl⟩
  rw [hlower] at h ⊢
  obtain rfl : r = .ok m := h
  simp only [add, hlower]

theorem addFiles_eq_ok {paths : List String} (h : ∀ path ∈ paths, Succeeds config read path)
    (c : Compilation) : ∃ c', c.addFiles config read paths = .ok c' ∧
      c'.errors = c.errors ++ collected config read paths := by
  induction paths generalizing c with
  | nil => exact ⟨c, rfl, by simp [collected]⟩
  | cons path rest ih =>
    obtain ⟨⟨u, m, hload, hlower⟩, hrest⟩ := List.forall_mem_cons.mp h
    obtain ⟨c', hadd, herrors⟩ :=
      ih hrest ⟨c.modules ++ [m], c.errors ++ (u.lower config).2.map (UnitError.mk path)⟩
    refine ⟨c', by rw [addFiles, hload]; simp only [add_eq hlower, hadd], ?_⟩
    have hown : unitErrors config read path = (u.lower config).2 := by rw [unitErrors, hload]
    have hall : collected config read (path :: rest) =
        (u.lower config).2.map (UnitError.mk path) ++ collected config read rest := by
      rw [← hown, collected, List.flatMap_cons, ← collected]
    rw [herrors, hall, List.append_assoc]

/-- Of the collected errors, those with a path: the errors of its unit, as often as it is given. -/
theorem filter_collected (paths : List String) (path : String) :
    ((collected config read paths).filter fun e => e.file == path).map UnitError.error =
      (List.replicate (paths.count path) (unitErrors config read path)).flatten := by
  induction paths with
  | nil => rfl
  | cons other rest ih =>
    rw [collected, List.flatMap_cons, List.filter_append, List.map_append, ← collected, ih,
      List.filter_map]
    by_cases hother : other = path
    · subst hother
      rw [List.count_cons_self, List.replicate_succ, List.flatten_cons,
        List.filter_eq_self.mpr (by simp), List.map_map]
      exact congrArg (· ++ _) (List.map_id _)
    · rw [List.count_cons_of_ne (Ne.symm (Ne.symm hother)),
        List.filter_eq_nil_iff.mpr (by simpa using fun _ _ => hother)]
      rfl

theorem report_eq {paths : List String} (h : c.errors = collected config read paths)
    (path : String) : c.report path = ⟨path, "lower",
      (List.replicate (paths.count path) (unitErrors config read path)).flatten.map
        LowerError.diagnostic⟩ := by
  rw [← filter_collected, ← h, List.map_map]
  rfl

theorem errorCount_report {paths : List String} (h : c.errors = collected config read paths)
    (path : String) : (c.report path).errorCount =
      paths.count path * (unitErrors config read path).length := by
  rw [report_eq h, Report.errorCount, List.length_map, List.length_flatten, List.map_replicate,
    List.sum_replicate_nat]

theorem length_collected (paths : List String) : (collected config read paths).length =
    (paths.map fun path => (unitErrors config read path).length).sum := by
  simp only [collected, List.length_flatMap, List.length_map]

/-- Sums whose parts are ordered are the same only if the parts are. -/
theorem sum_map_eq_iff {α : Type} {l : List α} {f g : α → Nat} (h : ∀ a ∈ l, g a ≤ f a) :
    (l.map f).sum = (l.map g).sum ↔ ∀ a ∈ l, f a = g a := by
  induction l with
  | nil => simp
  | cons a rest ih =>
    obtain ⟨ha, hrest⟩ := List.forall_mem_cons.mp h
    have hle : (rest.map g).sum ≤ (rest.map f).sum := List.sum_le_sum hrest
    rw [List.map_cons, List.map_cons, List.sum_cons, List.sum_cons, List.forall_mem_cons,
      ← ih hrest]
    omega

/-- A path that is given counts the errors of its unit at least once, and exactly once just if there
are none or it is given once. -/
theorem count_mul_length {paths : List String} {path : String} (hpath : path ∈ paths)
    (errors : List LowerError) : errors.length ≤ paths.count path * errors.length ∧
      (paths.count path * errors.length = errors.length ↔
        (errors ≠ [] → paths.count path = 1)) := by
  have hcount : 0 < paths.count path := List.count_pos_iff.mpr hpath
  refine ⟨Nat.le_mul_of_pos_left _ hcount, fun heq hne => ?_, fun hone => ?_⟩
  · have hpos : 0 < errors.length := List.length_pos_iff.mpr hne
    exact Nat.eq_of_mul_eq_mul_right hpos (heq.trans (Nat.one_mul _).symm)
  · rcases eq_or_ne errors [] with rfl | hne
    · rfl
    · rw [hone hne, Nat.one_mul]

/-- A report has the errors of its unit, as they are, just if there are none or the path is given
once. -/
theorem report_iff {paths : List String} {path : String} (hpath : path ∈ paths)
    (h : c.errors = collected config read paths) :
    (c.report path).diagnostics = (unitErrors config read path).map LowerError.diagnostic ↔
      (unitErrors config read path ≠ [] → paths.count path = 1) := by
  constructor
  · intro heq
    have hlength := errorCount_report h path
    rw [Report.errorCount, heq, List.length_map] at hlength
    exact (count_mul_length hpath _).2.mp hlength.symm
  · intro hone
    rw [report_eq h]
    rcases eq_or_ne (unitErrors config read path) [] with hnil | hne
    · simp [hnil]
    · simp [hone hne]

/-- The numbers of errors in the reports add up to the number of collected errors just if no path
whose unit has errors is given twice. -/
theorem sum_errorCount_eq_iff {paths : List String} (h : c.errors = collected config read paths) :
    (paths.map fun path => (c.report path).errorCount).sum = c.errors.length ↔
      ∀ path ∈ paths, unitErrors config read path ≠ [] → paths.count path = 1 := by
  rw [h, length_collected]
  simp only [errorCount_report h]
  rw [sum_map_eq_iff fun path hpath => (count_mul_length hpath _).1]
  exact forall₂_congr fun path hpath => (count_mul_length hpath _).2

end Compilation

/-! ## What is written -/

namespace Command

variable {color : Bool} {read : String → Except ReadError String} {args : List String} {o : Options}
  {c : Compilation}

theorem compileUnits_of_errors
    (hadd : Compilation.empty.addFiles ⟨o.wordBits, o.verify⟩ read o.units = .ok c)
    (hne : c.errors ≠ []) : ∃ summary, c.summary? = some summary ∧
      compileUnits color read o = ⟨1, "", errorsText color c o.units summary o.format⟩ := by
  obtain ⟨summary, hsummary⟩ : ∃ summary, c.summary? = some summary := by
    rw [Compilation.summary?]
    split
    · contradiction
    · exact ⟨_, rfl⟩
    · exact ⟨_, rfl⟩
  refine ⟨summary, hsummary, ?_⟩
  rw [compileUnits, hadd]
  simp only [hsummary]

theorem exists_summary (h : 1 < c.errors.length) : ∃ messages,
    c.summary? = some (toString c.errors.length ++ " errors during compilation:" ++ messages) := by
  rw [Compilation.summary?]
  split
  · rename_i hnil
    simp [hnil] at h
  · rename_i e hone
    simp [hone] at h
  · exact ⟨_, rfl⟩

theorem run_json (hargs : Options.ofArgs args = .ok o) (hexplain : o.explain = none)
    (hformat : o.format = .json)
    (hadd : Compilation.empty.addFiles ⟨o.wordBits, o.verify⟩ read o.units = .ok c)
    (hne : c.errors ≠ []) : run color read args = ⟨1, "", reportsText (o.units.map c.report)⟩ := by
  obtain ⟨summary, -, hwritten⟩ := @compileUnits_of_errors color read o c hadd hne
  rw [run, hargs]
  simp only [Options.run, hexplain, hwritten, hformat, errorsText]

/-- How the errors `c` of the units at the paths of `o` are written as reports. -/
structure Reported (color : Bool) (read : String → Except ReadError String) (args : List String)
    (o : Options) (c : Compilation) : Prop where
  /-- The errors of all units are collected, in order. -/
  collected : c.errors = Compilation.collected ⟨o.wordBits, o.verify⟩ read o.units
  /-- One report is written for each path, in order. -/
  written : run color read args = ⟨1, "", reportsText (o.units.map c.report)⟩
  /-- It has the errors of its unit as often as the path is given, -/
  repeated : ∀ path, c.report path = ⟨path, "lower", (List.replicate (o.units.count path)
    (Compilation.unitErrors ⟨o.wordBits, o.verify⟩ read path)).flatten.map LowerError.diagnostic⟩
  /-- which is once for each error just if the path is not given twice or there is no error. -/
  once : ∀ path ∈ o.units, ((c.report path).diagnostics =
      (Compilation.unitErrors ⟨o.wordBits, o.verify⟩ read path).map LowerError.diagnostic ↔
    (Compilation.unitErrors ⟨o.wordBits, o.verify⟩ read path ≠ [] → o.units.count path = 1))
  /-- The number of its errors is written with it, -/
  counted : ∀ path, ∃ fields, (c.report path).json = .obj fields ∧
    fields.lookup ⟨"error_count", false⟩ = some (Json.ofNat (c.report path).errorCount)
  /-- and these numbers add up to the number of errors just if no path with errors is given twice.
  -/
  total : (o.units.map fun path => (c.report path).errorCount).sum = c.errors.length ↔
    ∀ path ∈ o.units, Compilation.unitErrors ⟨o.wordBits, o.verify⟩ read path ≠ [] →
      o.units.count path = 1
  /-- The summary counts every error once. -/
  summary : 1 < c.errors.length → ∃ messages,
    compileUnits color read { o with format := .summary } =
      ⟨1, "", toString c.errors.length ++ " errors during compilation:" ++ messages ++ "\n"⟩

/-- If every unit is lowered and there are errors, they are written in one report for each path. -/
theorem run_reports (hargs : Options.ofArgs args = .ok o) (hexplain : o.explain = none)
    (hformat : o.format = .json)
    (hunits : ∀ path ∈ o.units, Compilation.Succeeds ⟨o.wordBits, o.verify⟩ read path)
    (herrors : ∃ path ∈ o.units, Compilation.unitErrors ⟨o.wordBits, o.verify⟩ read path ≠ []) :
    ∃ c, Compilation.empty.addFiles ⟨o.wordBits, o.verify⟩ read o.units = .ok c ∧
      Reported color read args o c := by
  obtain ⟨c, hadd, hc⟩ := Compilation.addFiles_eq_ok hunits .empty
  have hcollected : c.errors = Compilation.collected ⟨o.wordBits, o.verify⟩ read o.units := hc
  have hne : c.errors ≠ [] := by
    obtain ⟨path, hpath, hne⟩ := herrors
    rw [hcollected, Compilation.collected, Ne, List.flatMap_eq_nil_iff]
    exact fun hall => hne (List.map_eq_nil_iff.mp (hall path hpath))
  refine ⟨c, hadd, hcollected, run_json hargs hexplain hformat hadd hne,
    Compilation.report_eq hcollected,
    fun path hpath => Compilation.report_iff hpath hcollected,
    fun path => (c.report path).json_errorCount, Compilation.sum_errorCount_eq_iff hcollected,
    fun hmany => ?_⟩
  obtain ⟨messages, hmessages⟩ := exists_summary hmany
  obtain ⟨summary, hsummary, hwritten⟩ :=
    @compileUnits_of_errors color read { o with format := .summary } c hadd hne
  rw [hmessages] at hsummary
  cases hsummary
  exact ⟨messages, hwritten⟩

/-- A folder with two units: the one in `a.json` declares `A` as a type that is not declared, the
one in `b.json` declares nothing. -/
def twoUnits : Folder :=
  [("a.json", "\x7b\"name\":\"a\",\"decls\":[\x7b\"id\":1,\"span\":[0,8],\"kind\":\x7b\"Type\":" ++
      "\x7b\"name\":\"A\",\"ty\":\x7b\"kind\":\x7b\"Ident\":\"B\"\x7d," ++
      "\"span\":[7,8]\x7d\x7d\x7d\x7d]\x7d"),
    ("b.json", "\x7b\"name\":\"b\",\"decls\":[]\x7d")]

def undefinedB : UnitError := ⟨"a.json", .undefinedType "B" ⟨7, 8⟩⟩

theorem run_reports_twoUnits : ∃ c, Compilation.empty.addFiles ⟨64, true⟩ twoUnits.read
    ["a.json", "b.json"] = .ok c ∧ Reported false twoUnits.read
      ["--format", "json", "a.json", "b.json"]
      ⟨["a.json", "b.json"], 64, true, .ir, .json, none⟩ c := by
  have hargs : Options.ofArgs ["--format", "json", "a.json", "b.json"] =
      .ok ⟨["a.json", "b.json"], 64, true, .ir, .json, none⟩ := rfl
  have hunits : ∀ path ∈ ["a.json", "b.json"],
      Compilation.Succeeds ⟨64, true⟩ twoUnits.read path := by
    intro path hpath
    rcases List.mem_pair.mp hpath with rfl | rfl
    · exact Compilation.succeeds_of_isSome (by decide +kernel)
    · exact Compilation.succeeds_of_isSome (by decide +kernel)
  have herrors : ∃ path ∈ ["a.json", "b.json"],
      Compilation.unitErrors ⟨64, true⟩ twoUnits.read path ≠ [] :=
    ⟨"a.json", List.mem_cons_self, by decide +kernel⟩
  exact run_reports (o := ⟨["a.json", "b.json"], 64, true, .ir, .json, none⟩) hargs rfl rfl hunits
    herrors

/-- A path that is given twice: there are two errors, and each of the two reports has both. -/
theorem reports_repeat_errors : ∃ c, Compilation.empty.addFiles ⟨64, true⟩ twoUnits.read
      ["a.json", "a.json"] = .ok c ∧ c.errors = [undefinedB, undefinedB] ∧
    run false twoUnits.read ["--format", "json", "a.json", "a.json"] =
      ⟨1, "", reportsText [c.report "a.json", c.report "a.json"]⟩ ∧
    (c.report "a.json").diagnostics =
      [undefinedB.error.diagnostic, undefinedB.error.diagnostic] := by
  have hrun : ((Compilation.empty.addFiles ⟨64, true⟩ twoUnits.read
      ["a.json", "a.json"]).toOption.map Compilation.errors) = some [undefinedB, undefinedB] := by
    decide +kernel
  obtain ⟨c, hc, herrors⟩ := Option.map_eq_some_iff.mp hrun
  have hadd := eq_ok_of_toOption hc
  have hargs : Options.ofArgs ["--format", "json", "a.json", "a.json"] =
      .ok ⟨["a.json", "a.json"], 64, true, .ir, .json, none⟩ := rfl
  refine ⟨c, hadd, herrors, ?_, ?_⟩
  · exact run_json (o := ⟨["a.json", "a.json"], 64, true, .ir, .json, none⟩) hargs rfl rfl hadd
      (by simp [herrors])
  · rw [Compilation.report, herrors]
    rfl

end Command

end Midend
