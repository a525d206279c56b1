import ModText.Proofs.Cli.Loading
import ModText.Proofs.Extraction.Selection
import ModText.Proofs.Record.Groups

/-!
# What a dump tells

A dump that is done tells the same of its categories in three ways: in its summary, line by line in
its report, and with the status of the program. All of it can be told from the records that are
extracted. A category has an entry of its own, its lines are made of this entry, and the dump counts
as failed if the records of a selected category include one without a namespace. As no entry is
made of the records of another category, a category that fails changes nothing for the others.
-/

namespace ModText

/-! ## The entries -/

/-- The first record that has no namespace. -/
def nameless? (records : List Record) : Option Record :=
  records.find? (namespaceOf · = "")

theorem isSome_nameless? {records : List Record} :
    (nameless? records).isSome ↔ ∃ r ∈ records, namespaceOf r = "" := by
  rw [nameless?, List.find?_isSome]
  simp

namespace CategorySummary

/-- The entry of a category, told from its records. -/
def ofRecords (c : Category) (records : List Record) : CategorySummary where
  category := c
  records := records.length
  namespaces := if (nameless? records).isSome then [] else namespacesOf records
  missing := (nameless? records).map fun r => ⟨c, ownerOf r⟩

theorem isFailed_ofRecords (c : Category) (records : List Record) :
    (ofRecords c records).isFailed = (nameless? records).isSome := by
  rw [isFailed, ofRecords, Option.isSome_map]

end CategorySummary

namespace Extraction

theorem length_records (e : Extraction) (c : Category) : (e.records c).length = e.count c := by
  cases c <;> exact List.length_map _

theorem categoryOf_of_mem_records {e : Extraction} {c : Category} {r : Record}
    (h : r ∈ e.records c) : categoryOf r = c := by
  cases c <;> obtain ⟨s, _, rfl⟩ := List.mem_map.1 h <;> rfl

end Extraction

theorem CategorySummary.ofExtraction_eq (e : Extraction) (c : Category) :
    ofExtraction e c = ofRecords c (e.records c) := by
  rw [ofExtraction, Extraction.groups, ofRecords, Extraction.length_records]
  cases hfind : nameless? (e.records c) with
  | some r =>
    have hr : categoryOf r = c :=
      Extraction.categoryOf_of_mem_records (List.mem_of_find?_eq_some hfind)
    rw [groupByNamespace_of_find? hfind, hr]
    rfl
  | none =>
    have hgroups : groupByNamespace (e.records c) = .ok (groupsOf (e.records c)) := by
      rw [groupByNamespace_eq_ok]
      refine ⟨?_, rfl⟩
      intro r hr hempty
      have := List.find?_eq_none.1 hfind r hr
      simp [hempty] at this
    rw [hgroups]
    simp [groupsOf, Function.comp_def]

/-! ## The lines -/

namespace Cli

/-- A text in which a style begins again behind each end of a style. -/
def resumed (start : String) : List Char → String
  | '\x1b' :: '[' :: '0' :: 'm' :: rest => "\x1b[0m" ++ start ++ resumed start rest
  | c :: rest => String.singleton c ++ resumed start rest
  | [] => ""

/-- A part of a report, in the style with these numbers if the report is to be coloured: 1 is bold, 2 is
dimmed, 31 is red, 32 is green, 33 is yellow and 36 is cyan. -/
def shown (colored : Bool) (numbers text : String) : String :=
  if colored then
    let start := "\x1b[" ++ numbers ++ "m"
    start ++ resumed start text.toList ++ "\x1b[0m"
  else text

theorem toList_resumed (style : Style) (text : List Char) :
    (resumed ("\x1b[" ++ style.code ++ "m") text).toList = style.resume text := by
  induction text using Style.resume.induct with
  | case1 rest ih => simp [resumed, Style.resume, Style.stop, Style.start, ih]
  | case2 c rest hother ih => simp [resumed, Style.resume, ih]
  | case3 => simp [resumed, Style.resume]

theorem paint_eq_shown (colored : Bool) (style : Style) (text : String) :
    style.paint colored text = shown colored style.code text := by
  rw [Style.paint, shown]
  cases colored with
  | false => rfl
  | true =>
    apply String.toList_injective
    simp [toList_resumed, Style.start, Style.stop]

/-- The lines about a category, told from its records: that one has no namespace, or how many
there are and in how many files, and if asked for these files. -/
def categoryLines (colored verbose : Bool) (c : Category) (records : List Record) : List String :=
  match nameless? records with
  | some r =>
    ["  " ++ shown colored "31" "✘" ++ " " ++ c.folder ++ ": " ++ shown colored "1" (ownerOf r) ++
      " has no namespace"]
  | none =>
    ("  " ++ shown colored "32" "✓" ++ " " ++ c.folder ++ ": " ++ toString records.length ++
      " record(s) in " ++ toString (namespacesOf records).length ++ " file(s)") ::
    if verbose then
      (namespacesOf records).map fun n => "      " ++ shown colored "2" n ++ ".json"
    else []

theorem report_ofRecords (colored verbose : Bool) (c : Category) (records : List Record) :
    (CategorySummary.ofRecords c records).report colored verbose =
      categoryLines colored verbose c records := by
  rw [CategorySummary.report, CategorySummary.ofRecords, categoryLines]
  cases nameless? records <;> simp only [paint_eq_shown] <;> rfl

/-- The total, told from the records of the selected categories. -/
def total (colored : Bool) (selected : List Category) (found : Category → List Record) : String :=
  let failed := selected.filter fun c => (nameless? (found c)).isSome
  if failed = [] then
    let records := (selected.map fun c => (found c).length).sum
    shown colored "32" "✓" ++ " " ++ shown colored "32" (toString records ++ " record(s) extracted")
  else
    shown colored "31" "✘" ++ " " ++
      shown colored "31" (toString failed.length ++ " category(ies) failed")

/-- The lines of a report, told from the records of the selected categories. -/
def reportLines (colored verbose : Bool) (s : DumpSummary) (selected : List Category)
    (found : Category → List Record) : List String :=
  [(if s.dryRun then shown colored "1;33" "Would dump" else shown colored "1;32" "Dumped") ++ " " ++
    s.mod ++ " to " ++ s.output.text] ++
  (selected.flatMap fun c => categoryLines colored verbose c (found c)) ++
  (if s.resourcesCopied = 0 then []
    else ["  " ++ toString s.resourcesCopied ++ " resource file(s) " ++
      if s.dryRun then "to copy" else "copied"]) ++
  [total colored selected found] ++
  if s.dryRun then ["Run without " ++ shown colored "36" "--dry-run" ++ " to write files."] else []

end Cli

namespace DumpSummary

variable {s : DumpSummary} {selected : List Category} {found : Category → List Record}

theorem failedCount_eq
    (h : s.categories = selected.map fun c => CategorySummary.ofRecords c (found c)) :
    s.failedCount = (selected.filter fun c => (nameless? (found c)).isSome).length := by
  rw [failedCount, h, List.filter_map, List.length_map]
  simp only [Function.comp_def, CategorySummary.isFailed_ofRecords]

theorem recordCount_eq
    (h : s.categories = selected.map fun c => CategorySummary.ofRecords c (found c)) :
    s.recordCount = (selected.map fun c => (found c).length).sum := by
  rw [recordCount, h, List.foldl_map, List.sum_eq_foldl, List.foldl_map]
  rfl

theorem totalLine_eq (colored : Bool)
    (h : s.categories = selected.map fun c => CategorySummary.ofRecords c (found c)) :
    s.totalLine colored = Cli.total colored selected found := by
  rw [totalLine, failedCount_eq h, recordCount_eq h, Cli.total]
  simp only [List.length_eq_zero_iff, Cli.marked, Cli.paint_eq_shown]
  rfl

theorem report_eq (colored verbose : Bool)
    (h : s.categories = selected.map fun c => CategorySummary.ofRecords c (found c)) :
    s.report colored verbose = Cli.reportLines colored verbose s selected found := by
  have hlines : s.categories.flatMap (·.report colored verbose) =
      selected.flatMap fun c => Cli.categoryLines colored verbose c (found c) := by
    rw [h, List.flatMap_map]
    simp only [Cli.report_ofRecords]
  rw [report, heading, resourceLines, dryRunLines, totalLine_eq colored h, hlines, Cli.reportLines]
  simp only [Cli.paint_eq_shown, List.append_assoc, List.cons_append, List.nil_append]
  rfl

theorem statusOf_eq
    (h : s.categories = selected.map fun c => CategorySummary.ofRecords c (found c)) :
    (Cli.DumpArguments.statusOf s).code =
      if ∃ c ∈ selected, ∃ r ∈ found c, namespaceOf r = "" then 1 else 0 := by
  rw [Cli.DumpArguments.statusOf, failedCount_eq h]
  simp only [List.length_eq_zero_iff, List.filter_eq_nil_iff, isSome_nameless?]
  by_cases hfailed : ∃ c ∈ selected, ∃ r ∈ found c, namespaceOf r = ""
  · rw [if_pos hfailed, if_neg]
    · rfl
    · obtain ⟨c, hc, hr⟩ := hfailed
      intro hnone
      exact hnone c hc hr
  · rw [if_neg hfailed, if_pos]
    · rfl
    · intro c hc hr
      exact hfailed ⟨c, hc, hr⟩

end DumpSummary

/-! ## Commands -/

namespace Category

theorem mem_select {selection : List Category} {c : Category} :
    c ∈ select selection ↔ c ∈ selection := by
  rw [select, List.mem_filter, List.contains_iff_mem]
  constructor
  · exact fun h => h.2
  · intro h
    exact ⟨List.contains_iff_mem.1 (Module.contains_all c), h⟩

end Category

theorem Mod.extracted_eq (o : DumpOptions) (marked : Module) :
    extracted o marked = marked.extract o.categories :=
  marked.extract_eq_of_mem_iff fun _ => Category.mem_select

theorem Mod.categories_summary {m : Mod} {w : Workspace} {o : DumpOptions} (d : m.Prepared w o) :
    d.summary.categories = (Category.select o.categories).map fun c =>
      CategorySummary.ofRecords c ((d.marked.extract o.categories).records c) := by
  rw [Prepared.summary, extracted_eq]
  apply List.map_congr_left
  intro c _
  exact CategorySummary.ofExtraction_eq _ c

namespace Cli

/-- **Summary, report and status tell the same.** For a dump command that does not end as an error,
and the categories that the command line names, or else the configuration:

* the summary has an entry for each of them, in the fixed order of the categories, which can be told
  from the records that are extracted;
* the report has the lines of each of them in the same order, and the total of all, and each line ends
  with a line feed;
* the status is 1 if a record of one of them has no namespace, and otherwise 0. -/
theorem run_dump_tells (a : DumpArguments) (colored : Bool) (w : Workspace)
    (h : ((Command.dump a).run colored w).2.status ≠ .error) :
    ∃ config m marked s, Config.loadHere w = .ok config ∧
      ModFolder.openAt w a.mod config.codeFile config.resourceIgnores = .ok m ∧
      m.toMod.load w config.markers = .ok marked ∧ (a.dump w).2 = .ok s ∧
      let named := if a.categories = [] then config.categories else a.categories
      let selected := [.items, .npcs, .buffs, .misc, .tiles, .customs].filter (· ∈ named)
      let found := (marked.extract named).records
      s.mod = m.name ∧ s.dryRun = a.dryRun ∧
      s.categories = (selected.map fun c => .ofRecords c (found c)) ∧
      ((Command.dump a).run colored w).2.output =
        String.join ((reportLines colored a.verbose s selected found).map (· ++ "\n")) ∧
      ((Command.dump a).run colored w).2.status.code =
        if ∃ c ∈ selected, ∃ r ∈ found c, namespaceOf r = "" then 1 else 0 := by
  rw [Command.run, DumpArguments.run] at h ⊢
  rcases a.dump_cases w with ⟨f, hdump, _⟩ | ⟨config, m, hconfig, hopen, hdump⟩
  · rw [hdump] at h
    exact absurd rfl h
  cases hresult : m.toMod.dump w (a.options config) with
  | mk w' r =>
    rw [hdump, hresult] at h ⊢
    cases r with
    | error f => exact absurd rfl h
    | ok s =>
      obtain ⟨d, rfl⟩ := Mod.exists_summary_eq_of_dump hresult
      refine ⟨config, m, d.marked, d.summary, hconfig, hopen, d.load, rfl, ?_⟩
      intro named selected found
      have hnamed : (a.options config).categories = named := by
        simp only [DumpArguments.options, named, List.isEmpty_iff]
      have hselected : Category.select named = selected := by
        simp only [Category.select, Category.all, selected, List.contains_eq_mem]
      have hcategories := Mod.categories_summary d
      rw [hnamed, hselected] at hcategories
      refine ⟨rfl, rfl, hcategories, ?_, DumpSummary.statusOf_eq hcategories⟩
      rw [← DumpSummary.report_eq colored a.verbose hcategories]
      rfl

/-- A disk with a mod whose only text is sent by a type without a namespace. -/
def namelessWorkspace : Workspace :=
  let code := "[[[\"T\",\"\",[],[[\"M\",true,0,true,[0,[[\"ldstr\",\"x\"],[\"\"],[\"\"]," ++
    "[\"\"],[\"\"],[\"call\",[\"T\",\"NewText\"]]]]]]]]]"
  let w := ((⟨.empty, {}⟩ : Workspace).makeFolders ⟨"in/Mod"⟩).1
  (w.write? ⟨"in/Mod/module.json"⟩ code.toUTF8).getD w

theorem run_dump_tells_nameless :
    let a : DumpArguments := { mod := ⟨"in/Mod"⟩, categories := [.customs, .misc, .customs] }
    ((Command.dump a).run false namelessWorkspace).2.status ≠ .error ∧
      ((Command.dump a).run false namelessWorkspace).2.output =
        "Dumped Mod to ./dump/Mod\n" ++ "  ✘ Misc: T has no namespace\n" ++
        "  ✓ Customs: 0 record(s) in 0 file(s)\n" ++ "✘ 1 category(ies) failed\n" ∧
      ((Command.dump a).run false namelessWorkspace).2.status.code = 1 ∧
      ∃ s, (a.dump namelessWorkspace).2 = .ok s ∧
        s.categories.map (·.category) = [.misc, .customs] := by
  intro a
  have hdone : ((Command.dump a).run false namelessWorkspace).2.status ≠ .error ∧
      ((Command.dump a).run false namelessWorkspace).2.output =
        "Dumped Mod to ./dump/Mod\n" ++ "  ✘ Misc: T has no namespace\n" ++
        "  ✓ Customs: 0 record(s) in 0 file(s)\n" ++ "✘ 1 category(ies) failed\n" ∧
      ((Command.dump a).run false namelessWorkspace).2.status.code = 1 := by
    decide +kernel
  obtain ⟨hstatus, houtput, hcode⟩ := hdone
  obtain ⟨_, _, _, s, _, _, _, hdump, _, _, hcategories, _⟩ := run_dump_tells a false _ hstatus
  refine ⟨hstatus, houtput, hcode, s, hdump, ?_⟩
  rw [hcategories, List.map_map]
  rfl

end Cli

end ModText
