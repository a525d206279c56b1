import ModText.Proofs.Cli.Loading
import ModText.Proofs.Config.RoundTrip
import ModText.Proofs.Output.Beside

/-!
# A configuration that changes nothing

Where there is no configuration, the one that is created says what was taken for granted before. So
a dump that follows does what it would have done without it, but for the file itself: it lies in the
folder in which the program runs, and there it can be in the way. If that folder belongs to the mod,
the file is one of its resources like any other, unless a pattern describes it or it lies in the
output; and if the dump needs a folder of that name, it cannot have it any more.
-/

namespace ModText

variable {w b : Workspace} {here : Location}

/-! ## Creating the configuration -/

namespace Cli

/-- A configuration is created where there is none, and nothing else is changed. -/
theorem exists_createConfig (hthere : w.cwd.removed = 0) (hground : w.IsGrounded)
    (hnone : w.holds ⟨Config.fileName⟩ = false) :
    ∃ w', createConfig w = .ok w' ∧
      w.Beside w.cwd.place Config.fileName Config.defaultText.toUTF8 w' := by
  have hname : IsName Config.fileName := by decide
  have hcheck : Workspace.check ⟨Config.fileName⟩ = .ok () := by decide
  have hsegments : (Path.mk Config.fileName).segments = [Config.fileName] :=
    Path.segments_of_not_mem hname.2.2.2.1
  have hbase : w.base ⟨Config.fileName⟩ = w.cwd := if_neg (by decide)
  have hfree : w.tree.node? (w.cwd.place ++ [Config.fileName]) = none := by
    refine Option.eq_none_iff_forall_ne_some.2 fun n hn => ?_
    have hfollow : w.follow ⟨Config.fileName⟩ = .ok (w.cwd.child Config.fileName) := by
      rw [Workspace.follow, hcheck, hbase, hsegments]
      exact FileTree.walk_singleton hthere hground hname (by rw [hn]; rfl)
    rw [Workspace.holds, Workspace.node?, hfollow] at hnone
    simp [FileTree.nodeAt?_of_removed_eq_zero (p := w.cwd.child Config.fileName) rfl,
      Position.place_child, hn] at hnone
  have hsite : w.site ⟨Config.fileName⟩ = .ok (w.cwd.place, Config.fileName) := by
    have hback : (Path.mk Config.fileName).segments.reverse.dropWhile (· = "") =
        [Config.fileName] := by decide
    have hwalk : w.tree.walk (w.base ⟨Config.fileName⟩) [].reverse = .ok w.cwd :=
      hbase ▸ FileTree.walk_nil _ _
    rw [Workspace.site_of_walk hcheck hback hwalk hthere hground, if_neg (by decide),
      if_neg (by simp [hname])]
  obtain ⟨w', hput⟩ : ∃ w', w.put? w.cwd.place Config.fileName
      (.file Config.defaultText.toUTF8) = some w' := by
    rw [Workspace.put?, dif_pos ⟨hname, hground, by rw [hfree]; simp⟩]
    exact ⟨_, rfl⟩
  have hwrite : w.write? ⟨Config.fileName⟩ Config.defaultText.toUTF8 = some w' := by
    rw [Workspace.write?, hsite]
    exact hput
  obtain ⟨_, hcwd, hnode⟩ := Workspace.put?_eq_some hput
  refine ⟨w', by rw [createConfig, hnone, hwrite]; rfl, {
    cwd := Position.eq_ofPlace hthere
    cwd_eq := hcwd
    ground := hground
    free := hfree
    file := by rw [hnode, if_pos rfl]
    same := fun l hl => by rw [hnode, if_neg hl] }⟩

end Cli

/-! ## Finding it -/

namespace Config

/-- Where no configuration was found, the new one is found or still none. -/
theorem firstFile_beside (h : w.Beside here fileName defaultText.toUTF8 b) {folders : List Path}
    (hnone : firstFile w folders = none) :
    firstFile b folders = none ∨
      ∃ file, firstFile b folders = some file ∧ b.read? file = some defaultText.toUTF8 := by
  induction folders with
  | nil => exact Or.inl rfl
  | cons folder rest ih =>
    rw [firstFile] at hnone ⊢
    split at hnone
    · cases hnone
    rename_i hfile
    by_cases hfile' : b.holds (folder.join fileName)
    · obtain ⟨n, hn⟩ := Option.isSome_iff_exists.1 hfile'
      rcases h.node?_cases hn with hold | ⟨_, rfl⟩
      · exact absurd (by rw [Workspace.holds, hold]; rfl) hfile
      · rw [if_pos hfile']
        exact Or.inr ⟨_, rfl, Workspace.read?_eq_some_iff.2 hn⟩
    · rw [if_neg hfile']
      split at hnone
      · rename_i hmark
        obtain ⟨n, hn⟩ := Option.isSome_iff_exists.1 hmark
        rw [if_pos (by rw [Workspace.holds, h.node?_mono hn]; rfl)]
        exact Or.inl rfl
      · split
        · exact Or.inl rfl
        · exact ih hnone

/-- The new configuration is the one that was taken for granted before. -/
theorem loadHere_beside (h : w.Beside here fileName defaultText.toUTF8 b) {folder : Path}
    (hfolder : w.cwd? = some folder) (hnone : findFile w folder = none) :
    loadHere w = .ok {} ∧ loadHere b = .ok {} := by
  have hfolder' : b.cwd? = some folder := by rw [← hfolder, Workspace.cwd?, Workspace.cwd?, h.cwd_eq]
  rw [loadHere, loadHere, hfolder, hfolder']
  simp only [load, hnone, true_and]
  rcases firstFile_beside h hnone with hfound | ⟨file, hfound, hread⟩
  · rw [findFile, hfound]
  · rw [findFile, hfound]
    exact ofFile_of_defaultText hread

end Config

/-! ## Reports -/

namespace Cli

theorem unlines_append (l m : List String) : unlines (l ++ m) = unlines l ++ unlines m := by
  rw [unlines, List.map_append, String.join_append, unlines, unlines]

end Cli

namespace DumpSummary

/-- The same summary with another number of resources. -/
def withResources (s : DumpSummary) (n : ℕ) : DumpSummary :=
  { s with resourcesCopied := n }

theorem unlines_report (s : DumpSummary) (n : ℕ) (colored verbose : Bool) :
    Cli.unlines ((s.withResources n).report colored verbose) =
      Cli.unlines (s.heading colored :: s.categories.flatMap (·.report colored verbose)) ++
        (Cli.unlines (s.withResources n).resourceLines ++
          Cli.unlines (s.totalLine colored :: s.dryRunLines colored)) := by
  rw [← Cli.unlines_append, ← Cli.unlines_append, report, List.append_assoc, List.cons_append]
  rfl

theorem unlines_resourceLines (s : DumpSummary) {n : ℕ} (h : n ≠ 0) :
    Cli.unlines (s.withResources n).resourceLines = "  " ++ (toString n ++
      (" resource file(s) " ++ (if s.dryRun then "to copy" else "copied") ++ "\n")) := by
  have hn : (s.withResources n).resourcesCopied ≠ 0 := h
  rw [resourceLines, if_neg hn, Cli.unlines]
  change String.join [_] = _
  simp only [String.join_cons, String.join_nil, String.append_empty, String.append_assoc]
  rfl

/-- The number of resources can be told from the report. -/
theorem eq_of_report_eq {s : DumpSummary} {n k : ℕ} {colored verbose : Bool}
    (h : Cli.unlines ((s.withResources n).report colored verbose) =
      Cli.unlines ((s.withResources k).report colored verbose)) : n = k := by
  have hlines : Cli.unlines (s.withResources n).resourceLines =
      Cli.unlines (s.withResources k).resourceLines := by
    rw [unlines_report, unlines_report, String.append_right_inj, String.append_left_inj] at h
    exact h
  have hline : ∀ {n : ℕ}, n ≠ 0 → Cli.unlines (s.withResources n).resourceLines ≠
      Cli.unlines (s.withResources 0).resourceLines := by
    intro n hn hempty
    rw [unlines_resourceLines s hn] at hempty
    have hlength := congrArg String.length hempty
    rw [String.length_append] at hlength
    change 2 + _ = 0 at hlength
    omega
  by_cases hn : n = 0
  · by_cases hk : k = 0
    · rw [hn, hk]
    · exact absurd (hn ▸ hlines).symm (hline hk)
  · by_cases hk : k = 0
    · exact absurd (hk ▸ hlines) (hline hn)
    · rw [unlines_resourceLines s hn, unlines_resourceLines s hk, String.append_right_inj,
        String.append_left_inj] at hlines
      rw [Nat.toString_eq_ofList_toDigits, Nat.toString_eq_ofList_toDigits, String.ofList_inj]
        at hlines
      rw [← Nat.ofDigitChars_ten_toDigits (n := n), hlines, Nat.ofDigitChars_ten_toDigits]

end DumpSummary

/-! ## Dumping with the configuration and without -/

namespace Cli

namespace DumpArguments

variable {a : DumpArguments} {colored : Bool} {w' b' : Workspace} {s s' : DumpSummary} {c : Config}
  {m : ModFolder} {out : Location}

theorem run_of_dump (h : a.dump w = (w', .ok s)) :
    a.run colored w = (w', ⟨statusOf s, unlines (s.report colored a.verbose), ""⟩) := by
  rw [run, h]

theorem exists_dump_of_status (h : (a.run colored w).2.status ≠ .error) :
    ∃ w' s, a.dump w = (w', .ok s) := by
  cases hdump : a.dump w with
  | mk w' r =>
    cases r with
    | ok s => exact ⟨w', s, rfl⟩
    | error f =>
      rw [run, hdump] at h
      exact absurd rfl h

/-- What tells the same as a dump that was done is a dump that was done with the same report. -/
theorem exists_dump_of_run_eq (hdump : a.dump w = (w', .ok s))
    (hsame : (a.run colored b).2 = (a.run colored w).2) :
    ∃ b' s', a.dump b = (b', .ok s') ∧
      unlines (s'.report colored a.verbose) = unlines (s.report colored a.verbose) := by
  rw [run_of_dump hdump] at hsame
  obtain ⟨b', s', hdump'⟩ : ∃ b' s', a.dump b = (b', .ok s') := by
    have hstatus : statusOf s ≠ .error := by
      rw [statusOf]
      split <;> decide
    have hstatus' : (a.run colored b).2.status ≠ .error := hsame ▸ hstatus
    exact exists_dump_of_status hstatus'
  rw [run_of_dump hdump'] at hsame
  exact ⟨b', s', hdump', congrArg Shown.output hsame⟩

theorem dump_of_openAt (hconfig : Config.loadHere w = .ok c)
    (hopen : ModFolder.openAt w a.mod c.codeFile c.resourceIgnores = .ok m) :
    a.dump w = m.toMod.dump w (a.options c) := by
  rw [dump, prepare, hconfig]
  simp only [bind, Except.bind, hopen, pure, Except.pure]

/-- What a dump command does that is done without a configuration. -/
structure Plain (a : DumpArguments) (w : Workspace) (m : ModFolder) (out : Location)
    (s : DumpSummary) (w' : Workspace) : Prop where
  opened : ModFolder.openAt w a.mod ({} : Config).codeFile ({} : Config).resourceIgnores = .ok m
  resolve : w.resolve? (m.outputPath (a.options {})) = some out
  dump : m.toMod.dump w (a.options {}) = (w', .ok s)

theorem exists_plain (hground : w.IsGrounded) (hconfig : Config.loadHere w = .ok {})
    (hdump : a.dump w = (w', .ok s)) : ∃ m out, a.Plain w m out s w' := by
  rcases a.dump_cases w with ⟨f, herror, _⟩ | ⟨c, m, hloaded, hopen, hmod⟩
  · rw [herror] at hdump
    cases hdump
  · obtain rfl : c = {} := Except.ok.inj (hloaded.symm.trans hconfig)
    rw [hmod] at hdump
    obtain ⟨d, _⟩ := Mod.exists_summary_eq_of_dump hdump
    obtain ⟨_, out, hd⟩ := d.exists_hasOutput hground (ModFolder.isOpened_of_openAt hopen)
    exact ⟨m, out, hopen, hd.resolve, hdump⟩

/-- Whether the configuration in the folder in which the program runs is a resource that is copied
to an output at `out`. -/
def CopiesConfig (a : DumpArguments) (m : ModFolder) (here out : Location) : Prop :=
  a.noResources = false ∧ m.Adopts ({} : Config).resourceIgnores out (here ++ [Config.fileName])

/-- Whether a dump with an output at `out` that ends with `w'` has put a folder in the place of the
configuration. An output around the folder in which the program runs is cleared before, and the
configuration with it. -/
def CoversConfig (a : DumpArguments) (here out : Location) (w' : Workspace) : Prop :=
  a.dryRun = false ∧ ¬ out <+: here ∧ w'.tree.node? (here ++ [Config.fileName]) = some .folder

namespace Plain

theorem not_adopts (hnot : ¬ a.CopiesConfig m here out) (hcopy : (a.options {}).copyResources) :
    ¬ m.Adopts ({} : Config).resourceIgnores out (here ++ [Config.fileName]) := by
  intro hadopts
  exact hnot ⟨by simpa [options] using hcopy, hadopts⟩

variable (h : a.Plain w m out s w') (hconfig : Config.loadHere b = .ok {})
  (hbeside : w.Beside here Config.fileName Config.defaultText.toUTF8 b)

include h hconfig hbeside

theorem exists_openAt : ∃ m', ModFolder.openAt b a.mod ({} : Config).codeFile
      ({} : Config).resourceIgnores = .ok m' ∧ a.dump b = m'.toMod.dump b (a.options {}) := by
  obtain ⟨m', hopen', _⟩ := hbeside.exists_openAt h.opened
  exact ⟨m', hopen', dump_of_openAt hconfig hopen'⟩

/-- A configuration that is copied is counted among the resources. -/
theorem summary_of_copies (hcopies : a.CopiesConfig m here out) (hdump : a.dump b = (b', .ok s')) :
    s' = s.withResources (s.resourcesCopied + 1) := by
  obtain ⟨m', hopen', hmod⟩ := h.exists_openAt hconfig hbeside
  obtain ⟨d, rfl⟩ := Mod.exists_summary_eq_of_dump h.dump
  have hd := d.hasOutput_of_cwd hbeside.cwd hbeside.isGrounded
    (ModFolder.isOpened_of_openAt h.opened) h.resolve
  exact hbeside.summary_of_adopts (by decide) Config.isUsable_default.patterns h.opened hopen' hd
    (by simp [options, hcopies.1]) hcopies.2 (hmod.symm.trans hdump)

/-- Where the dump needs a folder in the place of the configuration, it fails. -/
theorem not_dump_of_covers (hnot : ¬ a.CopiesConfig m here out)
    (hcovers : a.CoversConfig here out w') : a.dump b ≠ (b', .ok s') := by
  obtain ⟨m', hopen', hmod⟩ := h.exists_openAt hconfig hbeside
  obtain ⟨hdry, hout, hfolder⟩ := hcovers
  rw [hmod]
  exact hbeside.not_dump_of_folder (by decide) Config.isUsable_default.patterns h.opened hopen' h.resolve
    h.dump (not_adopts hnot) hdry hout hfolder

/-- Otherwise it does the same as without the configuration. -/
theorem exists_dump (hnot : ¬ a.CopiesConfig m here out) (hfree : ¬ a.CoversConfig here out w') :
    ∃ b', a.dump b = (b', .ok s) ∧
      (∀ l, l ≠ here ++ [Config.fileName] → b'.tree.node? l = w'.tree.node? l) ∧
      (a.dryRun = false → ∀ l, out <+: l → b'.tree.node? l = w'.tree.node? l) := by
  obtain ⟨m', hopen', hmod⟩ := h.exists_openAt hconfig hbeside
  have hfree' : (a.options {}).dryRun = false → ¬ out <+: here →
      w'.tree.node? (here ++ [Config.fileName]) ≠ some .folder :=
    fun hdry hout hfolder => hfree ⟨hdry, hout, hfolder⟩
  obtain ⟨b', hdump, hb', hequal⟩ := hbeside.exists_dump (by decide) Config.isUsable_default.patterns
    h.opened hopen' h.resolve h.dump (not_adopts hnot) hfree'
  have hsame : ∀ l, l ≠ here ++ [Config.fileName] → b'.tree.node? l = w'.tree.node? l := by
    intro l hl
    rcases hb' with rfl | hb'
    · rfl
    · exact hb'.same l hl
  refine ⟨b', hmod.trans hdump, hsame, fun hdry l hl => ?_⟩
  by_cases hin : out <+: here
  · rw [hequal hdry hin]
  · apply hsame
    rintro rfl
    -- the output itself would be in the place of the configuration
    obtain ⟨_, _, hd, hclear, hrest⟩ := Mod.Prepared.exists_run hbeside.cwd hbeside.isGrounded
      (ModFolder.isOpened_of_openAt h.opened) h.resolve hdry h.dump
    have hfolder := hd.node?_out hclear hrest
    rw [(List.prefix_concat_iff.1 hl).resolve_right hin] at hfolder
    exact hfree' hdry hin hfolder

/-- The two dumps tell the same exactly if the configuration is not in the way. -/
theorem run_eq_iff (hdump : a.dump w = (w', .ok s)) :
    (a.run colored b).2 = (a.run colored w).2 ↔
      ¬ a.CopiesConfig m here out ∧ ¬ a.CoversConfig here out w' := by
  refine ⟨fun hsame => ?_, fun ⟨hcopies, hcovers⟩ => ?_⟩
  · obtain ⟨b', s', hdump', hreport⟩ := exists_dump_of_run_eq hdump hsame
    have hcopies : ¬ a.CopiesConfig m here out := by
      intro hcopies
      rw [h.summary_of_copies hconfig hbeside hcopies hdump'] at hreport
      have hcount : s.resourcesCopied + 1 = s.resourcesCopied :=
        DumpSummary.eq_of_report_eq hreport
      omega
    exact ⟨hcopies, fun hcovers => h.not_dump_of_covers hconfig hbeside hcopies hcovers hdump'⟩
  · obtain ⟨b', hdump', _⟩ := h.exists_dump hconfig hbeside hcopies hcovers
    rw [run_of_dump hdump, run_of_dump hdump']

end Plain

end DumpArguments

/-- **A new configuration changes nothing but itself.** Where there is none, creating it succeeds and
changes nothing else. A dump that would not have ended in an error then tells the same and ends with
the same status exactly if it does not copy the configuration as a resource of the mod and does not
need a folder in its place. Then it also leaves the same, but for the configuration, and the same
output. -/
theorem run_dump_after_init (a : DumpArguments) (colored : Bool) (w : Workspace)
    (hground : w.IsGrounded) (hnone : w.holds ⟨Config.fileName⟩ = false)
    (hunfound : ∀ folder, w.cwd? = some folder → Config.findFile w folder = none)
    (hdone : ((Command.dump a).run colored w).2.status ≠ .error) :
    let file := w.cwd.place ++ [Config.fileName]
    let init := Command.init.run colored w
    let alone := (Command.dump a).run colored w
    let after := (Command.dump a).run colored init.1
    (init.2.status = .success ∧ init.1.cwd = w.cwd ∧ ∀ l, init.1.tree.node? l =
      if l = file then some (.file Config.defaultText.toUTF8) else w.tree.node? l) ∧
    ∃ m out, ModFolder.openAt w a.mod ({} : Config).codeFile ({} : Config).resourceIgnores = .ok m ∧
      w.resolve? (m.outputPath (a.options {})) = some out ∧
      (after.2 = alone.2 ↔
        ¬ a.CopiesConfig m w.cwd.place out ∧ ¬ a.CoversConfig w.cwd.place out alone.1) ∧
      (after.2 = alone.2 →
        (∀ l, l ≠ file → after.1.tree.node? l = alone.1.tree.node? l) ∧
        (a.dryRun = false → ∀ l, out <+: l → after.1.tree.node? l = alone.1.tree.node? l)) := by
  intro file init alone after
  obtain ⟨w', s, hdump⟩ := DumpArguments.exists_dump_of_status hdone
  obtain ⟨folder, hthere, hfolder⟩ : ∃ folder, w.cwd.removed = 0 ∧ w.cwd? = some folder := by
    by_cases hthere : w.cwd.removed = 0
    · exact ⟨_, hthere, if_pos hthere⟩
    · have hcwd : w.cwd? = none := if_neg hthere
      have hunloadable := DumpArguments.dump_of_unloadable (a := a) (.cwdRemoved hcwd)
      obtain ⟨f, herror, _⟩ := hunloadable
      rw [hdump] at herror
      cases herror
  obtain ⟨b, hcreate, hbeside⟩ := exists_createConfig hthere hground hnone
  obtain ⟨hload, hload'⟩ := Config.loadHere_beside hbeside hfolder (hunfound folder hfolder)
  obtain ⟨m, out, hplain⟩ := DumpArguments.exists_plain hground hload hdump
  have hinit : init = (b, ⟨.success, unlines (initReport colored), ""⟩) := by
    change runInit colored w = _
    rw [runInit, hcreate]
  have halone : alone.1 = w' := by
    change (a.run colored w).1 = w'
    rw [DumpArguments.run_of_dump hdump]
  have hafter : after = a.run colored b :=
    congrArg (fun x : Workspace × Shown => a.run colored x.1) hinit
  have hiff : after.2 = alone.2 ↔
      ¬ a.CopiesConfig m w.cwd.place out ∧ ¬ a.CoversConfig w.cwd.place out w' :=
    hafter ▸ hplain.run_eq_iff hload' hbeside hdump
  refine ⟨⟨by rw [hinit], by rw [hinit]; exact hbeside.cwd_eq, fun l => ?_⟩, m, out, hplain.opened,
    hplain.resolve, halone.symm ▸ hiff, fun hsame => ?_⟩
  · rw [hinit]
    split
    · rename_i hl
      rw [hl, hbeside.file]
    · rename_i hl
      exact hbeside.same l hl
  · obtain ⟨hcopies, hcovers⟩ := hiff.1 hsame
    obtain ⟨b', hdump', hsame'⟩ := hplain.exists_dump hload' hbeside hcopies hcovers
    rw [hafter, DumpArguments.run_of_dump hdump', halone]
    exact hsame'

/-- A disk with a mod. The program runs in one of its folders. -/
def housedWorkspace (here : Location) : Workspace :=
  let w := ((⟨.empty, {}⟩ : Workspace).makeFolders ⟨"in/Mod"⟩).1
  ⟨((w.write? ⟨"in/Mod/module.json"⟩ "\x7b\x7d".toUTF8).getD w).tree, .ofPlace here⟩

/-- A dump of that mod from the folder beside it. -/
def housedArguments : DumpArguments where
  mod := ⟨"Mod"⟩

theorem run_dump_after_init_beside_mod :
    let w := housedWorkspace ["in"]
    w.IsGrounded ∧ w.holds ⟨Config.fileName⟩ = false ∧
      (∀ folder, w.cwd? = some folder → Config.findFile w folder = none) ∧
      ((Command.dump housedArguments).run false w).2.status ≠ .error ∧
      ((Command.dump housedArguments).run false (Command.init.run false w).1).2 =
        ((Command.dump housedArguments).run false w).2 ∧
      ∀ l, ["in", "dump", "Mod"] <+: l →
        ((Command.dump housedArguments).run false (Command.init.run false w).1).1.tree.node? l =
          ((Command.dump housedArguments).run false w).1.tree.node? l := by
  intro w
  have hground : w.IsGrounded := by decide +kernel
  have hnone : w.holds ⟨Config.fileName⟩ = false := by decide +kernel
  have hunfound : ∀ folder, w.cwd? = some folder → Config.findFile w folder = none := by
    intro folder hfolder
    obtain rfl := Option.some.inj hfolder
    decide +kernel
  have hrun : ((Command.dump housedArguments).run false w).2.status ≠ .error ∧
      ((Command.dump housedArguments).run false w).1.tree.node? ["in", Config.fileName] ≠
        some .folder := by
    decide +kernel
  have hopen : ModFolder.openAt w housedArguments.mod ({} : Config).codeFile
      ({} : Config).resourceIgnores = .ok ⟨⟨"Mod"⟩, ["in", "Mod"], "Mod", "module.json", []⟩ :=
    eq_ok_of_toOption (by decide +kernel)
  have hresolve : w.resolve? ⟨"./dump/Mod"⟩ = some ["in", "dump", "Mod"] := by decide +kernel
  obtain ⟨_, m, out, hopen', hresolve', hiff, hsame⟩ :=
    run_dump_after_init housedArguments false w hground hnone hunfound hrun.1
  obtain rfl := Except.ok.inj (hopen'.symm.trans hopen)
  obtain rfl : out = ["in", "dump", "Mod"] := Option.some.inj (hresolve'.symm.trans hresolve)
  have hcopies : ¬ housedArguments.CopiesConfig
      ⟨⟨"Mod"⟩, ["in", "Mod"], "Mod", "module.json", []⟩ ["in"] ["in", "dump", "Mod"] := by
    rintro ⟨_, _, names, hplace, _⟩
    exact absurd (List.cons.inj (List.cons.inj hplace).2).1 (by decide)
  have hequal := hiff.2 ⟨hcopies, fun hcovers => hrun.2 hcovers.2.2⟩
  exact ⟨hground, hnone, hunfound, hrun.1, hequal, (hsame hequal).2 rfl⟩

/-- A dump of the folder in which the program runs. -/
def innerArguments : DumpArguments where
  mod := ⟨"."⟩
  output := some ⟨"../out"⟩

/-- In the folder of a mod, the configuration becomes a resource of the mod. -/
theorem run_dump_after_init_inside_mod :
    let w := housedWorkspace ["in", "Mod"]
    w.IsGrounded ∧ w.holds ⟨Config.fileName⟩ = false ∧
      (∀ folder, w.cwd? = some folder → Config.findFile w folder = none) ∧
      ((Command.dump innerArguments).run false w).2.status ≠ .error ∧
      ((Command.dump innerArguments).run false (Command.init.run false w).1).2 ≠
        ((Command.dump innerArguments).run false w).2 ∧
      ((Command.dump innerArguments).run false w).1.tree.node?
        ["in", "out", "Mod", Config.fileName] = none ∧
      (((Command.dump innerArguments).run false (Command.init.run false w).1).1.tree.node?
        ["in", "out", "Mod", Config.fileName]).isSome := by
  intro w
  have hground : w.IsGrounded := by decide +kernel
  have hnone : w.holds ⟨Config.fileName⟩ = false := by decide +kernel
  have hunfound : ∀ folder, w.cwd? = some folder → Config.findFile w folder = none := by
    intro folder hfolder
    obtain rfl := Option.some.inj hfolder
    decide +kernel
  have halone : ((Command.dump innerArguments).run false w).2.status ≠ .error ∧
      ((Command.dump innerArguments).run false w).1.tree.node?
        ["in", "out", "Mod", Config.fileName] = none := by
    decide +kernel
  have hload : Config.loadHere (Command.init.run false w).1 = .ok {} := by
    obtain ⟨b, hcreate, hbeside⟩ := exists_createConfig rfl hground hnone
    have hinit : (Command.init.run false w).1 = b := by
      change (runInit false w).1 = b
      rw [runInit, hcreate]
    rw [hinit]
    exact (Config.loadHere_beside hbeside rfl (hunfound _ rfl)).2
  have hopen : ModFolder.openAt (Command.init.run false w).1 innerArguments.mod
      ({} : Config).codeFile ({} : Config).resourceIgnores =
        .ok ⟨⟨"."⟩, ["in", "Mod"], "Mod", "module.json", [Config.fileName]⟩ :=
    eq_ok_of_toOption (by decide +kernel)
  have hdump := DumpArguments.dump_of_openAt hload hopen
  have hdiffer : ((Command.dump innerArguments).run false (Command.init.run false w).1).2 ≠
      ((Command.dump innerArguments).run false w).2 := by
    rw [Command.run, DumpArguments.run, hdump]
    decide +kernel
  have hcopied : (((Command.dump innerArguments).run false (Command.init.run false w).1).1.tree.node?
      ["in", "out", "Mod", Config.fileName]).isSome := by
    rw [Command.run, DumpArguments.run, hdump]
    decide +kernel
  exact ⟨hground, hnone, hunfound, halone.1, hdiffer, halone.2, hcopied⟩

end Cli

end ModText
