import ModText.Proofs.Output.Plan

/-!
# Where a dump writes

The paths of the layout stay in the output folder, and so do those of the resources, because they
are put together from names. The file of a namespace is different: its path is put together from a
text that the mod chooses. A dump changes nothing outside of its output as long as these paths stay
in it, and a dump that gets to its end has written outside if one of them does not.

What counts is where a path leads and also what it goes down into on its way, since folders that are
missing there are created.
-/

namespace ModText

/-- All that is different is at a place or below it, or is a new folder above it. -/
def Workspace.ConfinedTo (out : Location) (w w' : Workspace) : Prop :=
  ∀ l, w'.tree.node? l ≠ w.tree.node? l →
    out <+: l ∨ l <+: out ∧ w.tree.node? l = none ∧ w'.tree.node? l = some .folder

/-- What was there stays, unless it lies in the place that changes. -/
theorem Workspace.ConfinedTo.kept {w w' : Workspace} {out l : Location}
    (h : w.ConfinedTo out w') {n : Node} (hl : ¬ out <+: l)
    (hn : w.tree.node? l = some n) : w'.tree.node? l = some n := by
  by_cases hsame : w'.tree.node? l = w.tree.node? l
  · rw [hsame, hn]
  · rcases h l hsame with hin | ⟨_, hnone, _⟩
    · exact absurd hin hl
    · rw [hn] at hnone
      cases hnone

/-- There is no other file than before, unless it lies in the place that changes. -/
theorem Workspace.ConfinedTo.file_iff {w w' : Workspace} {out l : Location}
    (h : w.ConfinedTo out w') (hl : ¬ out <+: l) {content : ByteArray} :
    w'.tree.node? l = some (.file content) ↔ w.tree.node? l = some (.file content) := by
  refine ⟨fun hfile => ?_, h.kept hl⟩
  by_cases hsame : w'.tree.node? l = w.tree.node? l
  · rw [← hsame, hfile]
  · rcases h l hsame with hin | ⟨_, _, hfolder⟩
    · exact absurd hin hl
    · rw [hfile] at hfolder
      cases hfolder

/-- The path leads to a place or below it, and the way there goes through nothing else that is
missing, except for what lies above that place. -/
structure Path.StaysIn (out : Location) (w : Workspace) (p : Path) : Prop where
  target : out <+: p.target w.cwd.place
  entered : ∀ l ∈ p.entered w.cwd.place,
    out <+: l ∨ l <+: out ∨ (w.tree.node? l).isSome

theorem Path.IsBelow.staysIn {p root : Path} {steps : List String} {w : Workspace} {out : Location}
    (h : p.IsBelow root steps) (hout : w.Resolves root out) : p.StaysIn out w := by
  refine ⟨?_, fun l hl => ?_⟩
  · rw [(h.2 _).1, ← hout.target]
    exact List.prefix_append _ _
  · rcases h.mem_entered.1 hl with hl | ⟨front, _, _, rfl⟩
    · exact Or.inr (hout.above_or_there l hl)
    · rw [← hout.target]
      exact Or.inl (List.prefix_append _ _)

namespace Write

/-- Steps whose paths stay in a place, after a change there, change nothing but what is there. -/
theorem confined_of_performAll {m : Mod} {w v w' : Workspace} {c out : Location}
    {steps : List Write} {f : Option Failure} (hcwd : v.cwd.Of c)
    (horigin : ∀ step ∈ steps, step.path.origin c = step.path.origin w.cwd.place)
    (hstays : ∀ step ∈ steps, step.path.StaysIn out w)
    (hadd : ∀ step ∈ steps, step.removes = false)
    (hbefore : ∀ l, ¬ out <+: l → v.tree.node? l = w.tree.node? l)
    (h : performAll m v steps = (w', f)) : w.ConfinedTo out w' := by
  have hgrows := performAll_adds hcwd hadd h
  intro l hchanged
  by_cases hin : out <+: l
  · exact Or.inl hin
  rw [← hbefore l hin] at hchanged ⊢
  rcases hgrows.node? l with hsame | ⟨⟨step, hstep, hl⟩, hfree, hnew⟩ | ⟨_, _, hleave, _⟩
  · exact absurd hsame hchanged
  · have hentered := mem_entered_path hl
    rw [Path.entered, horigin step hstep, ← Path.entered] at hentered
    rcases (hstays step hstep).entered l hentered with hl | hl | hsome
    · exact Or.inl hl
    · exact Or.inr ⟨hl, hfree, hnew⟩
    · rw [← hbefore l hin, hfree] at hsome
      cases hsome
  · obtain ⟨step, hstep, hwrites, _⟩ := hleave
    have htarget := (hstays step hstep).target
    rw [Path.target, ← horigin step hstep, ← Path.target, hwrites.target] at htarget
    exact Or.inl htarget

/-- If a file whose path does not stay in a place has been written by steps that all succeeded, then
something is created outside of the place or is a file there, as one of the steps left it. -/
theorem escapes_of_performAll {m : Mod} {w v w' : Workspace} {c out : Location}
    {steps : List Write} (hcwd : v.cwd.Of c)
    (hadd : ∀ step ∈ steps, step.removes = false)
    (h : performAll m v steps = (w', none)) {file : Path} {j : Json}
    (hstep : document file j ∈ steps) (horigin : file.origin c = file.origin w.cwd.place)
    (hescapes : ¬ file.StaysIn out w) :
    ∃ l, ¬ out <+: l ∧
      (¬ l <+: out ∧ w.tree.node? l = none ∧ (w'.tree.node? l).isSome ∨
        ∃ content, Leave m c (fun _ => True) steps l content ∧
          w'.tree.node? l = some (.file content)) := by
  obtain ⟨hfile, hfolder⟩ := performAll_nodes (I := fun _ => True) hcwd trivial hadd
    (fun _ _ _ _ _ => trivial) h hstep
  have htarget : file.target c = file.target w.cwd.place := by
    rw [Path.target, horigin, ← Path.target]
  have hentered : (document file j).entered c = file.entered w.cwd.place := by
    rw [document, entered, Path.entered, horigin, ← Path.entered]
  by_cases hin : out <+: file.target w.cwd.place
  · -- the file itself lies inside, so it is the way there that does not stay
    obtain ⟨l, hl, hout, habove, hfree⟩ : ∃ l ∈ file.entered w.cwd.place,
        ¬ out <+: l ∧ ¬ l <+: out ∧ w.tree.node? l = none := by
      refine Classical.byContradiction fun hnone => hescapes ⟨hin, fun l hl => ?_⟩
      by_cases hout : out <+: l
      · exact Or.inl hout
      by_cases habove : l <+: out
      · exact Or.inr (Or.inl habove)
      cases hnode : w.tree.node? l with
      | some n => exact Or.inr (Or.inr rfl)
      | none => exact absurd ⟨l, hl, hout, habove, hnode⟩ hnone
    refine ⟨l, hout, Or.inl ⟨habove, hfree, ?_⟩⟩
    by_cases hwrites : (document file j).WritesAt c l
    · obtain ⟨content, _, hnode⟩ := hfile l hwrites
      rw [hnode]
      rfl
    · rw [hfolder l (hentered ▸ hl) hwrites]
      rfl
  · refine ⟨_, hin, Or.inr ?_⟩
    exact hfile _ ⟨file, rfl, htarget⟩

end Write

namespace Mod

variable {w w' : Workspace} {o : DumpOptions} {m : ModFolder}

namespace Prepared

variable {d : Prepared m.toMod w o} {c out : Location}

/-- Everything but the files of the groups stays in the output folder. -/
theorem HasOutput.staysIn_or_group (h : d.HasOutput c out) {step : Write} (hstep : step ∈ d.steps) :
    step.path.StaysIn out w ∨ ∃ c g, m.toMod.WritesGroup w o c g ∧
      step = (Layout.ofMod o.outputRoot m.name).groupWrite c g := by
  have hstays : ∀ {p : Path} {steps : List String}, p.IsBelow (m.outputPath o) steps →
      p.StaysIn out w := fun hbelow => hbelow.staysIn h.resolves
  rcases d.mem_steps.1 hstep with hmem | hmem
  · rcases d.mem_generated.1 hmem with ⟨c, _, rfl⟩ | rfl | rfl | ⟨c, g, hg, rfl⟩
    · exact Or.inl (hstays (Layout.categoryFolder_isBelow _ c))
    · rw [Write.path_document]
      exact Or.inl (hstays (Layout.buildFile_isBelow _))
    · rw [Write.path_document]
      exact Or.inl (hstays (Layout.identityFile_isBelow _))
    · exact Or.inr ⟨c, g, hg, rfl⟩
  · obtain ⟨file, hfile, _, rfl⟩ := d.mem_copies.1 hmem
    obtain ⟨names, _, hne, hnames, rfl, _⟩ := h.opened.resources file ((h.resources file).1 hfile).1
    exact Or.inl (hstays (Layout.resourceFile_isBelow _ hne hnames))

/-- If the files of the groups stay in the output folder, then nothing outside of it changes, with
the first failure or without. -/
theorem HasOutput.confined (h : d.HasOutput c out)
    (hstays : ∀ k g, m.toMod.WritesGroup w o k g →
      ((Layout.ofMod o.outputRoot m.name).namespaceFile k g.namespaceName).StaysIn out w)
    {f : Option Failure}
    (hperform : Write.performAll m.toMod w (.clear (m.outputPath o) :: d.steps) = (w', f)) :
    w.ConfinedTo out w' := by
  obtain ⟨v, s, hclear, hrest⟩ := Write.performAll_cons hperform
  obtain ⟨hcwd, hframe, _⟩ := h.clear hclear
  rcases hrest with ⟨_, hrest⟩ | ⟨_, _, rfl⟩
  · refine Write.confined_of_performAll hcwd (fun step => h.origin) (fun step hstep => ?_)
      (fun step => d.removes_of_mem_steps) hframe hrest
    rcases h.staysIn_or_group hstep with hin | ⟨k, g, hg, rfl⟩
    · exact hin
    · rw [Layout.groupWrite, Write.path_document]
      exact hstays k g hg
  · exact fun l hchanged => Or.inl (Decidable.not_not.1 fun hl => hchanged (hframe l hl))

/-- If the file of a group does not stay in the output folder, then a dump without failure leaves
something outside of it. -/
theorem HasOutput.escapes (h : d.HasOutput c out) {k : Category} {g : Group Record}
    (hgroup : m.toMod.WritesGroup w o k g)
    (hescapes : ¬ ((Layout.ofMod o.outputRoot m.name).namespaceFile k g.namespaceName).StaysIn out w)
    (hperform : Write.performAll m.toMod w (.clear (m.outputPath o) :: d.steps) = (w', none)) :
    ∃ l, ¬ out <+: l ∧
      (¬ l <+: out ∧ w.tree.node? l = none ∧ (w'.tree.node? l).isSome ∨
        ∃ k g, m.toMod.WritesGroup w o k g ∧
          l = ((Layout.ofMod o.outputRoot m.name).namespaceFile k g.namespaceName).target w.cwd.place ∧
          w'.tree.node? l =
            some (.file ((Json.ofList Record.toJson g.records).toPretty ++ "\n").toUTF8)) := by
  obtain ⟨v, s, hclear, ⟨rfl, hrest⟩ | ⟨hsome, rfl, _⟩⟩ := Write.performAll_cons hperform
  · obtain ⟨hcwd, _, _⟩ := h.clear hclear
    have hstep : (Layout.ofMod o.outputRoot m.name).groupWrite k g ∈ d.steps :=
      d.mem_steps.2 (Or.inl (d.mem_generated.2 (Or.inr (Or.inr (Or.inr ⟨k, g, hgroup, rfl⟩)))))
    have hfile := h.origin hstep
    rw [Layout.groupWrite] at hstep hfile
    rw [Write.path_document] at hfile
    obtain ⟨l, hl, hnew | ⟨content, ⟨step, hmem, hwrites, _, _, hcontent⟩, hnode⟩⟩ :=
      Write.escapes_of_performAll hcwd (fun step => d.removes_of_mem_steps) hrest hstep hfile hescapes
    · exact ⟨l, hl, Or.inl hnew⟩
    · -- every file that is not the file of a group lies in the output folder
      refine ⟨l, hl, Or.inr ?_⟩
      have htarget := hwrites.target
      rw [Path.target, h.origin hmem, ← Path.target] at htarget
      rcases h.staysIn_or_group hmem with hin | ⟨k, g, hg, rfl⟩
      · exact absurd (htarget ▸ hin.target) hl
      · rw [Layout.groupWrite, Write.path_document] at htarget
        refine ⟨k, g, hg, htarget.symm, ?_⟩
        rw [Layout.groupWrite, Write.content?_document] at hcontent
        rw [hnode, ← Option.some.inj hcontent]
  · cases hsome

end Prepared

/-- **A dump writes outside of its output exactly by the namespaces of its records.** Whatever comes
of it, a dump changes nothing outside of its output folder if the file of every group stays there.
And if it succeeds although one of these files does not stay there, then something is created
outside, or has the content of such a file in the end. -/
theorem dump_confined_by_namespaces (hground : w.IsGrounded) {root : Path} {codeFile : String}
    {ignores : List String} (hopen : ModFolder.openAt w root codeFile ignores = .ok m)
    {r : Except Failure DumpSummary} (hdump : m.toMod.dump w o = (w', r)) :
    let layout := Layout.ofMod o.outputRoot m.name
    let out := layout.root.target w.cwd.place
    ((∀ c g, m.toMod.WritesGroup w o c g →
        (layout.namespaceFile c g.namespaceName).StaysIn out w) → w.ConfinedTo out w') ∧
      ((∃ s, r = .ok s) → o.dryRun = false →
        (∃ c g, m.toMod.WritesGroup w o c g ∧
          ¬ (layout.namespaceFile c g.namespaceName).StaysIn out w) →
        ∃ l, ¬ out <+: l ∧
          (¬ l <+: out ∧ w.tree.node? l = none ∧ (w'.tree.node? l).isSome ∨
            ∃ c g, m.toMod.WritesGroup w o c g ∧
              l = (layout.namespaceFile c g.namespaceName).target w.cwd.place ∧
              w'.tree.node? l =
                some (.file ((Json.ofList Record.toJson g.records).toPretty ++ "\n").toUTF8))) := by
  intro layout out
  rcases dump_cases hdump with ⟨rfl, hnot⟩ | ⟨_, d, f, hperform, hok⟩
  · refine ⟨fun _ l hchanged => absurd rfl hchanged, ?_⟩
    rintro ⟨s, rfl⟩ hdry
    rcases hnot with ⟨f, hf⟩ | hnot
    · cases hf
    · rw [hdry] at hnot
      cases hnot
  obtain ⟨c, place, h⟩ := d.exists_hasOutput hground (ModFolder.isOpened_of_openAt hopen)
  obtain rfl : place = out := h.resolves.target
  constructor
  · intro hstays
    exact h.confined hstays hperform
  · intro hs _ hescape
    obtain ⟨k, g, hgroup, hescapes⟩ := hescape
    obtain rfl := hok hs
    exact h.escapes hgroup hescapes hperform

/-! ### A mod that writes beside its output -/

/-- The code of a mod with one text, in a namespace that leads out of the output folder. It is written
without the names of the fields. -/
def strayCode : ByteArray :=
  ("[[[\"T\",\"../../s\",[],[[\"M\",true,0,true,[0,[[\"ldstr\",\"x\"],[\"\"],[\"\"],[\"\"],[\"\"]," ++
    "[\"call\",[\"T\",\"NewText\"]]]]]]]]]").toUTF8

/-- A disk on which that mod lies. -/
def strayWorkspace : Workspace :=
  let w := ((⟨.empty, {}⟩ : Workspace).makeFolders ⟨"in/Mod"⟩).1
  (w.write? ⟨"in/Mod/module.json"⟩ strayCode).getD w

/-- The mod as it is opened. -/
def strayMod : ModFolder :=
  ⟨⟨"in/Mod"⟩, ["in", "Mod"], "Mod", "module.json", []⟩

def strayOptions : DumpOptions where
  outputRoot := ⟨"out"⟩
  categories := [.misc]

/-- The module that this code encodes. -/
def strayModule : Module where
  types := [{
    name := "T"
    namespaceName := "../../s"
    methods := [{
      name := "M"
      body := some ⟨0, [.pushString "x", .other, .other, .other, .other, .call ⟨"T", "NewText", 0⟩]⟩ }] }]

def strayGroup : Group Record :=
  ⟨"../../s", [.chat ⟨"T", "../../s", "M", ["x"]⟩]⟩

theorem strayMod_writesGroup :
    strayMod.toMod.WritesGroup strayWorkspace strayOptions .misc strayGroup := by
  have hcode : strayMod.toMod.code strayWorkspace = .ok strayCode :=
    eq_ok_of_toOption (by decide +kernel)
  have hdecode : Module.ofPayload strayCode = .ok strayModule :=
    eq_ok_of_toOption (by decide +kernel)
  refine ⟨strayModule.mark {}, [strayGroup], ?_, by decide, ?_, List.mem_singleton_self _⟩
  · rw [load, hcode]
    simp only [bind, Except.bind, hdecode]
    rfl
  · exact eq_ok_of_toOption (by decide +kernel)

theorem dump_of_stray_namespace :
    ∃ w' s, strayMod.toMod.dump strayWorkspace strayOptions = (w', .ok s) ∧
      ∃ l, ¬ ["out", "Mod"] <+: l ∧
        (¬ l <+: ["out", "Mod"] ∧ strayWorkspace.tree.node? l = none ∧
            (w'.tree.node? l).isSome ∨
          ∃ c g, strayMod.toMod.WritesGroup strayWorkspace strayOptions c g ∧
            l = ((Layout.ofMod ⟨"out"⟩ "Mod").namespaceFile c g.namespaceName).target [] ∧
            w'.tree.node? l =
              some (.file ((Json.ofList Record.toJson g.records).toPretty ++ "\n").toUTF8)) := by
  have hdone : (strayMod.toMod.dump strayWorkspace strayOptions).2.toOption.isSome := by
    decide +kernel
  generalize hdump : strayMod.toMod.dump strayWorkspace strayOptions = result at hdone
  obtain ⟨w', r⟩ := result
  obtain ⟨s, rfl⟩ := exists_eq_ok hdone
  have hopen : ModFolder.openAt strayWorkspace ⟨"in/Mod"⟩ "module.json" [] = .ok strayMod :=
    eq_ok_of_toOption (by decide +kernel)
  refine ⟨w', s, rfl, ?_⟩
  refine (dump_confined_by_namespaces (by decide +kernel) hopen hdump).2 ⟨s, rfl⟩ rfl
    ⟨.misc, strayGroup, strayMod_writesGroup, fun hstays => ?_⟩
  exact absurd hstays.target (by decide +kernel)

end Mod

end ModText
