import Mathlib.Logic.Function.Iterate
import ModText.Proofs.Output.Guard
import ModText.Proofs.Output.Repetition

/-!
# Dumping again

The output of a mod may lie inside the mod. Then whoever opens the mod again finds the output of the
last dump among its files, but all of that lies in the output folder, where no resource is taken
from: what is copied is the same as before. So is the code, which lies elsewhere, and with it all that
is generated. Hence a dump that follows a dump performs the same steps, and leaves what it finds.

What can keep it from that is the clearing. The path of the mod, or that of the code, may go down into
the output on its way, and then it leads nowhere after the first dump. A program that runs in the
output loses its folder, and with it the beginning of all relative paths. And a path of the output
that is shorter than the way through the mod may have put folders there that cannot be listed any
more. `Reopens` is what it takes, and no more than that is needed.
-/

namespace ModText

namespace ModFolder

/-- Opens a folder as a mod and dumps it. -/
def openAndDump (root : Path) (codeFile : String) (ignores : List String) (o : DumpOptions)
    (w : Workspace) : Workspace × Except Failure DumpSummary :=
  match openAt w root codeFile ignores with
  | .error f => (w, .error f)
  | .ok m => m.toMod.dump w o

/-- Whether a mod that was opened once can be opened again where it was, with an output to which the
same path leads. -/
structure Reopens (m : ModFolder) (o : DumpOptions) (w : Workspace) : Prop where
  there : (w.base m.root).removed = 0
  outputThere : (w.base (m.outputPath o)).removed = 0
  isFolder : w.isFolder m.root
  listable : unlistable? w m.root m.location = none
  code : (w.read? (m.root.join m.codeFile)).isSome

variable {m m' : ModFolder} {w w' : Workspace} {c out : Location} {o : DumpOptions} {root : Path}
  {codeFile : String} {ignores : List String}

/-! ## Opening again -/

/-- What two openings of the same mod have in common. The resources may be others. -/
structure Matches (m m' : ModFolder) : Prop where
  root : m'.root = m.root
  location : m'.location = m.location
  name : m'.name = m.name
  codeFile : m'.codeFile = m.codeFile

theorem Matches.outputPath (h : m.Matches m') (o : DumpOptions) :
    m'.outputPath o = m.outputPath o := by
  rw [ModFolder.outputPath, h.name, ← ModFolder.outputPath]

theorem Matches.read (h : m.Matches m') : m'.toMod.read = m.toMod.read := by
  funext file v
  simp only [toMod, readFile, h.root]

/-- A mod that can be opened again is the same as before, but for its resources. -/
theorem exists_openAt_again (hcwd : w.cwd.Of c) (hcwd' : w'.cwd.Of c)
    (hopen : openAt w root codeFile ignores = .ok m) (hthere : (w'.base m.root).removed = 0)
    (hfolder : w'.isFolder m.root) (hlistable : unlistable? w' m.root m.location = none) :
    ∃ m' patterns, openAt w' root codeFile ignores = .ok m' ∧ m.Matches m' ∧
      m.resources = ((w.tree.filesBelow m.location).map ("/".intercalate ·)).filter
        (isResource codeFile patterns) ∧
      m'.resources = ((w'.tree.filesBelow m.location).map ("/".intercalate ·)).filter
        (isResource codeFile patterns) := by
  obtain ⟨patterns, hpatterns, hopens⟩ := openAt_eq_ok_iff.1 hopen
  obtain rfl := hopens.root
  have hopens' : Opens w' m.root codeFile patterns
      { m with
        resources := ((w'.tree.filesBelow m.location).map ("/".intercalate ·)).filter
          (isResource codeFile patterns) } := {
    isFolder := hfolder
    canonical := Workspace.canonical?_again hcwd hcwd' hthere hfolder hopens.canonical
    named := hopens.named
    listable := hlistable
    root := rfl
    codeFile := hopens.codeFile
    resources := rfl }
  exact ⟨_, patterns, openAt_eq_ok_iff.2 ⟨patterns, hpatterns, hopens'⟩, ⟨rfl, rfl, rfl, rfl⟩,
    hopens.resources, rfl⟩

theorem matches_of_openAt (hcwd : w.cwd.Of c) (hcwd' : w'.cwd.Of c)
    (hopen : openAt w root codeFile ignores = .ok m)
    (hopen' : openAt w' root codeFile ignores = .ok m') : m.Matches m' := by
  obtain ⟨_, _, hopens⟩ := openAt_eq_ok_iff.1 hopen
  obtain ⟨_, _, hopens'⟩ := openAt_eq_ok_iff.1 hopen'
  obtain ⟨hthere, hlocation⟩ := Workspace.canonical?_eq_some hopens.canonical
  obtain ⟨hthere', hlocation'⟩ := Workspace.canonical?_eq_some hopens'.canonical
  have hsame : m'.location = m.location := by
    rw [hlocation, hlocation', Path.target, Path.target, ← Workspace.origin_eq hthere hcwd id,
      ← Workspace.origin_eq hthere' hcwd' id]
  have hnamed := hopens'.named
  rw [hsame, hopens.named] at hnamed
  exact ⟨hopens'.root.trans hopens.root.symm, hsame, (Except.ok.inj hnamed).symm,
    hopens'.codeFile.trans hopens.codeFile.symm⟩

/-- The resources of a mod that lie outside of a place. -/
def resourcesOutside (m : ModFolder) (out : Location) : List String :=
  m.resources.filter fun file => !out.isPrefixOf (m.location ++ (Path.mk file).steps)

theorem mem_resourcesOutside {file : String} : file ∈ m.resourcesOutside out ↔
    file ∈ m.resources ∧ ¬ out <+: m.location ++ (Path.mk file).steps := by
  rw [resourcesOutside, List.mem_filter, Bool.not_eq_true', ← Bool.not_eq_true,
    List.isPrefixOf_iff_prefix]

/-- Of the files that are kept, those that lie outside of a place are listed in the same way if they
are the same. -/
theorem filter_outside_eq {t t' : FileTree} {l : Location} (keep : String → Bool)
    (hfiles : ∀ names content, keep ("/".intercalate names) → ¬ out <+: l ++ names →
      (t'.node? (l ++ names) = some (.file content) ↔
        t.node? (l ++ names) = some (.file content))) :
    (((t'.filesBelow l).map ("/".intercalate ·)).filter keep).filter
        (fun file => !out.isPrefixOf (l ++ (Path.mk file).steps)) =
      (((t.filesBelow l).map ("/".intercalate ·)).filter keep).filter
        fun file => !out.isPrefixOf (l ++ (Path.mk file).steps) := by
  rw [List.filter_filter, List.filter_filter, List.filter_map, List.filter_map]
  congr 1
  apply FileTree.filter_filesBelow_eq
  intro names hkeep hnames content
  have hsteps : (Path.mk ("/".intercalate names)).steps = names := by
    by_cases hnil : names = []
    · rw [hnil]
      rfl
    · exact Path.steps_names hnil hnames
  simp only [Function.comp_apply, Bool.and_eq_true, Bool.not_eq_true', hsteps] at hkeep
  apply hfiles names content hkeep.2
  intro hin
  rw [List.isPrefixOf_iff_prefix.2 hin] at hkeep
  cases hkeep.1

end ModFolder

namespace Write

theorem performAll_congr {m m' : Mod} (hread : m'.read = m.read) (w : Workspace)
    (steps : List Write) : performAll m' w steps = performAll m w steps := by
  have hperform : ∀ (w : Workspace) (step : Write), step.perform m' w = step.perform m w := by
    intro w step
    cases step with
    | clear => rfl
    | create => rfl
    | save => rfl
    | copy => rw [perform, perform, hread]
  induction steps generalizing w with
  | nil => rfl
  | cons step rest ih =>
    rw [performAll, performAll, hperform]
    split
    · exact ih _
    · rfl

end Write

namespace Mod

theorem load_congr {m m' : Mod} {w w' : Workspace} {names : MarkerNames} (hname : m'.name = m.name)
    (hcode : m'.code w' = m.code w) : m'.load w' names = m.load w names := by
  rw [load, load, hcode, hname]

theorem properties_congr {m m' : Mod} {w w' : Workspace}
    (hbuild : m'.buildInfo w' = m.buildInfo w) : m'.properties w' = m.properties w := by
  rw [properties, properties, hbuild]

/-! ## Dumping again -/

variable {m : ModFolder} {w v w' : Workspace} {o : DumpOptions} {c out : Location} {root : Path}
  {codeFile : String} {ignores : List String}

namespace Prepared

/-- Two dumps that were prepared with the same contents tell the same, but for the number of
resources. -/
theorem summary_congr {m m' : Mod} {d : Prepared m w o} {d' : Prepared m' w' o}
    (hname : m'.name = m.name) (hmarked : d'.marked = d.marked) :
    d'.summary = { d.summary with resourcesCopied := d'.summary.resourcesCopied } := by
  simp only [summary, hname, hmarked]

/-- If they copy the same resources, they tell and do the same. -/
theorem summary_and_steps_congr {m m' : Mod} {d : Prepared m w o} {d' : Prepared m' w' o}
    (hname : m'.name = m.name) (hmarked : d'.marked = d.marked)
    (hproperties : d'.properties = d.properties)
    (hcopied : (if o.copyResources then d'.resources else []) =
      if o.copyResources then d.resources else []) :
    d'.summary = d.summary ∧ d'.steps = d.steps := by
  simp only [summary, steps, generated, copies, hname, hmarked, hproperties, hcopied, and_self]

variable {d : Prepared m.toMod w o}

theorem HasOutput.resources_eq (h : d.HasOutput c out) : d.resources = m.resourcesOutside out := by
  have houtside : m.toMod.resourcesOutside w (m.outputPath o) = .ok d.resources := d.outside
  rw [resourcesOutside, h.resolve] at houtside
  simp only [ModFolder.toMod] at houtside
  split at houtside
  · cases houtside
  · exact (Except.ok.inj houtside).symm

/-- If the output resolves to the same place and what is read from the mod is the same, then a dump
can be prepared again, with the resources that are there now. -/
theorem HasOutput.exists_prepared (h : d.HasOutput c out) {m' : ModFolder} (hmatches : m.Matches m')
    (hresolve : w'.resolve? (m.outputPath o) = some out)
    (hcode : w'.read? (m.root.join m.codeFile) = w.read? (m.root.join m.codeFile))
    (hbuild :
      w'.read? (m.root.join ModFolder.buildFile) = w.read? (m.root.join ModFolder.buildFile)) :
    ∃ d' : Prepared m'.toMod w' o, d'.resources = m'.resourcesOutside out ∧
      d'.marked = d.marked ∧ d'.properties = d.properties := by
  have houtside : m'.toMod.resourcesOutside w' (m'.outputPath o) = .ok (m'.resourcesOutside out) := by
    have hbefore : m.toMod.resourcesOutside w (m.outputPath o) = .ok d.resources := d.outside
    rw [resourcesOutside, h.resolve] at hbefore
    rw [resourcesOutside, hmatches.outputPath, hresolve]
    simp only [ModFolder.toMod, ModFolder.resourcesOutside, hmatches.location] at hbefore ⊢
    split at hbefore
    · cases hbefore
    · rename_i hover
      rw [if_neg hover]
  have hload : m'.toMod.load w' o.markers = .ok d.marked := by
    rw [← d.load]
    apply load_congr hmatches.name
    simp only [ModFolder.toMod, ModFolder.readFile, hmatches.root, hmatches.codeFile, hcode]
  have hparse : m'.toMod.properties w' = .ok d.properties := by
    rw [← d.parse]
    apply properties_congr
    simp only [ModFolder.toMod, hmatches.root, hbuild]
  exact ⟨⟨_, _, _, houtside, hload, hparse⟩, rfl, rfl, rfl⟩

/-- If besides no resource outside of the output is new or missing, then a dump does the same steps
and tells the same. -/
theorem HasOutput.dump_eq (h : d.HasOutput c out) {m' : ModFolder} (hmatches : m.Matches m')
    (hresolve : w'.resolve? (m.outputPath o) = some out)
    (hfiles : m'.resourcesOutside out = m.resourcesOutside out)
    (hcode : w'.read? (m.root.join m.codeFile) = w.read? (m.root.join m.codeFile))
    (hbuild : w'.read? (m.root.join ModFolder.buildFile) = w.read? (m.root.join ModFolder.buildFile))
    (hdry : o.dryRun = false)
    (hperform : Write.performAll m.toMod w' (.clear (m.outputPath o) :: d.steps) = (w', none)) :
    m'.toMod.dump w' o = (w', .ok d.summary) := by
  obtain ⟨d', hresources, hmarked, hproperties⟩ := h.exists_prepared hmatches hresolve hcode hbuild
  have hsame : d'.resources = d.resources := by rw [hresources, hfiles, h.resources_eq]
  obtain ⟨hsummary, hsteps⟩ :=
    summary_and_steps_congr hmatches.name hmarked hproperties (by rw [hsame])
  have hperform' :
      Write.performAll m'.toMod w' (.clear (m'.outputPath o) :: d'.steps) = (w', none) := by
    rw [Write.performAll_congr hmatches.read, hsteps, hmatches.outputPath, hperform]
  rw [← hsummary]
  exact dump_of_performAll d'.plan_eq hdry hperform'

/-- The code is the same if it can be read, because it does not lie in the output. -/
theorem HasOutput.read?_code (h : d.HasOutput c out) (hspares : Spares w c out w')
    (hcode : ¬ out <+: (m.root.join m.codeFile).target c)
    (hsome : (w'.read? (m.root.join m.codeFile)).isSome) :
    w'.read? (m.root.join m.codeFile) = w.read? (m.root.join m.codeFile) := by
  obtain ⟨payload, hpayload⟩ := exists_code_of_load d.load
  have hread := ModFolder.readFile_eq_ok hpayload
  rcases hspares.read?_cases h.cwd (fun hin => absurd hin hcode) hread with hsame | hnone
  · rw [hsame, hread]
  · rw [hnone] at hsome
    cases hsome

/-! ### What is needed -/

variable {v : Workspace} {root : Path} {codeFile : String} {ignores : List String}

/-- A mod that can be opened again is dumped again with the same result. -/
theorem HasOutput.openAndDump_eq (h : d.HasOutput c out) (hflat : d.IsFlat) (hground : w.IsGrounded)
    (hopen : ModFolder.openAt w root codeFile ignores = .ok m)
    (hcode : ¬ out <+: (m.root.join m.codeFile).target c) (hdry : o.dryRun = false)
    (hclear : Write.clearFolder w (m.outputPath o) = (v, none))
    (hrest : Write.performAll m.toMod v d.steps = (w', none)) (hreopens : m.Reopens o w') :
    ModFolder.openAndDump root codeFile ignores o w' = (w', .ok d.summary) := by
  have hleaves := h.leaves hflat hground hclear hrest
  have hspares := h.spares_of_clear hflat hground hclear hrest
  obtain ⟨_, _, hopens⟩ := ModFolder.openAt_eq_ok_iff.1 hopen
  obtain ⟨m', patterns, hopen', hmatches, hfiles, hfiles'⟩ :=
    ModFolder.exists_openAt_again h.cwd hleaves.cwd hopen hreopens.there hreopens.isFolder
      hreopens.listable
  have hresolve : w'.resolve? (m.outputPath o) = some out :=
    Workspace.resolve?_again hground h.cwd hleaves.cwd hleaves.isGrounded hreopens.outputThere
      hleaves.entered h.resolve
  rw [ModFolder.openAndDump, hopen']
  apply h.dump_eq hmatches hresolve
  · rw [ModFolder.resourcesOutside, ModFolder.resourcesOutside, hmatches.location, hfiles, hfiles']
    apply ModFolder.filter_outside_eq
    intro names content _ hout
    exact hleaves.file_iff fun hin => absurd hin hout
  · exact h.read?_code hspares hcode hreopens.code
  · exact h.read?_build hspares (hopens.root ▸ hopens.isFolder) hreopens.there hreopens.isFolder
  · exact hdry
  · exact h.performAll_again hflat hground hclear hrest hreopens.outputThere

end Prepared

theorem reopens_of_openAndDump (hcwd : w.cwd.Of c) (hcwd' : w'.cwd.Of c) (hground' : w'.IsGrounded)
    {root : Path} {codeFile : String} {ignores : List String}
    (hopen : ModFolder.openAt w root codeFile ignores = .ok m) {x : Workspace} {s : DumpSummary}
    (hagain : ModFolder.openAndDump root codeFile ignores o w' = (x, .ok s)) : m.Reopens o w' := by
  rw [ModFolder.openAndDump] at hagain
  split at hagain
  · cases hagain
  rename_i m' hopen'
  have hmatches := ModFolder.matches_of_openAt hcwd hcwd' hopen hopen'
  obtain ⟨_, _, hopens'⟩ := ModFolder.openAt_eq_ok_iff.1 hopen'
  obtain ⟨d', _⟩ := exists_summary_eq_of_dump hagain
  obtain ⟨_, _, h'⟩ := d'.exists_hasOutput hground' (ModFolder.isOpened_of_openAt hopen')
  obtain ⟨_, hpayload⟩ := exists_code_of_load d'.load
  have hread := ModFolder.readFile_eq_ok hpayload
  have hthere := h'.opened.there
  have houtput := h'.resolves.there
  have hfolder := hopens'.isFolder
  have hlistable := hopens'.listable
  rw [← hopens'.root] at hfolder hlistable
  rw [hmatches.root] at hthere hfolder hlistable hread
  rw [hmatches.outputPath] at houtput
  rw [hmatches.location] at hlistable
  rw [hmatches.codeFile] at hread
  exact ⟨hthere, houtput, hfolder, hlistable, by rw [hread]; rfl⟩

namespace Prepared

variable {d : Prepared m.toMod w o} {v : Workspace} {root : Path} {codeFile : String}
  {ignores : List String}

/-- A mod can be opened again if neither its path nor that of its code goes down into the output, the
program does not run there, and what is there now can be listed. -/
theorem HasOutput.reopens (h : d.HasOutput c out) (hflat : d.IsFlat) (hground : w.IsGrounded)
    (hopen : ModFolder.openAt w root codeFile ignores = .ok m)
    (hclear : Write.clearFolder w (m.outputPath o) = (v, none))
    (hrest : Write.performAll m.toMod v d.steps = (w', none))
    (hways : ∀ p ∈ [m.root, m.root.join m.codeFile], ∀ l ∈ p.entered c, out <+: l → l = out)
    (hruns : out <+: w.cwd.place → m.root.isAbsolute ∧ (m.outputPath o).isAbsolute)
    (hlisted : m.location <+: out → ∀ names, names ≠ [] →
      w'.tree.node? (m.location ++ names) = some .folder →
        (ModFolder.pathBelow m.root names).isUsable) : m.Reopens o w' := by
  have hleaves := h.leaves hflat hground hclear hrest
  obtain ⟨_, _, hopens⟩ := ModFolder.openAt_eq_ok_iff.1 hopen
  have hroot := hopens.root
  have hspares := h.spares_of_clear hflat hground hclear hrest
  have hfound : ∀ {p : Path} {n : Node}, p ∈ [m.root, m.root.join m.codeFile] →
      (m.root.isAbsolute → p.isAbsolute) → w.node? p = some n → w'.node? p = some n := by
    intro p n hp habsolute
    apply hspares.node?_again hground h.cwd (Workspace.removed_base habsolute h.opened.there)
      fun hin => habsolute (hruns hin).1
    exact fun l hl hin n hnode => hleaves.kept (hways p hp l hl) hnode
  obtain ⟨payload, hpayload⟩ := exists_code_of_load d.load
  have hcode : w'.read? (m.root.join m.codeFile) = some payload := by
    rw [Workspace.read?_eq_some_iff]
    apply hfound (by simp) fun habsolute => Path.isAbsolute_join_of_isAbsolute habsolute _
    exact Workspace.read?_eq_some_iff.1 (ModFolder.readFile_eq_ok hpayload)
  refine ⟨by rw [hspares.base fun hin => (hruns hin).1, h.opened.there],
    by rw [hspares.base fun hin => (hruns hin).2, h.resolves.there], ?_, ?_, by rw [hcode]; rfl⟩
  · rw [Workspace.isFolder_iff]
    exact hfound (by simp) id (Workspace.isFolder_iff.1 (hroot ▸ hopens.isFolder))
  · rw [ModFolder.unlistable?_eq_none_iff]
    intro names hne hfolder
    by_cases habove : m.location <+: out
    · exact hlisted habove names hne hfolder
    · -- nothing has changed below the mod, so the folder was listed before
      have hold := ModFolder.unlistable?_eq_none_iff.1 hopens.listable names hne
      rw [← hroot] at hold
      apply hold
      refine Decidable.byContradiction fun hchanged => ?_
      rcases hleaves.confined _ (fun hsame => hchanged (hsame ▸ hfolder)) with hin | ⟨hin, _⟩
      · rcases List.prefix_or_prefix_of_prefix hin (List.prefix_append m.location names) with
          hover | hunder
        · exact h.not_over hover
        · exact habove hunder
      · exact habove ((List.prefix_append _ _).trans hin)

end Prepared

/-- What leaves everything as it is does so again and again. -/
theorem repeats_of_eq {again : Workspace → Workspace × Except Failure DumpSummary}
    {r : Except Failure DumpSummary} (h : again w = (w, r)) (n : ℕ) :
    again ((fun x => (again x).1)^[n] w) = (w, r) := by
  have hfixed : (fun x => (again x).1)^[n] w = w := Function.iterate_fixed (congrArg Prod.fst h) n
  rw [hfixed, h]

/-- **A dump can be repeated.** If no extracted record has a slash in its namespace and the code does
not lie in the output, then a mod that was dumped can be opened and dumped again exactly if it
`Reopens`. Then every further dump tells what the first one told and leaves the disk as it is. This
holds if neither the path of the mod nor that of its code goes down into the output, the program does
not run in the output or needs no relative paths, and the folders of an output inside the mod have
paths that are short enough. -/
theorem openAndDump_repeats {root : Path} {codeFile : String} {ignores : List String}
    {marked : Module} {s : DumpSummary} (hground : w.IsGrounded)
    (hopen : ModFolder.openAt w root codeFile ignores = .ok m)
    (hload : m.toMod.load w o.markers = .ok marked)
    (hflat : ∀ c ∈ Category.select o.categories, ∀ r ∈ (extracted o marked).records c,
      '/' ∉ (namespaceOf r).toList)
    (hcode : ¬ (m.outputPath o).target w.cwd.place <+: (root.join codeFile).target w.cwd.place)
    (hdump : m.toMod.dump w o = (w', .ok s)) :
    let out := (m.outputPath o).target w.cwd.place
    let again := ModFolder.openAndDump root codeFile ignores o
    ((∃ x t, again w' = (x, .ok t)) ↔ m.Reopens o w') ∧
      (m.Reopens o w' → ∀ n, again ((fun x => (again x).1)^[n] w') = (w', .ok s)) ∧
      ((∀ p ∈ [root, root.join codeFile], ∀ l ∈ p.entered w.cwd.place, out <+: l → l = out) →
        (out <+: w.cwd.place → root.isAbsolute ∧ (m.outputPath o).isAbsolute) →
        (m.location <+: out → ∀ names, names ≠ [] →
          w'.tree.node? (m.location ++ names) = some .folder →
            (ModFolder.pathBelow root names).isUsable) →
        m.Reopens o w') := by
  intro out again
  have hfirst : again w = (w', .ok s) := by
    change ModFolder.openAndDump root codeFile ignores o w = _
    rw [ModFolder.openAndDump, hopen]
    exact hdump
  have hopened := ModFolder.isOpened_of_openAt hopen
  obtain ⟨_, _, hopens⟩ := ModFolder.openAt_eq_ok_iff.1 hopen
  obtain rfl := hopens.root
  obtain rfl := hopens.codeFile
  by_cases hdry : o.dryRun = true
  · -- a dry run has left everything as it was
    obtain rfl : w' = w := by
      rcases dump_cases hdump with ⟨rfl, _⟩ | ⟨hnot, _⟩
      · rfl
      · rw [hdry] at hnot
        cases hnot
    obtain ⟨c, hcwd, _⟩ := w'.cwd.exists_of
    have hreopens := reopens_of_openAndDump hcwd hcwd hground hopen hfirst
    exact ⟨iff_of_true ⟨_, _, hfirst⟩ hreopens, fun _ => repeats_of_eq hfirst,
      fun _ _ _ => hreopens⟩
  · have hreal : o.dryRun = false := Bool.eq_false_iff.2 hdry
    obtain ⟨d, c, place, v, h, hclear, hrest⟩ :=
      exists_hasOutput_of_dump hground hopened hreal hdump
    obtain rfl : place = out := h.resolves.target
    obtain rfl : d.marked = marked := Except.ok.inj (d.load.symm.trans hload)
    obtain rfl : s = d.summary := d.summary_eq_of_dump hdump
    have hleaves := h.leaves hflat hground hclear hrest
    -- the places where the program began and where it runs are the same for these paths
    have horigin : ∀ p ∈ [m.root, m.root.join m.codeFile], p.origin c = p.origin w.cwd.place := by
      have habsolute := fun h => Path.isAbsolute_join_of_isAbsolute (p := m.root) h m.codeFile
      have hjoin := Workspace.origin_eq hopened.there h.cwd habsolute
      simpa using ⟨Workspace.origin_eq hopened.there h.cwd id, hjoin⟩
    have hcode' : ¬ out <+: (m.root.join m.codeFile).target c := by
      rw [Path.target, horigin _ (by simp), ← Path.target]
      exact hcode
    have hforward : m.Reopens o w' → again w' = (w', .ok d.summary) := fun hreopens =>
      h.openAndDump_eq hflat hground hopen hcode' hreal hclear hrest hreopens
    refine ⟨⟨?_, fun hreopens => ⟨_, _, hforward hreopens⟩⟩,
      fun hreopens => repeats_of_eq (hforward hreopens), fun hways hruns hlisted => ?_⟩
    · rintro ⟨x, t, hagain⟩
      exact reopens_of_openAndDump h.cwd hleaves.cwd hleaves.isGrounded hopen hagain
    · apply h.reopens hflat hground hopen hclear hrest _ hruns hlisted
      intro p hp l hl
      rw [Path.entered, horigin p hp, ← Path.entered] at hl
      exact hways p hp l hl

/-- An output inside the mod. -/
def nestedOptions : DumpOptions where
  outputRoot := ⟨"in/Mod/loc"⟩
  categories := [.misc]

theorem openAndDump_repeats_inside_mod :
    ∃ w' s, chattyMod.toMod.dump chattyWorkspace nestedOptions = (w', .ok s) ∧
      w'.tree.node? ["in", "Mod", "loc", "Mod", "art", "icon"] = some (.file "i".toUTF8) ∧
      s.resourcesCopied = 1 ∧
      ∀ n, ModFolder.openAndDump ⟨"in/Mod"⟩ "module.json" [] nestedOptions
        ((fun x => (ModFolder.openAndDump ⟨"in/Mod"⟩ "module.json" [] nestedOptions x).1)^[n] w') =
          (w', .ok s) := by
  have hopen : ModFolder.openAt chattyWorkspace ⟨"in/Mod"⟩ "module.json" [] = .ok chattyMod :=
    eq_ok_of_toOption (by decide +kernel)
  have hcode : chattyMod.toMod.code chattyWorkspace = .ok chattyCode :=
    eq_ok_of_toOption (by decide +kernel)
  have hload : chattyMod.toMod.load chattyWorkspace nestedOptions.markers =
      .ok (chattyModule.mark {}) := by
    rw [load, hcode]
    simp only [bind, Except.bind, ofPayload_chattyCode]
    rfl
  have hflat : ∀ c ∈ Category.select nestedOptions.categories,
      ∀ r ∈ (extracted nestedOptions (chattyModule.mark {})).records c,
        '/' ∉ (namespaceOf r).toList := by
    decide +kernel
  have hdone : let result := chattyMod.toMod.dump chattyWorkspace nestedOptions
      result.1.tree.node? ["in", "Mod", "loc", "Mod", "art", "icon"] = some (.file "i".toUTF8) ∧
        ModFolder.unlistable? result.1 ⟨"in/Mod"⟩ ["in", "Mod"] = none ∧
        result.2.toOption.map DumpSummary.resourcesCopied = some 1 := by
    decide +kernel
  generalize hdump : chattyMod.toMod.dump chattyWorkspace nestedOptions = result at hdone
  obtain ⟨w', r⟩ := result
  obtain ⟨hicon, hlistable, hcopied⟩ := hdone
  cases r with
  | error f => cases hcopied
  | ok s =>
    obtain ⟨_, hrepeat, hreopens⟩ :=
      openAndDump_repeats (by decide +kernel) hopen hload hflat (by decide +kernel) hdump
    refine ⟨w', s, rfl, hicon, Option.some.inj hcopied, hrepeat (hreopens ?_ ?_ ?_)⟩
    · decide +kernel
    · decide +kernel
    · exact fun _ => ModFolder.unlistable?_eq_none_iff.1 hlistable

/-- A mod whose path goes down into the output on its way. -/
def roundaboutMod : ModFolder :=
  ⟨⟨"out/Mod/x/../../../in/Mod"⟩, ["in", "Mod"], "Mod", "module.json", []⟩

def plainOptions : DumpOptions where
  outputRoot := ⟨"out"⟩
  categories := []

/-- The first dump removes the folder that the path of the mod goes through. -/
theorem openAndDump_fails_through_output :
    ∃ marked w' s, detourWorkspace.IsGrounded ∧
      ModFolder.openAt detourWorkspace roundaboutMod.root "module.json" [] = .ok roundaboutMod ∧
      roundaboutMod.toMod.load detourWorkspace plainOptions.markers = .ok marked ∧
      (∀ c ∈ Category.select plainOptions.categories,
        ∀ r ∈ (extracted plainOptions marked).records c, '/' ∉ (namespaceOf r).toList) ∧
      ¬ (roundaboutMod.outputPath plainOptions).target detourWorkspace.cwd.place <+:
        (roundaboutMod.root.join "module.json").target detourWorkspace.cwd.place ∧
      roundaboutMod.toMod.dump detourWorkspace plainOptions = (w', .ok s) ∧
      ModFolder.openAndDump roundaboutMod.root "module.json" [] plainOptions w' =
        (w', .error (.refusal (.modNotFound roundaboutMod.root))) := by
  have hdone : let result := roundaboutMod.toMod.dump detourWorkspace plainOptions
      result.2.toOption.isSome ∧ result.1.isFolder roundaboutMod.root = false := by
    decide +kernel
  generalize hdump : roundaboutMod.toMod.dump detourWorkspace plainOptions = result at hdone
  obtain ⟨w', r⟩ := result
  obtain ⟨hok, hgone⟩ := hdone
  obtain ⟨s, rfl⟩ := exists_eq_ok hok
  refine ⟨⟨[]⟩, w', s, by decide +kernel, eq_ok_of_toOption (by decide +kernel),
    eq_ok_of_toOption (by decide +kernel), by decide, by decide +kernel, rfl, ?_⟩
  rw [ModFolder.openAndDump, ModFolder.openAt, ModFolder.findFolder, if_neg (by rw [hgone]; decide)]
  rfl

end Mod

end ModText
