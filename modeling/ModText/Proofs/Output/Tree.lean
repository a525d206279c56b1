import ModText.Proofs.Output.Plan
import ModText.Proofs.Record.Groups

/-!
# What a dump leaves in its output folder

`Belongs` tells what has to be below the output folder of a mod after a dump: the folders of the
categories, the files that are generated, the resources, and the folders above these. If no namespace
holds a slash and the dump succeeds, then this is what is there, and besides only the folders that
the path of the output itself goes through: clearing removes them, and they are created again
because the path leads nowhere without them.

A place for which a file is generated and to which a resource is copied is `Disputed`: one of the two
is there, and it is left open which.
-/

namespace ModText

namespace ModFolder

/-- Whether a dump copies the resource of these names, which does not lie in the output folder. -/
def Copies (m : ModFolder) (o : DumpOptions) (out names : Location) : Prop :=
  o.copyResources = true ∧
    ∃ file ∈ m.resources, (Path.mk file).steps = names ∧ ¬ out <+: m.location ++ names

/-- Whether a dump generates a document for a place in its output folder: the build properties, the
identity of the mod, or the records of one namespace in a category whose records all have one. -/
inductive Generates (m : ModFolder) (o : DumpOptions) (marked : Module) (properties : Properties) :
    Location → Json → Prop where
  | build : Generates m o marked properties ["Info.json"] properties.toJson
  | identity :
    Generates m o marked properties ["Mod.json"] (ModIdentity.ofProperties m.name properties).toJson
  | records {c : Category} {r : Record} (hc : c ∈ Category.select o.categories)
    (hnamed : ∀ s ∈ (Mod.extracted o marked).records c, namespaceOf s ≠ "")
    (hr : r ∈ (Mod.extracted o marked).records c) :
    Generates m o marked properties [c.folder, namespaceOf r ++ ".json"]
      (.ofList Record.toJson
        (((Mod.extracted o marked).records c).filter (namespaceOf · = namespaceOf r)))

/-- What belongs below the output folder after a dump. -/
inductive Belongs (m : ModFolder) (w : Workspace) (o : DumpOptions) (out : Location)
    (marked : Module) (properties : Properties) : Location → Node → Prop where
  | category {c : Category} (hc : c ∈ Category.select o.categories) :
    Belongs m w o out marked properties [c.folder] .folder
  | generated {l : Location} {j : Json} (hl : m.Generates o marked properties l j) :
    Belongs m w o out marked properties l (.file (j.toPretty ++ "\n").toUTF8)
  | resource {l : Location} {content : ByteArray} (hl : m.Copies o out l)
    (hcontent : w.tree.node? (m.location ++ l) = some (.file content)) :
    Belongs m w o out marked properties l (.file content)
  /-- A folder above a resource. -/
  | above {l names : Location} (hnames : m.Copies o out names) (hl : l <+: names)
    (hne : l ≠ names) : Belongs m w o out marked properties l .folder

/-- Whether both a generated file and a resource belong to a place. -/
def Disputed (m : ModFolder) (o : DumpOptions) (out : Location) (marked : Module)
    (properties : Properties) (l : Location) : Prop :=
  (∃ j, m.Generates o marked properties l j) ∧ m.Copies o out l

section

variable {m : ModFolder} {w : Workspace} {o : DumpOptions} {marked : Module}
  {properties : Properties} {out l : Location}

theorem Generates.front {j : Json} (h : m.Generates o marked properties l j) {front : Location}
    (hnil : front ≠ []) (hfront : front <+: l) (hne : front ≠ l) :
    ∃ c ∈ Category.select o.categories, front = [c.folder] := by
  cases front with
  | nil => exact absurd rfl hnil
  | cons s front =>
    cases h with
    | build =>
      obtain ⟨rfl, hrest⟩ := List.cons_prefix_cons.1 hfront
      rw [List.prefix_nil.1 hrest] at hne
      exact absurd rfl hne
    | identity =>
      obtain ⟨rfl, hrest⟩ := List.cons_prefix_cons.1 hfront
      rw [List.prefix_nil.1 hrest] at hne
      exact absurd rfl hne
    | @records c r hc _ _ =>
      obtain ⟨rfl, hrest⟩ := List.cons_prefix_cons.1 hfront
      cases front with
      | nil => exact ⟨c, hc, rfl⟩
      | cons t front =>
        obtain ⟨rfl, hend⟩ := List.cons_prefix_cons.1 hrest
        rw [List.prefix_nil.1 hend] at hne
        exact absurd rfl hne

theorem folder_injective {c d : Category} (h : c.folder = d.folder) : c = d := by
  cases c <;> cases d <;> first | rfl | exact absurd h (by decide)

/-- At most one document is generated for a place. -/
theorem Generates.unique {j k : Json} (h : m.Generates o marked properties l j)
    (h' : m.Generates o marked properties l k) : j = k := by
  cases h with
  | build =>
    generalize hl : ["Info.json"] = place at h'
    cases h' with
    | build => rfl
    | identity => exact absurd hl (by decide)
    | records => simp at hl
  | identity =>
    generalize hl : ["Mod.json"] = place at h'
    cases h' with
    | build => exact absurd hl (by decide)
    | identity => rfl
    | records => simp at hl
  | @records c r hc hnamed hr =>
    generalize hl : [c.folder, namespaceOf r ++ ".json"] = place at h'
    cases h' with
    | build => simp at hl
    | identity => simp at hl
    | @records d s hd _ hs =>
      obtain ⟨hfolder, hname⟩ := List.cons.inj hl
      obtain rfl := folder_injective hfolder
      have hname := congrArg String.toList (List.cons.inj hname).1
      rw [String.toList_append, String.toList_append, List.append_left_inj] at hname
      rw [String.toList_injective hname]

/-- At most one file belongs to a place that is not disputed. -/
theorem Belongs.unique (hfree : ¬ m.Disputed o out marked properties l)
    {content content' : ByteArray} (h : m.Belongs w o out marked properties l (.file content))
    (h' : m.Belongs w o out marked properties l (.file content')) : content = content' := by
  cases h with
  | generated hgen =>
    cases h' with
    | generated hgen' => rw [hgen.unique hgen']
    | resource hcopies _ => exact absurd ⟨⟨_, hgen⟩, hcopies⟩ hfree
  | resource hcopies hcontent =>
    cases h' with
    | generated hgen => exact absurd ⟨⟨_, hgen⟩, hcopies⟩ hfree
    | resource _ hcontent' =>
      rw [hcontent] at hcontent'
      cases hcontent'
      rfl

end

end ModFolder

namespace Mod.Prepared

variable {m : ModFolder} {w : Workspace} {o : DumpOptions} {c out l : Location} {step : Write}
  {d : Prepared m.toMod w o}

/-- Whether no extracted record has a slash in its namespace. -/
def IsFlat (d : Prepared m.toMod w o) : Prop :=
  ∀ c ∈ Category.select o.categories, ∀ r ∈ (extracted o d.marked).records c,
    '/' ∉ (namespaceOf r).toList

/-- What is generated for a place is written there. -/
theorem exists_step_of_generates (hflat : d.IsFlat) {j : Json}
    (h : m.Generates o d.marked d.properties l j) :
    ∃ file, .document file j ∈ d.steps ∧ file.IsBelow (m.outputPath o) l := by
  cases h with
  | build =>
    exact ⟨_, d.mem_steps.2 (Or.inl (d.mem_generated.2 (Or.inr (Or.inl rfl)))),
      Layout.buildFile_isBelow _⟩
  | identity =>
    exact ⟨_, d.mem_steps.2 (Or.inl (d.mem_generated.2 (Or.inr (Or.inr (Or.inl rfl))))),
      Layout.identityFile_isBelow _⟩
  | @records c r hc hnamed hr =>
    have hgroup : m.toMod.WritesGroup w o c
        ⟨namespaceOf r, ((extracted o d.marked).records c).filter (namespaceOf · = namespaceOf r)⟩ :=
      ⟨d.marked, _, d.load, hc, groupByNamespace_eq_ok.2 ⟨hnamed, rfl⟩,
        mem_groupsOf.2 ⟨⟨r, hr, rfl⟩, rfl⟩⟩
    exact ⟨_, d.mem_steps.2 (Or.inl (d.mem_generated.2 (Or.inr (Or.inr (Or.inr ⟨c, _, hgroup, rfl⟩))))),
      Layout.namespaceFile_isBelow _ c (hflat c hc r hr)⟩

namespace HasOutput

/-! ### Steps and places -/

/-- A path below the output goes down into what that one goes through and what is above its end. -/
theorem mem_entered_iff (h : d.HasOutput c out) {path : Path} {steps : List String}
    (hpath : path.IsBelow (m.outputPath o) steps) (hl : l ≠ []) :
    out ++ l ∈ path.entered c ↔
      out ++ l ∈ (m.outputPath o).entered w.cwd.place ∨ l <+: steps := by
  rw [hpath.mem_entered, h.entered, h.target]
  simp [hl]

theorem target_eq_iff (h : d.HasOutput c out) {path : Path} {steps : List String}
    (hpath : path.IsBelow (m.outputPath o) steps) : path.target c = out ++ l ↔ l = steps := by
  rw [(hpath.2 c).1, h.target, List.append_cancel_left_eq, eq_comm]

/-- A resource that is copied goes to the place of its names. -/
theorem exists_step_of_copies (h : d.HasOutput c out) (hl : m.Copies o out l) :
    ∃ file path, .copy file path ∈ m.toMod.copies o d.resources ∧
      path.IsBelow (m.outputPath o) l := by
  obtain ⟨hcopy, file, hfile, rfl, hout⟩ := hl
  obtain ⟨names, _, hne, hnames, rfl, _⟩ := h.opened.resources file hfile
  have hmem := (h.resources _).2 ⟨hfile, hout⟩
  refine ⟨_, _, d.mem_copies.2 ⟨_, hmem, hcopy, rfl⟩, ?_⟩
  rw [Path.steps_names hne hnames]
  exact Layout.resourceFile_isBelow _ hne hnames

/-- A step that copies takes a resource to the place of its names below the output. -/
theorem copy_cases (h : d.HasOutput c out) (hstep : step ∈ m.toMod.copies o d.resources) :
    ∃ names path, m.Copies o out names ∧ names ≠ [] ∧ (∀ s ∈ names, IsName s) ∧
      step = .copy ("/".intercalate names) path ∧ path.IsBelow (m.outputPath o) names := by
  obtain ⟨file, hfile, hcopy, rfl⟩ := d.mem_copies.1 hstep
  obtain ⟨hresource, hout⟩ := (h.resources file).1 hfile
  obtain ⟨names, _, hne, hnames, rfl, _⟩ := h.opened.resources file hresource
  rw [Path.steps_names hne hnames] at hout
  exact ⟨names, _, ⟨hcopy, _, hresource, Path.steps_names hne hnames, hout⟩, hne, hnames, rfl,
    Layout.resourceFile_isBelow _ hne hnames⟩

/-- Every step creates the folder of a category, writes what is generated for a place, or copies a
resource. -/
theorem step_cases (h : d.HasOutput c out) (hflat : d.IsFlat) (hstep : step ∈ d.steps) :
    (∃ k ∈ Category.select o.categories, ∃ folder : Path,
      step = .create folder ∧ folder.IsBelow (m.outputPath o) [k.folder]) ∨
    (∃ l j file, m.Generates o d.marked d.properties l j ∧ step = .document file j ∧
      file.IsBelow (m.outputPath o) l) ∨
    ∃ names path, m.Copies o out names ∧ names ≠ [] ∧ (∀ s ∈ names, IsName s) ∧
      step = .copy ("/".intercalate names) path ∧ path.IsBelow (m.outputPath o) names := by
  rcases d.mem_steps.1 hstep with hmem | hmem
  · rcases d.mem_generated.1 hmem with ⟨k, hk, rfl⟩ | rfl | rfl | ⟨k, g, hg, rfl⟩
    · exact Or.inl ⟨k, hk, _, rfl, Layout.categoryFolder_isBelow _ k⟩
    · exact Or.inr (Or.inl ⟨_, _, _, .build, rfl, Layout.buildFile_isBelow _⟩)
    · exact Or.inr (Or.inl ⟨_, _, _, .identity, rfl, Layout.identityFile_isBelow _⟩)
    · obtain ⟨marked, groups, hload, hk, hgroups, hg⟩ := hg
      obtain rfl : d.marked = marked := Except.ok.inj (d.load.symm.trans hload)
      obtain ⟨hnamed, rfl⟩ := groupByNamespace_eq_ok.1 hgroups
      obtain ⟨⟨r, hr, hname⟩, hrecords⟩ := mem_groupsOf.1 hg
      refine Or.inr (Or.inl ⟨_, _, _, .records hk hnamed hr, ?_,
        Layout.namespaceFile_isBelow _ k (hflat k hk r hr)⟩)
      rw [Layout.groupWrite, hname, hrecords]
      rfl
  · exact Or.inr (Or.inr (h.copy_cases hmem))

/-- What belongs below the output as a file is written. -/
theorem exists_step_of_belongs (h : d.HasOutput c out) (hflat : d.IsFlat) {content : ByteArray}
    (hl : m.Belongs w o out d.marked d.properties l (.file content)) :
    ∃ step ∈ d.steps, step.WritesAt c (out ++ l) := by
  cases hl with
  | generated hgen =>
    obtain ⟨file, hstep, hpath⟩ := exists_step_of_generates hflat hgen
    exact ⟨_, hstep, (Write.writesAt_iff rfl).2 ((h.target_eq_iff hpath).2 rfl)⟩
  | resource hcopies _ =>
    obtain ⟨_, path, hstep, hpath⟩ := h.exists_step_of_copies hcopies
    exact ⟨_, d.mem_steps.2 (Or.inr hstep),
      (Write.writesAt_iff rfl).2 ((h.target_eq_iff hpath).2 rfl)⟩

/-! ### Folders -/

/-- A folder that a step goes down into belongs below the output or is on the way of its path. -/
theorem belongs_of_entered (h : d.HasOutput c out) (hflat : d.IsFlat) (hl : l ≠ [])
    (hstep : step ∈ d.steps) (hentered : out ++ l ∈ step.entered c)
    (hnot : ¬ step.WritesAt c (out ++ l)) :
    m.Belongs w o out d.marked d.properties l .folder ∨
      out ++ l ∈ (m.outputPath o).entered w.cwd.place := by
  rcases h.step_cases hflat hstep with ⟨k, hk, folder, rfl, hpath⟩ |
    ⟨place, j, file, hgen, rfl, hpath⟩ | ⟨names, path, hcopies, _, _, rfl, hpath⟩
  · rcases (h.mem_entered_iff hpath hl).1 hentered with hway | hfront
    · exact Or.inr hway
    · cases l with
      | nil => exact absurd rfl hl
      | cons s l =>
        obtain ⟨rfl, hnil⟩ := List.cons_prefix_cons.1 hfront
        rw [List.prefix_nil.1 hnil]
        exact Or.inl (.category hk)
  · rw [Write.writesAt_iff rfl, h.target_eq_iff hpath] at hnot
    rcases (h.mem_entered_iff hpath hl).1 hentered with hway | hfront
    · exact Or.inr hway
    · obtain ⟨k, hk, rfl⟩ := hgen.front hl hfront hnot
      exact Or.inl (.category hk)
  · rw [Write.writesAt_iff rfl, h.target_eq_iff hpath] at hnot
    rcases (h.mem_entered_iff hpath hl).1 hentered with hway | hfront
    · exact Or.inr hway
    · exact Or.inl (.above hcopies hfront hnot)

/-- For what the path of the output goes through there is a step that goes down into it: two files
lie in the output folder itself, and at most one of them is at this place. -/
theorem exists_step_of_passage (h : d.HasOutput c out) (hflat : d.IsFlat) (hl : l ≠ [])
    (hpassage : out ++ l ∈ (m.outputPath o).entered w.cwd.place) :
    ∃ step ∈ d.steps, out ++ l ∈ step.entered c ∧ ¬ step.WritesAt c (out ++ l) := by
  have hgenerated : ∀ {place : Location} {j : Json}, m.Generates o d.marked d.properties place j →
      l ≠ place → ∃ step ∈ d.steps, out ++ l ∈ step.entered c ∧
        ¬ step.WritesAt c (out ++ l) := by
    intro place j hgen hne
    obtain ⟨file, hstep, hpath⟩ := exists_step_of_generates hflat hgen
    refine ⟨_, hstep, (h.mem_entered_iff hpath hl).2 (Or.inl hpassage), ?_⟩
    rw [Write.writesAt_iff rfl, h.target_eq_iff hpath]
    exact hne
  by_cases hbuild : l = ["Info.json"]
  · exact hgenerated .identity (by rw [hbuild]; decide)
  · exact hgenerated .build hbuild

/-- Folders are created for exactly what belongs below the output folder as a folder and for what the
path of the output goes through. -/
theorem enters_iff_belongs (h : d.HasOutput c out) (hflat : d.IsFlat) (hl : l ≠ []) :
    (∃ step ∈ d.steps, out ++ l ∈ step.entered c ∧ ¬ step.WritesAt c (out ++ l)) ↔
      m.Belongs w o out d.marked d.properties l .folder ∨
        out ++ l ∈ (m.outputPath o).entered w.cwd.place := by
  constructor
  · intro hentered
    obtain ⟨step, hstep, hentered, hnot⟩ := hentered
    exact h.belongs_of_entered hflat hl hstep hentered hnot
  · rintro (hbelongs | hpassage)
    · cases hbelongs with
      | @category k hk =>
        have hpath := Layout.categoryFolder_isBelow (Layout.ofMod o.outputRoot m.name) k
        refine ⟨_, d.mem_steps.2 (Or.inl (d.mem_generated.2 (Or.inl ⟨k, hk, rfl⟩))),
          (h.mem_entered_iff hpath hl).2 (Or.inr List.prefix_rfl), ?_⟩
        rintro ⟨file, hfile, _⟩
        cases hfile
      | above hnames hfront hne =>
        obtain ⟨file, path, hstep, hpath⟩ := h.exists_step_of_copies hnames
        refine ⟨_, d.mem_steps.2 (Or.inr hstep), (h.mem_entered_iff hpath hl).2 (Or.inr hfront), ?_⟩
        rw [Write.writesAt_iff rfl, h.target_eq_iff hpath]
        exact hne
    · exact h.exists_step_of_passage hflat hl hpassage

end HasOutput

/-! ### Files -/

/-- While a dump goes on, the program runs where it did and the files outside of the output folder
are those of the workspace before the dump. -/
structure Ongoing (w : Workspace) (c out : Location) (v : Workspace) : Prop where
  cwd : v.cwd.Of c
  files : ∀ l content, ¬ out <+: l → v.tree.node? l = some (.file content) →
    w.tree.node? l = some (.file content)

namespace HasOutput

theorem ongoing_perform (h : d.HasOutput c out) (hflat : d.IsFlat) (hstep : step ∈ d.steps)
    {v : Workspace} (hv : Ongoing w c out v) : Ongoing w c out (step.perform m.toMod v).1 := by
  obtain ⟨u, f, hperform⟩ : ∃ u f, step.perform m.toMod v = (u, f) := ⟨_, _, rfl⟩
  rw [hperform]
  have hgrows := (Write.perform_spec hv.cwd (d.removes_of_mem_steps hstep) hperform).1
  refine ⟨hgrows.cwd ▸ hv.cwd, fun l content hl hfile => hv.files l content hl ?_⟩
  rcases hgrows.node? l with hsame | ⟨_, _, hfolder⟩ | ⟨_, written, ⟨hwrites, _⟩, _⟩
  · rw [← hsame, hfile]
  · rw [hfile] at hfolder
    cases hfolder
  · have htarget := hwrites.target
    obtain ⟨steps, hpath⟩ : ∃ steps, step.path.IsBelow (m.outputPath o) steps := by
      rcases h.step_cases hflat hstep with ⟨_, _, _, rfl, hpath⟩ |
        ⟨_, _, _, _, rfl, hpath⟩ | ⟨_, _, _, _, _, rfl, hpath⟩ <;> exact ⟨_, hpath⟩
    rw [(hpath.2 c).1, h.target] at htarget
    exact absurd (htarget ▸ List.prefix_append out steps) hl

/-- A resource is read from the place where it was found. -/
theorem node?_of_read (h : d.HasOutput c out) {v : Workspace} (hcwd : v.cwd.Of c)
    {names : List String} (hne : names ≠ []) (hnames : ∀ s ∈ names, IsName s) {content : ByteArray}
    (hread : m.toMod.read ("/".intercalate names) v = .ok content) :
    v.tree.node? (m.location ++ names) = some (.file content) := by
  have hfound := ModFolder.readFile_eq_ok hread
  have hnode := Workspace.read?_eq_some (Workspace.base_of hcwd _) hfound
  rwa [((Path.isBelow_join_names m.root hne hnames).2 c).1, h.target_root] at hnode

/-- What is written for a place in the output folder belongs there. -/
theorem belongs_of_leave (h : d.HasOutput c out) (hflat : d.IsFlat) {content : ByteArray}
    (hleave : Write.Leave m.toMod c (Ongoing w c out) d.steps (out ++ l) content) :
    m.Belongs w o out d.marked d.properties l (.file content) := by
  obtain ⟨step, hstep, hwrites, v, hv, hcontent⟩ := hleave
  rcases h.step_cases hflat hstep with ⟨k, hk, folder, rfl, hpath⟩ |
    ⟨place, j, file, hgen, rfl, hpath⟩ | ⟨names, path, hcopies, hne, hnames, rfl, hpath⟩
  · obtain ⟨file, hfile, _⟩ := hwrites
    cases hfile
  · rw [Write.writesAt_iff rfl, h.target_eq_iff hpath] at hwrites
    rw [Write.content?_document] at hcontent
    obtain rfl := Option.some.inj hcontent
    exact hwrites ▸ .generated hgen
  · rw [Write.writesAt_iff rfl, h.target_eq_iff hpath] at hwrites
    have hread := h.node?_of_read hv.cwd hne hnames (eq_ok_of_toOption hcontent)
    -- no step has changed the place of the resource
    obtain ⟨_, _, _, houtside⟩ := hcopies.2
    exact hwrites ▸ .resource hcopies (hv.files _ _ houtside hread)

/-! ### The whole run -/

/-- Clearing leaves nothing below the output folder. -/
theorem node?_of_clear (h : d.HasOutput c out) (hground : w.IsGrounded)
    (hcheck : Workspace.check (m.outputPath o) = .ok ()) {v : Workspace}
    (hclear : Write.clearFolder w (m.outputPath o) = (v, none)) (hl : l ≠ []) :
    v.tree.node? (out ++ l) = none := by
  have hne : out ++ l ≠ out := fun heq => hl (List.append_right_eq_self.1 heq)
  obtain ⟨_, _, hcleared⟩ := h.clear hclear
  rcases hcleared rfl with ⟨hnot, rfl⟩ | hnone
  · cases hnode : v.tree.node? (out ++ l) with
    | none => rfl
    | some n =>
      have hfolder := FileTree.node?_of_prefix hnode (List.prefix_append out l) (Ne.symm hne)
      rw [h.resolves.holds hground hcheck hfolder] at hnot
      cases hnot
  · exact hnone _ (List.prefix_append out l) hne

variable {v w' : Workspace}

/-- Every dump writes the build properties into its output. -/
theorem build_mem_steps (d : Prepared m.toMod w o) :
    .document ((m.outputPath o).join "Info.json") d.properties.toJson ∈ d.steps :=
  d.mem_steps.2 (Or.inl (d.mem_generated.2 (Or.inr (Or.inl rfl))))

/-- After a dump the path of the output leads to where it resolved to before. -/
theorem locate (h : d.HasOutput c out) (hground : w.IsGrounded)
    (hclear : Write.clearFolder w (m.outputPath o) = (v, none))
    (hrest : Write.performAll m.toMod v d.steps = (w', none)) :
    Workspace.check (m.outputPath o) = .ok () ∧ w'.locate (m.outputPath o) = .ok out := by
  obtain ⟨hcwd, _, _⟩ := h.clear hclear
  obtain ⟨x, _, _, hxcwd, hxground, site, hgrows⟩ := Write.exists_site_of_performAll hcwd
    (Write.clearFolder_isGrounded h.cwd hground hclear) (fun step => d.removes_of_mem_steps) hrest
    (build_mem_steps d)
  have hcheck : Workspace.check (m.outputPath o) = .ok () :=
    Workspace.check_of_join (Path.text_join_name _ h.opened.isName) (by decide) site.usable
  refine ⟨hcheck, ?_⟩
  have hlocate := Workspace.locate_of_isSite hxcwd hxground (by decide) (by decide) hcheck site hgrows
  rwa [h.target] at hlocate

/-- The output itself is a folder, because a file lies in it. -/
theorem node?_out (h : d.HasOutput c out)
    (hclear : Write.clearFolder w (m.outputPath o) = (v, none))
    (hrest : Write.performAll m.toMod v d.steps = (w', none)) :
    w'.tree.node? out = some .folder := by
  obtain ⟨hcwd, _, _⟩ := h.clear hclear
  have hpath : ((m.outputPath o).join "Info.json").IsBelow (m.outputPath o) ["Info.json"] :=
    Layout.buildFile_isBelow _
  have hnodes := Write.performAll_nodes (I := fun _ => True) hcwd trivial
    (fun step => d.removes_of_mem_steps) (fun _ _ _ _ _ => trivial) hrest (build_mem_steps d)
  apply hnodes.2 out (hpath.mem_entered.2 (Or.inl h.out_mem_entered))
  rw [Write.writesAt_iff rfl, (hpath.2 c).1, h.target]
  simp

/-- Below the output there is what belongs there and what its path goes through, and nothing else. -/
theorem node?_below (h : d.HasOutput c out) (hflat : d.IsFlat) (hground : w.IsGrounded)
    (hclear : Write.clearFolder w (m.outputPath o) = (v, none))
    (hrest : Write.performAll m.toMod v d.steps = (w', none)) (hl : l ≠ []) (n : Node) :
    (w'.tree.node? (out ++ l) = some n →
      m.Belongs w o out d.marked d.properties l n ∨
        n = .folder ∧ out ++ l ∈ (m.outputPath o).entered w.cwd.place) ∧
    (m.Belongs w o out d.marked d.properties l n ∨
        n = .folder ∧ out ++ l ∈ (m.outputPath o).entered w.cwd.place →
      w'.tree.node? (out ++ l) = some n ∨
        m.Disputed o out d.marked d.properties l ∧
          ∃ content, w'.tree.node? (out ++ l) = some (.file content)) := by
  obtain ⟨hcwd, hframe, _⟩ := h.clear hclear
  have hnone := h.node?_of_clear hground (h.locate hground hclear hrest).1 hclear hl
  have hongoing : Ongoing w c out v := ⟨hcwd, fun l content hl hfile => hframe l hl ▸ hfile⟩
  have hadd : ∀ step ∈ d.steps, step.removes = false := fun step => d.removes_of_mem_steps
  have hkept : ∀ step ∈ d.steps, ∀ x, x.cwd.Of c → Ongoing w c out x →
      Ongoing w c out (step.perform m.toMod x).1 := fun step hstep x _ hx =>
    h.ongoing_perform hflat hstep hx
  obtain ⟨hfolder, hfile⟩ := Write.performAll_node_of_free hcwd hongoing hadd hkept hrest hnone
  cases n with
  | folder =>
    rw [hfolder, h.enters_iff_belongs hflat hl]
    constructor
    · exact fun hn => hn.imp_right fun hway => ⟨rfl, hway⟩
    · exact fun hn => Or.inl (hn.imp_right And.right)
  | file content =>
    constructor
    · intro hnode
      exact Or.inl (h.belongs_of_leave hflat (hfile content hnode))
    · rintro (hbelongs | ⟨hn, _⟩)
      · obtain ⟨step, hstep, hwrites⟩ := h.exists_step_of_belongs hflat hbelongs
        obtain ⟨written, hleave, hnode⟩ :=
          (Write.performAll_nodes hcwd hongoing hadd hkept hrest hstep).1 _ hwrites
        by_cases hfree : m.Disputed o out d.marked d.properties l
        · exact Or.inr ⟨hfree, written, hnode⟩
        · rw [hnode, hbelongs.unique hfree (h.belongs_of_leave hflat hleave)]
          exact Or.inl rfl
      · cases hn

end HasOutput

end Mod.Prepared

namespace Mod

/-- **What a dump leaves in its output folder.** If no extracted record has a slash in its namespace
and the dump succeeds, then below the output folder there is nothing but what belongs there and the
folders that the path of the output goes through, and all of that is there, except that a disputed
place has only one of its two files. -/
theorem dump_output_tree {w w' : Workspace} {root : Path} {codeFile : String} {ignores : List String}
    {m : ModFolder} {o : DumpOptions} {marked : Module} {s : DumpSummary}
    (hground : w.IsGrounded) (hopen : ModFolder.openAt w root codeFile ignores = .ok m)
    (hload : m.toMod.load w o.markers = .ok marked)
    (hflat : ∀ c ∈ Category.select o.categories, ∀ r ∈ (extracted o marked).records c,
      '/' ∉ (namespaceOf r).toList)
    (hdry : o.dryRun = false) (hdump : m.toMod.dump w o = (w', .ok s)) :
    ∃ out properties, w.resolve? (m.outputPath o) = some out ∧
      w'.locate (m.outputPath o) = .ok out ∧ w'.tree.node? out = some .folder ∧
      m.toMod.properties w = .ok properties ∧
      ∀ l, l ≠ [] → ∀ n,
        (w'.tree.node? (out ++ l) = some n →
          m.Belongs w o out marked properties l n ∨
            n = .folder ∧ out ++ l ∈ (m.outputPath o).entered w.cwd.place) ∧
        (m.Belongs w o out marked properties l n ∨
            n = .folder ∧ out ++ l ∈ (m.outputPath o).entered w.cwd.place →
          w'.tree.node? (out ++ l) = some n ∨
            m.Disputed o out marked properties l ∧
              ∃ content, w'.tree.node? (out ++ l) = some (.file content)) := by
  rcases dump_cases hdump with ⟨_, ⟨_, hf⟩ | hnot⟩ | ⟨_, d, f, hperform, hok⟩
  · cases hf
  · rw [hdry] at hnot
    cases hnot
  obtain rfl := hok ⟨s, rfl⟩
  obtain rfl : d.marked = marked := Except.ok.inj (d.load.symm.trans hload)
  obtain ⟨c, out, h⟩ := d.exists_hasOutput hground (ModFolder.isOpened_of_openAt hopen)
  obtain ⟨v, r, hclear, ⟨rfl, hrest⟩ | ⟨hsome, rfl, _⟩⟩ := Write.performAll_cons hperform
  · refine ⟨out, d.properties, h.resolve, (h.locate hground hclear hrest).2,
      h.node?_out hclear hrest, d.parse, fun l hl n => ?_⟩
    exact h.node?_below hflat hground hclear hrest hl n
  · cases hsome

/-! ### A mod with one text and one resource -/

/-- The code of a mod with one text, written without the names of the fields. -/
def chattyCode : ByteArray :=
  ("[[[\"T\",\"N\",[],[[\"M\",true,0,true,[0,[[\"ldstr\",\"x\"],[\"\"],[\"\"],[\"\"],[\"\"]," ++
    "[\"call\",[\"T\",\"NewText\"]]]]]]]]]").toUTF8

/-- The module that this code encodes. -/
def chattyModule : Module where
  types := [{
    name := "T"
    namespaceName := "N"
    methods := [{
      name := "M"
      body := some ⟨0, [.pushString "x", .other, .other, .other, .other, .call ⟨"T", "NewText", 0⟩]⟩ }] }]

theorem ofPayload_chattyCode : Module.ofPayload chattyCode = .ok chattyModule :=
  eq_ok_of_toOption (by decide +kernel)

/-- A disk on which that mod lies with a resource, and an earlier output. -/
def chattyWorkspace : Workspace :=
  let w := ((⟨.empty, {}⟩ : Workspace).makeFolders ⟨"in/Mod/art"⟩).1
  let w := (w.write? ⟨"in/Mod/module.json"⟩ chattyCode).getD w
  let w := (w.write? ⟨"in/Mod/art/icon"⟩ "i".toUTF8).getD w
  (w.makeFolders ⟨"out/Mod/old"⟩).1

/-- The mod as it is opened. -/
def chattyMod : ModFolder :=
  ⟨⟨"in/Mod"⟩, ["in", "Mod"], "Mod", "module.json", ["art/icon"]⟩

def chattyOptions : DumpOptions where
  outputRoot := ⟨"out"⟩
  categories := [.misc]

theorem dump_output_tree_of_chatty :
    ∃ w' s, chattyMod.toMod.dump chattyWorkspace chattyOptions = (w', .ok s) ∧
      ∃ out properties, chattyWorkspace.resolve? (chattyMod.outputPath chattyOptions) = some out ∧
        w'.locate (chattyMod.outputPath chattyOptions) = .ok out ∧ w'.tree.node? out = some .folder ∧
        chattyMod.toMod.properties chattyWorkspace = .ok properties ∧
        ∀ l, l ≠ [] → ∀ n,
          (w'.tree.node? (out ++ l) = some n →
            chattyMod.Belongs chattyWorkspace chattyOptions out (chattyModule.mark {}) properties l n ∨
              n = .folder ∧ out ++ l ∈
                (chattyMod.outputPath chattyOptions).entered chattyWorkspace.cwd.place) ∧
          (chattyMod.Belongs chattyWorkspace chattyOptions out (chattyModule.mark {}) properties l n ∨
              n = .folder ∧ out ++ l ∈
                (chattyMod.outputPath chattyOptions).entered chattyWorkspace.cwd.place →
            w'.tree.node? (out ++ l) = some n ∨
              chattyMod.Disputed chattyOptions out (chattyModule.mark {}) properties l ∧
                ∃ content, w'.tree.node? (out ++ l) = some (.file content)) := by
  have hopen : ModFolder.openAt chattyWorkspace ⟨"in/Mod"⟩ "module.json" [] = .ok chattyMod :=
    eq_ok_of_toOption (by decide +kernel)
  have hcode : chattyMod.toMod.code chattyWorkspace = .ok chattyCode :=
    eq_ok_of_toOption (by decide +kernel)
  have hload : chattyMod.toMod.load chattyWorkspace chattyOptions.markers = .ok (chattyModule.mark {}) := by
    rw [load, hcode]
    simp only [bind, Except.bind, ofPayload_chattyCode]
    rfl
  have hdone : (chattyMod.toMod.dump chattyWorkspace chattyOptions).2.toOption.isSome := by
    decide +kernel
  generalize hdump : chattyMod.toMod.dump chattyWorkspace chattyOptions = result at hdone
  obtain ⟨w', r⟩ := result
  obtain ⟨s, rfl⟩ := exists_eq_ok hdone
  have hflat : ∀ c ∈ Category.select chattyOptions.categories,
      ∀ r ∈ (extracted chattyOptions (chattyModule.mark {})).records c, '/' ∉ (namespaceOf r).toList := by
    decide +kernel
  exact ⟨w', s, rfl, dump_output_tree (by decide +kernel) hopen hload hflat rfl hdump⟩

/-! ### An output whose path goes through itself -/

/-- A disk with an empty mod and an earlier output that holds a folder. -/
def detourWorkspace : Workspace :=
  let w := ((⟨.empty, {}⟩ : Workspace).makeFolders ⟨"in/Mod"⟩).1
  let w := (w.write? ⟨"in/Mod/module.json"⟩ "\x7b\x7d".toUTF8).getD w
  (w.makeFolders ⟨"out/Mod/x"⟩).1

/-- The mod as it is opened. -/
def detourMod : ModFolder :=
  ⟨⟨"in/Mod"⟩, ["in", "Mod"], "Mod", "module.json", []⟩

def detourOptions : DumpOptions where
  outputRoot := ⟨"out/Mod/x/../.."⟩
  categories := []

/-- Without the folders that the path of the output goes through, what belongs below the output
folder is not all that is there. -/
theorem dump_output_tree_needs_passage :
    ∃ marked w' s, detourWorkspace.IsGrounded ∧
      ModFolder.openAt detourWorkspace ⟨"in/Mod"⟩ "module.json" [] = .ok detourMod ∧
      detourMod.toMod.load detourWorkspace detourOptions.markers = .ok marked ∧
      (∀ c ∈ Category.select detourOptions.categories, ∀ r ∈ (extracted detourOptions marked).records c,
        '/' ∉ (namespaceOf r).toList) ∧
      detourOptions.dryRun = false ∧
      detourMod.toMod.dump detourWorkspace detourOptions = (w', .ok s) ∧
      w'.locate (detourMod.outputPath detourOptions) = .ok ["out", "Mod"] ∧
      ∀ properties, ¬ ∀ l, l ≠ [] → ∀ n, w'.tree.node? (["out", "Mod"] ++ l) = some n ↔
        detourMod.Belongs detourWorkspace detourOptions ["out", "Mod"] marked properties l n := by
  have hdone : (detourMod.toMod.dump detourWorkspace detourOptions).2.toOption.isSome ∧
      ((detourMod.toMod.dump detourWorkspace detourOptions).1.locate
        (detourMod.outputPath detourOptions)).toOption = some ["out", "Mod"] ∧
      (detourMod.toMod.dump detourWorkspace detourOptions).1.tree.node? ["out", "Mod", "x"] =
        some .folder := by
    decide +kernel
  generalize hdump : detourMod.toMod.dump detourWorkspace detourOptions = result at hdone
  obtain ⟨w', r⟩ := result
  obtain ⟨hok, hlocate, hpassage⟩ := hdone
  obtain ⟨s, rfl⟩ := exists_eq_ok hok
  refine ⟨⟨[]⟩, w', s, by decide +kernel, eq_ok_of_toOption (by decide +kernel),
    eq_ok_of_toOption (by decide +kernel), by decide, rfl, rfl, eq_ok_of_toOption hlocate,
    fun properties hexact => ?_⟩
  have hbelongs := (hexact ["x"] (by decide) .folder).1 hpassage
  generalize hl : ["x"] = l at hbelongs
  cases hbelongs with
  | @category c hc => cases hc
  | above hcopies _ _ =>
    obtain ⟨_, _, hfile, _⟩ := hcopies
    cases hfile

end Mod

end ModText
