import ModText.Output.Dump
import ModText.Mod.Folder
import ModText.Proofs.Disk.Resolution
import ModText.Proofs.Output.Steps

/-!
# What a dump is about to do

A dump that gets past its checks clears its output folder and then performs steps that remove
nothing: it creates the folders of the categories, writes what it has generated, and copies the
resources. All paths of the layout begin with the path of the output folder, so where they lead and
what they go down into is told by that path and the names behind it.
-/

namespace ModText

theorem eq_ok_of_toOption {ε α : Type} {x : Except ε α} {a : α} (h : x.toOption = some a) :
    x = .ok a := by
  cases x with
  | error => cases h
  | ok b => exact congrArg _ (Option.some.inj h)

theorem exists_eq_ok {ε α : Type} {x : Except ε α} (h : x.toOption.isSome) : ∃ a, x = .ok a := by
  obtain ⟨a, ha⟩ := Option.isSome_iff_exists.1 h
  exact ⟨a, eq_ok_of_toOption ha⟩

/-! ## Mods in folders -/

namespace ModFolder

/-- What it takes to open a folder as a mod, and what comes of it. -/
structure Opens (w : Workspace) (path : Path) (code : String)
    (patterns : List (List Glob.Token)) (m : ModFolder) : Prop where
  isFolder : w.isFolder path
  canonical : w.canonical? path = some m.location
  named : nameAt path m.location = .ok m.name
  listable : unlistable? w path m.location = none
  root : m.root = path
  codeFile : m.codeFile = code
  resources : m.resources = ((w.tree.filesBelow m.location).map ("/".intercalate ·)).filter
    (isResource code patterns)

theorem openAt_eq_ok_iff {w : Workspace} {root : Path} {codeFile : String} {ignores : List String}
    {m : ModFolder} :
    openAt w root codeFile ignores = .ok m ↔
      ∃ patterns, ignores.mapM parseIgnore = .ok patterns ∧ Opens w root codeFile patterns m := by
  constructor
  · intro h
    rw [openAt] at h
    simp only [bind, Except.bind] at h
    split at h
    · cases h
    rename_i location hfind
    split at h
    · cases h
    rename_i name hname
    split at h
    · cases h
    rename_i patterns hpatterns
    split at h
    · cases h
    rename_i files hfiles
    obtain rfl := Except.ok.inj h
    rw [findFolder] at hfind
    split at hfind
    · rename_i hfolder
      split at hfind
      · rename_i l hcanonical
        obtain rfl := Except.ok.inj hfind
        rw [listFiles] at hfiles
        split at hfiles
        · cases hfiles
        · rename_i hlistable
          obtain rfl := Except.ok.inj hfiles
          exact ⟨patterns, hpatterns, hfolder, hcanonical, hname, hlistable, rfl, rfl, rfl⟩
      · cases hfind
    · cases hfind
  · rintro ⟨patterns, hpatterns, h⟩
    have hfind : findFolder w root = .ok m.location := by
      rw [findFolder, if_pos h.isFolder, h.canonical]
    have hfiles : listFiles w root m.location = .ok (w.tree.filesBelow m.location) := by
      rw [listFiles, h.listable]
    rw [openAt]
    simp only [bind, Except.bind, hfind, h.named, hpatterns, hfiles, pure, Except.pure]
    rw [← h.resources, ← h.root, ← h.codeFile]

theorem unlistable?_eq_none_iff {w : Workspace} {root : Path} {l : Location} :
    unlistable? w root l = none ↔ ∀ names, names ≠ [] →
      w.tree.node? (l ++ names) = some .folder → (pathBelow root names).isUsable := by
  rw [unlistable?, List.findSome?_eq_none_iff]
  constructor
  · intro h names hne hfolder
    have husable := h (names, .folder) (FileTree.mem_listing.2 ⟨hne, hfolder⟩)
    simpa using husable
  · rintro h ⟨names, n⟩ hmem
    obtain ⟨hne, hnode⟩ := FileTree.mem_listing.1 hmem
    cases n with
    | file content => simp
    | folder => simp [h names hne hnode]

/-- What is known of a mod that was opened. -/
structure IsOpened (m : ModFolder) (w : Workspace) : Prop where
  there : (w.base m.root).removed = 0
  location : m.location = m.root.target w.cwd.place
  folder : w.tree.node? m.location = some .folder
  isName : IsName m.name
  resources : ∀ file ∈ m.resources, ∃ names content, names ≠ [] ∧ (∀ s ∈ names, IsName s) ∧
    file = "/".intercalate names ∧ w.tree.node? (m.location ++ names) = some (.file content)

theorem isOpened_of_openAt {w : Workspace} {root : Path} {codeFile : String}
    {ignores : List String} {m : ModFolder} (h : openAt w root codeFile ignores = .ok m) :
    m.IsOpened w := by
  obtain ⟨patterns, _, h⟩ := openAt_eq_ok_iff.1 h
  obtain rfl := h.root
  obtain ⟨hthere, hlocation⟩ := Workspace.canonical?_eq_some h.canonical
  have hnode : w.tree.node? m.location = some .folder := by
    rw [hlocation]
    exact Workspace.node?_of_isFolder hthere h.isFolder
  have hlast : m.name ∈ m.location := by
    have hname := h.named
    rw [nameAt] at hname
    split at hname
    · rename_i last hgetLast
      rw [← Except.ok.inj hname]
      exact List.mem_of_getLast? hgetLast
    · cases hname
  refine ⟨hthere, hlocation, hnode, FileTree.isName_of_mem hnode m.name hlast, ?_⟩
  intro file hfile
  rw [h.resources] at hfile
  obtain ⟨names, hnames, rfl⟩ := List.mem_map.1 (List.mem_filter.1 hfile).1
  obtain ⟨hne, content, hcontent⟩ := FileTree.mem_filesBelow.1 hnames
  exact ⟨names, content, hne,
    fun s hs => FileTree.isName_of_mem hcontent s (List.mem_append_right _ hs), rfl, hcontent⟩

/-- The path of the output folder of a mod. -/
def outputPath (m : ModFolder) (o : DumpOptions) : Path :=
  (Layout.ofMod o.outputRoot m.name).root

theorem readFile_eq_ok {m : ModFolder} {circumstance : Path → Circumstance} {file : String}
    {w : Workspace} {content : ByteArray} (h : m.readFile circumstance file w = .ok content) :
    w.read? (m.root.join file) = some content := by
  delta readFile at h
  split at h
  · rename_i found hfound
    rw [hfound, Except.ok.inj h]
  · cases h

end ModFolder

/-! ## Paths below a path -/

namespace Path

/-- The path leads straight down from where another one leads, by these steps. -/
def IsBelow (p root : Path) (steps : List String) : Prop :=
  (∀ s ∈ steps, IsStep s) ∧ ∀ c, p.target c = root.target c ++ steps ∧
    p.entered c = root.entered c ++ Location.entered (root.target c) steps

variable {p root : Path} {relative : String} {steps steps' : List String}

theorem isBelow_join (root : Path) (hrelative : (Path.mk relative).isAbsolute = false)
    (hsegments : (Path.mk relative).segments = steps) (hsteps : ∀ s ∈ steps, IsStep s) :
    (root.join relative).IsBelow root steps := by
  refine ⟨hsteps, fun c => ⟨?_, ?_⟩⟩
  · rw [target_join c hrelative, hsegments, Location.along_steps _ hsteps]
  · rw [entered_join c hrelative, hsegments]

theorem IsBelow.trans {q : Path} (hq : q.IsBelow p steps') (hp : p.IsBelow root steps) :
    q.IsBelow root (steps ++ steps') := by
  refine ⟨fun s hs => (List.mem_append.1 hs).elim (hp.1 s) (hq.1 s), fun c => ⟨?_, ?_⟩⟩
  · rw [(hq.2 c).1, (hp.2 c).1, List.append_assoc]
  · rw [(hq.2 c).2, (hp.2 c).2, (hp.2 c).1, Location.entered_append,
      Location.along_steps _ hp.1, List.append_assoc]

theorem isBelow_join_step (root : Path) {s : String} (hs : IsStep s) (hslash : '/' ∉ s.toList) :
    (root.join s).IsBelow root [s] :=
  isBelow_join root (isAbsolute_of_not_mem hslash) (segments_of_not_mem hslash)
    (List.forall_mem_singleton.2 hs)

theorem isBelow_join_names (root : Path) {names : List String} (hne : names ≠ [])
    (hnames : ∀ s ∈ names, IsName s) :
    (root.join ("/".intercalate names)).IsBelow root names := by
  obtain ⟨hrelative, hsegments⟩ := segments_names hne hnames
  exact isBelow_join root hrelative hsegments fun s hs => (hnames s hs).isStep

/-- What a path below another goes down into is on the way of that one or straight below it. -/
theorem IsBelow.mem_entered (h : p.IsBelow root steps) {c l : Location} :
    l ∈ p.entered c ↔ l ∈ root.entered c ∨
      ∃ front, front ≠ [] ∧ front <+: steps ∧ l = root.target c ++ front := by
  rw [(h.2 c).2, List.mem_append, Location.mem_entered_steps h.1]

/-- A path with a name at its end is not empty. -/
theorem text_join_name (p : Path) {name : String} (h : IsName name) : (p.join name).text ≠ "" := by
  intro hempty
  have hnil : ∀ {a b : String}, a ++ b = "" → a.toList ++ b.toList = [] := fun h => by
    rw [← String.toList_append, h, String.toList_empty]
  have hname : name.toList = [] := by
    rw [join, if_neg (by simp [isAbsolute_of_not_mem h.2.2.2.1])] at hempty
    split at hempty
    · exact (List.append_eq_nil_iff.1 (hnil hempty)).2
    · exact (List.append_eq_nil_iff.1 (hnil hempty)).2
  exact h.1 (String.toList_eq_nil_iff.1 hname)

end Path

/-! ## The layout -/

namespace Layout

variable (l : Layout) (c : Category)

theorem categoryFolder_isBelow : (l.categoryFolder c).IsBelow l.root [c.folder] :=
  Path.isBelow_join_step l.root (by cases c <;> decide) (by cases c <;> decide)

theorem buildFile_isBelow : l.buildFile.IsBelow l.root ["Info.json"] :=
  Path.isBelow_join_step l.root (by decide) (by decide)

theorem identityFile_isBelow : l.identityFile.IsBelow l.root ["Mod.json"] :=
  Path.isBelow_join_step l.root (by decide) (by decide)

theorem resourceFile_isBelow {names : List String} (hne : names ≠ [])
    (hnames : ∀ s ∈ names, IsName s) :
    (l.resourceFile ("/".intercalate names)).IsBelow l.root names :=
  Path.isBelow_join_names l.root hne hnames

theorem isStep_json (name : String) : IsStep (name ++ ".json") := by
  have hlong : 5 ≤ (name ++ ".json").length := by
    rw [String.length_append]
    exact Nat.le_add_left _ _
  refine ⟨?_, ?_, ?_⟩ <;>
    · intro heq
      rw [heq] at hlong
      exact absurd hlong (by decide)

/-- The path of the file of a namespace ends with a name, whatever the namespace is. -/
theorem segments_namespaceFile (namespaceName : String) :
    ∃ front last, (l.namespaceFile c namespaceName).segments = front ++ [last] ∧ IsStep last := by
  obtain ⟨front, last, hsegments⟩ :=
    Path.segments_append_of_not_mem (b := ".json") (by decide) namespaceName
  rw [namespaceFile]
  by_cases habsolute : (Path.mk (namespaceName ++ ".json")).isAbsolute
  · rw [Path.join, if_pos habsolute]
    exact ⟨front, _, hsegments, isStep_json last⟩
  · obtain ⟨above, _, hjoin, _, _⟩ :=
      Path.segments_join (p := l.categoryFolder c) (Bool.eq_false_iff.2 habsolute)
    rw [hjoin, hsegments, ← List.append_assoc]
    exact ⟨above ++ front, _, rfl, isStep_json last⟩

/-- The file of a namespace lies in the folder of its category, if the namespace has no slash. -/
theorem namespaceFile_isBelow {namespaceName : String} (h : '/' ∉ namespaceName.toList) :
    (l.namespaceFile c namespaceName).IsBelow l.root [c.folder, namespaceName ++ ".json"] := by
  have hslash : '/' ∉ (namespaceName ++ ".json").toList := by simpa using h
  exact (Path.isBelow_join_step _ (isStep_json _) hslash).trans (l.categoryFolder_isBelow c)

end Layout

/-! ## The plan -/

namespace Mod

variable {m : Mod} {w w' : Workspace} {o : DumpOptions}

/-- What is extracted for a dump from a module with its marks. -/
def extracted (o : DumpOptions) (marked : Module) : Extraction :=
  marked.extract (Category.select o.categories)

theorem exists_code_of_load {names : MarkerNames} {marked : Module}
    (h : m.load w names = .ok marked) : ∃ payload, m.code w = .ok payload := by
  rw [load] at h
  cases hcode : m.code w with
  | error f =>
    rw [hcode] at h
    cases h
  | ok payload => exact ⟨payload, rfl⟩

/-- The steps that create folders and write what was generated. -/
def generated (m : Mod) (o : DumpOptions) (marked : Module) (properties : Properties) :
    List Write :=
  let layout := Layout.ofMod o.outputRoot m.name
  let selection := Category.select o.categories
  (selection.map fun c => .create (layout.categoryFolder c)) ++
    ([.document layout.buildFile properties.toJson,
      .document layout.identityFile (ModIdentity.ofProperties m.name properties).toJson] ++
    selection.flatMap (layout.categoryWrites (extracted o marked)))

/-- The steps that copy resources. -/
def copies (m : Mod) (o : DumpOptions) (resources : List String) : List Write :=
  (if o.copyResources then resources else []).map fun file =>
    .copy file ((Layout.ofMod o.outputRoot m.name).resourceFile file)

/-- What a dump that gets past its checks is about to do. -/
structure Prepared (m : Mod) (w : Workspace) (o : DumpOptions) where
  resources : List String
  marked : Module
  properties : Properties
  outside : m.resourcesOutside w (Layout.ofMod o.outputRoot m.name).root = .ok resources
  load : m.load w o.markers = .ok marked
  parse : m.properties w = .ok properties

/-- The steps of a prepared dump behind the first one, which clears the output folder. -/
def Prepared.steps (d : Prepared m w o) : List Write :=
  m.generated o d.marked d.properties ++ m.copies o d.resources

/-- Whether a dump of a mod writes this group as a file of a category. -/
def WritesGroup (m : Mod) (w : Workspace) (o : DumpOptions) (c : Category) (g : Group Record) :
    Prop :=
  ∃ marked groups, m.load w o.markers = .ok marked ∧ c ∈ Category.select o.categories ∧
    (extracted o marked).groups c = .ok groups ∧ g ∈ groups

namespace Prepared

variable {step : Write}

theorem mem_generated (d : Prepared m w o) :
    step ∈ m.generated o d.marked d.properties ↔
      (∃ c ∈ Category.select o.categories,
        step = .create ((Layout.ofMod o.outputRoot m.name).categoryFolder c)) ∨
      step = .document (Layout.ofMod o.outputRoot m.name).buildFile d.properties.toJson ∨
      step = .document (Layout.ofMod o.outputRoot m.name).identityFile
        (ModIdentity.ofProperties m.name d.properties).toJson ∨
      ∃ c g, m.WritesGroup w o c g ∧ step = (Layout.ofMod o.outputRoot m.name).groupWrite c g := by
  have hgroups : step ∈ (Category.select o.categories).flatMap
        ((Layout.ofMod o.outputRoot m.name).categoryWrites (extracted o d.marked)) ↔
      ∃ c g, m.WritesGroup w o c g ∧
        step = (Layout.ofMod o.outputRoot m.name).groupWrite c g := by
    rw [List.mem_flatMap]
    constructor
    · rintro ⟨c, hc, hstep⟩
      rw [Layout.categoryWrites] at hstep
      split at hstep
      · rename_i groups hgroups
        obtain ⟨g, hg, rfl⟩ := List.mem_map.1 hstep
        exact ⟨c, g, ⟨d.marked, groups, d.load, hc, hgroups, hg⟩, rfl⟩
      · cases hstep
    · rintro ⟨c, g, ⟨marked, groups, hload, hc, hgroups, hg⟩, rfl⟩
      obtain rfl : d.marked = marked := Except.ok.inj (d.load.symm.trans hload)
      refine ⟨c, hc, ?_⟩
      rw [Layout.categoryWrites, hgroups]
      exact List.mem_map.2 ⟨g, hg, rfl⟩
  rw [generated, List.mem_append, List.mem_append, hgroups, List.mem_map, List.mem_cons,
    List.mem_singleton, or_assoc]
  simp only [eq_comm]

theorem mem_copies (d : Prepared m w o) :
    step ∈ m.copies o d.resources ↔ ∃ file ∈ d.resources, o.copyResources = true ∧
      step = .copy file ((Layout.ofMod o.outputRoot m.name).resourceFile file) := by
  rw [copies]
  split
  · rename_i hcopy
    simp only [List.mem_map, hcopy, true_and, eq_comm]
  · rename_i hcopy
    simp [hcopy]

theorem mem_steps (d : Prepared m w o) :
    step ∈ d.steps ↔ step ∈ m.generated o d.marked d.properties ∨ step ∈ m.copies o d.resources :=
  List.mem_append

theorem removes_of_mem_steps (d : Prepared m w o) (h : step ∈ d.steps) : step.removes = false := by
  rcases d.mem_steps.1 h with h | h
  · rcases d.mem_generated.1 h with ⟨c, _, rfl⟩ | rfl | rfl | ⟨c, g, _, rfl⟩ <;> rfl
  · obtain ⟨file, _, _, rfl⟩ := d.mem_copies.1 h
    rfl

/-- Every path of the layout starts at the root if the path of the output folder does. -/
theorem isAbsolute_path (d : Prepared m w o) (h : step ∈ d.steps)
    (hroot : (Layout.ofMod o.outputRoot m.name).root.isAbsolute) : step.path.isAbsolute := by
  have hjoin := Path.isAbsolute_join_of_isAbsolute hroot
  rcases d.mem_steps.1 h with h | h
  · rcases d.mem_generated.1 h with ⟨c, _, rfl⟩ | rfl | rfl | ⟨c, g, _, rfl⟩
    · exact hjoin c.folder
    · rw [Write.path_document]
      exact hjoin "Info.json"
    · rw [Write.path_document]
      exact hjoin "Mod.json"
    · rw [Layout.groupWrite, Write.path_document]
      exact Path.isAbsolute_join_of_isAbsolute (hjoin c.folder) _
  · obtain ⟨file, _, _, rfl⟩ := d.mem_copies.1 h
    exact hjoin file

end Prepared

theorem plan_eq_ok {p : DumpPlan} (h : m.plan w o = .ok p) :
    ∃ d : Prepared m w o, p.writes = .clear (Layout.ofMod o.outputRoot m.name).root :: d.steps := by
  rw [plan] at h
  simp only [bind, Except.bind] at h
  split at h
  · cases h
  rename_i resources houtside
  split at h
  · cases h
  rename_i marked hload
  split at h
  · cases h
  rename_i properties hparse
  obtain rfl := Except.ok.inj h
  refine ⟨⟨resources, marked, properties, houtside, hload, hparse⟩, ?_⟩
  simp [Prepared.steps, generated, copies, extracted, Layout.prepare]

/-- What a prepared dump is going to tell. -/
def Prepared.summary (d : Prepared m w o) : DumpSummary where
  mod := m.name
  output := (Layout.ofMod o.outputRoot m.name).root
  categories :=
    (Category.select o.categories).map (CategorySummary.ofExtraction (extracted o d.marked))
  resourcesCopied := (if o.copyResources then d.resources else []).length
  dryRun := o.dryRun

theorem Prepared.plan_eq (d : Prepared m w o) :
    m.plan w o = .ok ⟨d.summary, .clear (Layout.ofMod o.outputRoot m.name).root :: d.steps⟩ := by
  rw [plan]
  simp only [bind, Except.bind, d.outside, d.load, d.parse, pure, Except.pure]
  simp [Prepared.summary, Prepared.steps, generated, copies, extracted, Layout.prepare]

/-- A dump is prepared in one way at most. -/
theorem Prepared.unique (d d' : Prepared m w o) : d' = d := by
  obtain ⟨resources, marked, properties, houtside, hload, hparse⟩ := d
  obtain ⟨resources', marked', properties', houtside', hload', hparse'⟩ := d'
  obtain rfl : resources' = resources := Except.ok.inj (houtside'.symm.trans houtside)
  obtain rfl : marked' = marked := Except.ok.inj (hload'.symm.trans hload)
  obtain rfl : properties' = properties := Except.ok.inj (hparse'.symm.trans hparse)
  rfl

theorem Prepared.dump_of_dryRun (d : Prepared m w o) (hdry : o.dryRun = true) :
    m.dump w o = (w, .ok d.summary) := by
  rw [dump, d.plan_eq]
  exact if_pos hdry

/-- A dump that succeeds tells what it was going to tell. -/
theorem Prepared.summary_eq_of_dump (d : Prepared m w o) {s : DumpSummary}
    (h : m.dump w o = (w', .ok s)) : s = d.summary := by
  rw [dump, d.plan_eq] at h
  simp only at h
  split at h
  · exact (Except.ok.inj (Prod.mk.inj h).2).symm
  · split at h
    · exact (Except.ok.inj (Prod.mk.inj h).2).symm
    · cases h

theorem exists_summary_eq_of_dump {s : DumpSummary} (h : m.dump w o = (w', .ok s)) :
    ∃ d : Prepared m w o, s = d.summary := by
  cases hplan : m.plan w o with
  | error f =>
    rw [dump, hplan] at h
    cases h
  | ok p =>
    obtain ⟨d, _⟩ := plan_eq_ok hplan
    exact ⟨d, d.summary_eq_of_dump h⟩

theorem dump_of_performAll {p : DumpPlan} (hplan : m.plan w o = .ok p) (hdry : o.dryRun = false)
    (hperform : Write.performAll m w p.writes = (w', none)) :
    m.dump w o = (w', .ok p.summary) := by
  rw [dump, hplan]
  simp only [hdry, Bool.false_eq_true, if_false]
  rw [hperform]

/-- A dump leaves everything as it was or performs the steps of its plan. -/
theorem dump_cases {r : Except Failure DumpSummary} (h : m.dump w o = (w', r)) :
    w' = w ∧ ((∃ f, r = .error f) ∨ o.dryRun = true) ∨
      o.dryRun = false ∧ ∃ d : Prepared m w o, ∃ f : Option Failure,
        Write.performAll m w (.clear (Layout.ofMod o.outputRoot m.name).root :: d.steps) = (w', f) ∧
          ((∃ s, r = .ok s) → f = none) := by
  rw [dump] at h
  split at h
  · obtain ⟨rfl, rfl⟩ := Prod.mk.inj h
    exact Or.inl ⟨rfl, Or.inl ⟨_, rfl⟩⟩
  · rename_i p hplan
    obtain ⟨d, hwrites⟩ := plan_eq_ok hplan
    split at h
    · rename_i hdry
      obtain ⟨rfl, rfl⟩ := Prod.mk.inj h
      exact Or.inl ⟨rfl, Or.inr hdry⟩
    · rename_i hdry
      refine Or.inr ⟨by simpa using hdry, d, ?_⟩
      rw [← hwrites]
      split at h
      · rename_i hperform
        obtain ⟨rfl, rfl⟩ := Prod.mk.inj h
        exact ⟨none, hperform, fun _ => rfl⟩
      · rename_i f hperform
        obtain ⟨rfl, rfl⟩ := Prod.mk.inj h
        refine ⟨some f, hperform, ?_⟩
        rintro ⟨s, hs⟩
        cases hs

/-! ## The output of a mod in a folder -/

/-- The output of a dump: the place `out` that its path resolves to, in which no resource lies. The
program runs at `c`, or did until folders were removed. -/
structure Prepared.HasOutput {m : ModFolder} (d : Prepared m.toMod w o) (c out : Location) :
    Prop where
  opened : m.IsOpened w
  cwd : w.cwd.Of c
  resolve : w.resolve? (m.outputPath o) = some out
  resolves : w.Resolves (m.outputPath o) out
  resources : ∀ file, file ∈ d.resources ↔
    file ∈ m.resources ∧ ¬ out <+: m.location ++ (Path.mk file).steps

namespace Prepared

variable {m : ModFolder} {d : Prepared m.toMod w o} {c out : Location}

theorem exists_hasOutput (hground : w.IsGrounded) (hopened : m.IsOpened w)
    (d : Prepared m.toMod w o) : ∃ c out, d.HasOutput c out := by
  obtain ⟨c, hcwd, _⟩ := w.cwd.exists_of
  have houtside := d.outside
  have hlocation : m.toMod.location = some m.location := rfl
  rw [resourcesOutside, hlocation] at houtside
  simp only at houtside
  split at houtside
  · cases houtside
  · rename_i out hresolve
    split at houtside
    · cases houtside
    · refine ⟨c, out, hopened, hcwd, hresolve, Workspace.resolves_of_resolve? hground hresolve, ?_⟩
      intro file
      rw [← Except.ok.inj houtside, List.mem_filter, Bool.not_eq_true', ← Bool.not_eq_true,
        List.isPrefixOf_iff_prefix]
      rfl

namespace HasOutput

/-- All paths of the steps are followed from the same place, even if the program loses it. -/
theorem origin (h : d.HasOutput c out) {step : Write} (hstep : step ∈ d.steps) :
    step.path.origin c = step.path.origin w.cwd.place :=
  Workspace.origin_eq h.resolves.there h.cwd (d.isAbsolute_path hstep)

theorem target (h : d.HasOutput c out) : (m.outputPath o).target c = out := by
  rw [Path.target, Workspace.origin_eq h.resolves.there h.cwd id, h.resolves.target, Path.target]

theorem entered (h : d.HasOutput c out) :
    (m.outputPath o).entered c = (m.outputPath o).entered w.cwd.place := by
  rw [Path.entered, Workspace.origin_eq h.resolves.there h.cwd id, Path.entered]

/-- The resources are read from where they were found. -/
theorem target_root (h : d.HasOutput c out) : m.root.target c = m.location := by
  rw [h.opened.location, Path.target, Workspace.origin_eq h.opened.there h.cwd id, Path.target]

/-- The path of the output ends with the name of the mod. -/
theorem isBelow (h : d.HasOutput c out) : (m.outputPath o).IsBelow o.outputRoot [m.name] :=
  Path.isBelow_join_step _ h.opened.isName.isStep h.opened.isName.2.2.2.1

/-- The path of the output goes down into the output. -/
theorem out_mem_entered (h : d.HasOutput c out) : out ∈ (m.outputPath o).entered c :=
  h.isBelow.mem_entered.2 (Or.inr ⟨[m.name], by simp, List.prefix_rfl,
    h.target.symm.trans (h.isBelow.2 c).1⟩)

/-- What the first step of a dump does. -/
theorem clear (h : d.HasOutput c out) {v : Workspace} {r : Option Failure}
    (hclear : Write.clearFolder w (m.outputPath o) = (v, r)) :
    v.cwd.Of c ∧ (∀ l, ¬ out <+: l → v.tree.node? l = w.tree.node? l) ∧
      (r = none → w.holds (m.outputPath o) = false ∧ v = w ∨
        ∀ l, out <+: l → l ≠ out → v.tree.node? l = none) := by
  have hspec := Write.clearFolder_spec h.cwd hclear
  rwa [h.target] at hspec

end HasOutput

end Prepared

/-- A dump that succeeds, unless it is dry, clears the output folder and performs all of its steps. -/
theorem exists_hasOutput_of_dump {m : ModFolder} {s : DumpSummary} (hground : w.IsGrounded)
    (hopened : m.IsOpened w) (hdry : o.dryRun = false) (hdump : m.toMod.dump w o = (w', .ok s)) :
    ∃ (d : Prepared m.toMod w o) (c out : Location) (v : Workspace), d.HasOutput c out ∧
      Write.clearFolder w (m.outputPath o) = (v, none) ∧
      Write.performAll m.toMod v d.steps = (w', none) := by
  rcases dump_cases hdump with ⟨_, ⟨_, hf⟩ | hnot⟩ | ⟨_, d, f, hperform, hok⟩
  · cases hf
  · rw [hdry] at hnot
    cases hnot
  obtain rfl := hok ⟨s, rfl⟩
  obtain ⟨c, out, h⟩ := d.exists_hasOutput hground hopened
  obtain ⟨v, r, hclear, ⟨rfl, hrest⟩ | ⟨hsome, rfl, _⟩⟩ := Write.performAll_cons hperform
  · exact ⟨d, c, out, v, h, hclear, hrest⟩
  · cases hsome

end Mod

end ModText
