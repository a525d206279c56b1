import ModText.Proofs.Output.Tree

/-!
# What copying resources does to generated files

Resources are copied last, and a resource goes to the place of its own names, whatever has been
generated for that place. So a generated file is in the end as it was generated exactly where no
resource takes its place; where one does, the file is a copy of the resource. This holds for every
module, whatever places the namespaces of its records lead to. If several documents are generated for one
place, it is the last of them that counts.
-/

namespace ModText

namespace Mod

/-- The documents that are generated for a category, each with its file. -/
def categoryDocuments (l : Layout) (e : Extraction) (c : Category) : List (Path × Json) :=
  match e.groups c with
  | .ok groups =>
    groups.map fun g => (l.namespaceFile c g.namespaceName, .ofList Record.toJson g.records)
  | .error _ => []

/-- The documents that a dump generates, in the order in which they are written, each with its
file. -/
def documents (m : Mod) (o : DumpOptions) (marked : Module) (properties : Properties) :
    List (Path × Json) :=
  let layout := Layout.ofMod o.outputRoot m.name
  [(layout.buildFile, properties.toJson),
    (layout.identityFile, (ModIdentity.ofProperties m.name properties).toJson)] ++
  (Category.select o.categories).flatMap (categoryDocuments layout (extracted o marked))

/-- What is generated is written document by document, once the folders of the categories are
there. -/
theorem generated_eq_documents (m : Mod) (o : DumpOptions) (marked : Module)
    (properties : Properties) :
    m.generated o marked properties =
      ((Category.select o.categories).map fun c =>
        .create ((Layout.ofMod o.outputRoot m.name).categoryFolder c)) ++
      (m.documents o marked properties).map fun d => .document d.1 d.2 := by
  have hcategory : (Layout.ofMod o.outputRoot m.name).categoryWrites (extracted o marked) =
      fun c => (categoryDocuments (Layout.ofMod o.outputRoot m.name) (extracted o marked) c).map
        fun d => Write.document d.1 d.2 := by
    funext c
    rw [Layout.categoryWrites, categoryDocuments]
    cases (extracted o marked).groups c with
    | ok groups => simp [Layout.groupWrite]
    | error missing => rfl
  rw [generated, documents, List.map_append, List.map_flatMap, hcategory]
  rfl

namespace Prepared

variable {m : ModFolder} {w : Workspace} {o : DumpOptions} {c out l : Location} {step : Write}
  {d : Prepared m.toMod w o}

/-- While resources are copied, the program runs where it did and the files outside of the output
folder are the same as before. -/
structure Copying (x : Workspace) (c out : Location) (v : Workspace) : Prop where
  cwd : v.cwd.Of c
  files : ∀ l content, ¬ out <+: l →
    (v.tree.node? l = some (.file content) ↔ x.tree.node? l = some (.file content))

namespace HasOutput

theorem copying_perform (h : d.HasOutput c out) (hstep : step ∈ m.toMod.copies o d.resources)
    {x v : Workspace} (hv : Copying x c out v) : Copying x c out (step.perform m.toMod v).1 := by
  obtain ⟨u, f, hperform⟩ : ∃ u f, step.perform m.toMod v = (u, f) := ⟨_, _, rfl⟩
  rw [hperform]
  have hgrows := (Write.perform_spec hv.cwd
    (d.removes_of_mem_steps (d.mem_steps.2 (Or.inr hstep))) hperform).1
  refine ⟨hgrows.cwd ▸ hv.cwd, fun l content hl => ?_⟩
  rw [← hv.files l content hl]
  rcases hgrows.node? l with hsame | ⟨_, hfree, hfolder⟩ | ⟨_, _, ⟨hwrites, _⟩, _⟩
  · rw [hsame]
  · simp [hfree, hfolder]
  · obtain ⟨names, path, _, _, _, rfl, hpath⟩ := h.copy_cases hstep
    rw [Write.writesAt_iff rfl, (hpath.2 c).1, h.target] at hwrites
    exact absurd (hwrites ▸ List.prefix_append out names) hl

/-- After resources have been copied, every copy is as the resource is. -/
theorem node?_of_copies (h : d.HasOutput c out) {x w' : Workspace} (hcwd : x.cwd.Of c)
    (hcopy : Write.performAll m.toMod x (m.toMod.copies o d.resources) = (w', none))
    {names : Location} (hnames : m.Copies o out names) :
    ∃ content, w'.tree.node? (m.location ++ names) = some (.file content) ∧
      w'.tree.node? (out ++ names) = some (.file content) := by
  have hadd : ∀ step ∈ m.toMod.copies o d.resources, step.removes = false := fun step hstep =>
    d.removes_of_mem_steps (d.mem_steps.2 (Or.inr hstep))
  have hx : Copying x c out x := ⟨hcwd, fun _ _ _ => Iff.rfl⟩
  have hkept : ∀ step ∈ m.toMod.copies o d.resources, ∀ v, v.cwd.Of c → Copying x c out v →
      Copying x c out (step.perform m.toMod v).1 := fun step hstep v _ => h.copying_perform hstep
  obtain ⟨_, hw'⟩ := Write.performAll_grows hcwd hx hadd hkept hcopy
  obtain ⟨step, hstep, hwrites⟩ : ∃ step ∈ m.toMod.copies o d.resources,
      step.WritesAt c (out ++ names) := by
    obtain ⟨_, path, hstep, hpath⟩ := h.exists_step_of_copies hnames
    exact ⟨_, hstep, (Write.writesAt_iff rfl).2 ((h.target_eq_iff hpath).2 rfl)⟩
  obtain ⟨content, ⟨again, hagain, hplace, v, hv, hcontent⟩, hnode⟩ :=
    (Write.performAll_nodes hcwd hx hadd hkept hcopy hstep).1 _ hwrites
  refine ⟨content, ?_, hnode⟩
  -- whatever has been copied there has the same names, so it is this resource
  obtain ⟨names', path, hcopies, hne, hnames', rfl, hpath⟩ := h.copy_cases hagain
  rw [Write.writesAt_iff rfl, h.target_eq_iff hpath] at hplace
  obtain rfl := hplace
  have hread := h.node?_of_read hv.cwd hne hnames' (eq_ok_of_toOption hcontent)
  obtain ⟨_, _, _, houtside⟩ := hcopies.2
  rwa [hw'.files _ _ houtside, ← hv.files _ _ houtside]

/-- Documents go where their paths lead before the dump. -/
theorem target_of_document (h : d.HasOutput c out) {q : Path × Json}
    (hq : q ∈ m.toMod.documents o d.marked d.properties) :
    q.1.target c = q.1.target w.cwd.place := by
  have hstep : .document q.1 q.2 ∈ d.steps := by
    rw [Prepared.steps, generated_eq_documents]
    exact List.mem_append_left _ (List.mem_append_right _ (List.mem_map.2 ⟨q, hq, rfl⟩))
  have hsame := h.origin hstep
  rw [Write.path_document] at hsame
  rw [Path.target, hsame, Path.target]

/-- What is generated last for a place is there in the end, unless a resource is copied to it. -/
theorem node?_of_document (h : d.HasOutput c out) {v w' : Workspace} (hcwd : v.cwd.Of c)
    (hrest : Write.performAll m.toMod v d.steps = (w', none)) {front back : List (Path × Json)}
    {file : Path} {j : Json}
    (hdocuments : m.toMod.documents o d.marked d.properties = front ++ (file, j) :: back)
    (hlast : ∀ q ∈ back, q.1.target c ≠ file.target c)
    (hfree : ∀ names, m.Copies o out names → out ++ names ≠ file.target c) :
    w'.tree.node? (file.target c) = some (.file (j.toPretty ++ "\n").toUTF8) := by
  have hsteps : d.steps = (((Category.select o.categories).map fun k =>
        .create ((Layout.ofMod o.outputRoot m.toMod.name).categoryFolder k)) ++
      front.map fun q => .document q.1 q.2) ++ .document file j ::
      ((back.map fun q => .document q.1 q.2) ++ m.toMod.copies o d.resources) := by
    rw [Prepared.steps, generated_eq_documents, hdocuments]
    simp
  have hlater : ∀ r ∈ (back.map fun q => Write.document q.1 q.2) ++ m.toMod.copies o d.resources,
      ¬ r.WritesAt c (file.target c) := by
    intro r hr hwrites
    rcases List.mem_append.1 hr with hr | hr
    · obtain ⟨q, hq, rfl⟩ := List.mem_map.1 hr
      exact hlast q hq ((Write.writesAt_iff rfl).1 hwrites)
    · obtain ⟨names, path, hcopies, _, _, rfl, hpath⟩ := h.copy_cases hr
      rw [Write.writesAt_iff rfl, (hpath.2 c).1, h.target] at hwrites
      exact hfree names hcopies hwrites
  have hadd : ∀ r ∈ d.steps, r.removes = false := fun r => d.removes_of_mem_steps
  rw [hsteps] at hrest hadd
  obtain ⟨u, content, _, hcontent, hnode⟩ :=
    Write.performAll_last hcwd hadd hrest ((Write.writesAt_iff rfl).2 rfl) hlater
  rw [Write.content?_document] at hcontent
  rw [hnode, ← Option.some.inj hcontent]

end HasOutput

end Prepared

/-- **Where a dump leaves what it has generated.** After a dump that succeeds, the last document that
is generated for a place is there as it was generated if no resource is copied to that place. If one
is, then the file is as the resource is, whatever was generated. -/
theorem dump_documents_or_resources {m : ModFolder} {w w' : Workspace} {o : DumpOptions}
    {root : Path} {codeFile : String} {ignores : List String} {s : DumpSummary}
    (hground : w.IsGrounded) (hopen : ModFolder.openAt w root codeFile ignores = .ok m)
    (hdry : o.dryRun = false) (hdump : m.toMod.dump w o = (w', .ok s)) :
    let out := (m.outputPath o).target w.cwd.place
    ∃ marked properties, m.toMod.load w o.markers = .ok marked ∧
      m.toMod.properties w = .ok properties ∧
      ∀ front file j back, m.toMod.documents o marked properties = front ++ (file, j) :: back →
        let place := file.target w.cwd.place
        (∀ q ∈ back, q.1.target w.cwd.place ≠ place) →
          ((∀ names, m.Copies o out names → out ++ names ≠ place) →
            w'.tree.node? place = some (.file (j.toPretty ++ "\n").toUTF8)) ∧
          ∀ names, m.Copies o out names → out ++ names = place →
            ∃ content, w'.tree.node? (m.location ++ names) = some (.file content) ∧
              w'.tree.node? place = some (.file content) := by
  intro out
  obtain ⟨d, c, place, v, h, hclear, hrest⟩ :=
    exists_hasOutput_of_dump hground (ModFolder.isOpened_of_openAt hopen) hdry hdump
  obtain rfl : place = out := h.resolves.target
  obtain ⟨hcwd, _, _⟩ := h.clear hclear
  refine ⟨d.marked, d.properties, d.load, d.parse, fun front file j back hdocuments => ?_⟩
  have hfile : file.target c = file.target w.cwd.place :=
    h.target_of_document (show (file, j) ∈ _ by simp [hdocuments])
  simp only
  rw [← hfile]
  intro hlast
  constructor
  · refine h.node?_of_document hcwd hrest hdocuments fun q hq => ?_
    rw [h.target_of_document (by simp [hdocuments, hq])]
    exact hlast q hq
  · intro names hcopies hplace
    rw [← hplace]
    obtain ⟨x, hgenerated, hcopy⟩ := Write.performAll_append hrest
    have hx := (Write.performAll_grows (I := fun _ => True) hcwd trivial
      (fun step hstep => d.removes_of_mem_steps (d.mem_steps.2 (Or.inl hstep)))
      (fun _ _ _ _ _ => trivial) hgenerated).1
    exact h.node?_of_copies (hx.cwd ▸ hcwd) hcopy hcopies

/-! ### A resource in the place of extracted texts -/

/-- A disk with a mod that has one text, and a resource where the file of that text goes. -/
def shadedWorkspace : Workspace :=
  let w := ((⟨.empty, {}⟩ : Workspace).makeFolders ⟨"in/Mod/Misc"⟩).1
  let w := (w.write? ⟨"in/Mod/module.json"⟩ chattyCode).getD w
  (w.write? ⟨"in/Mod/Misc/N.json"⟩ "mine".toUTF8).getD w

/-- The mod as it is opened. -/
def shadedMod : ModFolder :=
  ⟨⟨"in/Mod"⟩, ["in", "Mod"], "Mod", "module.json", ["Misc/N.json"]⟩

theorem dump_documents_or_resources_of_shaded :
    ∃ w' s, shadedMod.toMod.dump shadedWorkspace chattyOptions = (w', .ok s) ∧
      w'.tree.node? ["out", "Mod", "Info.json"] = some (.file "\x7b\x7d\n".toUTF8) ∧
      w'.tree.node? ["out", "Mod", "Misc", "N.json"] = some (.file "mine".toUTF8) := by
  have hopen : ModFolder.openAt shadedWorkspace ⟨"in/Mod"⟩ "module.json" [] = .ok shadedMod :=
    eq_ok_of_toOption (by decide +kernel)
  have hdone : (shadedMod.toMod.dump shadedWorkspace chattyOptions).2.toOption.isSome ∧
      (shadedMod.toMod.dump shadedWorkspace chattyOptions).1.tree.node?
        ["in", "Mod", "Misc", "N.json"] = some (.file "mine".toUTF8) := by
    decide +kernel
  have hcode : shadedMod.toMod.code shadedWorkspace = .ok chattyCode :=
    eq_ok_of_toOption (by decide +kernel)
  have hparse : shadedMod.toMod.properties shadedWorkspace = .ok {} :=
    eq_ok_of_toOption (by decide +kernel)
  generalize hdump : shadedMod.toMod.dump shadedWorkspace chattyOptions = result at hdone
  obtain ⟨w', r⟩ := result
  obtain ⟨hok, hresource⟩ := hdone
  obtain ⟨s, rfl⟩ := exists_eq_ok hok
  obtain ⟨marked, properties, hload, hparse', hdocuments⟩ :=
    dump_documents_or_resources (by decide +kernel) hopen rfl hdump
  obtain rfl : marked = chattyModule.mark {} := by
    rw [load, hcode] at hload
    simp only [bind, Except.bind, ofPayload_chattyCode] at hload
    exact (Except.ok.inj hload).symm
  obtain rfl : properties = {} := Except.ok.inj (hparse'.symm.trans hparse)
  have hfiles : ((Category.select chattyOptions.categories).flatMap
      (categoryDocuments (Layout.ofMod chattyOptions.outputRoot shadedMod.toMod.name)
        (extracted chattyOptions (chattyModule.mark {})))).map Prod.fst =
      [⟨"out/Mod/Misc/N.json"⟩] := by
    decide +kernel
  obtain ⟨⟨file, j⟩, htexts, rfl⟩ := List.map_eq_singleton_iff.1 hfiles
  rw [documents, htexts] at hdocuments
  have hlater : ∀ p ∈ [(Layout.ofMod chattyOptions.outputRoot shadedMod.toMod.name).identityFile,
      ⟨"out/Mod/Misc/N.json"⟩], p.target shadedWorkspace.cwd.place ≠ ["out", "Mod", "Info.json"] := by
    decide +kernel
  refine ⟨w', s, rfl, ?_, ?_⟩
  · refine (hdocuments [] _ _ _ rfl fun q hq => hlater q.1 (List.mem_map_of_mem hq)).1 ?_
    rintro names ⟨_, resource, hresource, rfl, _⟩
    rw [List.mem_singleton.1 hresource]
    decide +kernel
  · obtain ⟨content, hfrom, hto⟩ := (hdocuments [_, _] _ j [] rfl (by simp)).2 ["Misc", "N.json"]
      ⟨rfl, "Misc/N.json", by decide, by decide +kernel, by decide +kernel⟩ (by decide +kernel)
    rw [← hresource]
    exact hto.trans hfrom.symm

end Mod

end ModText
