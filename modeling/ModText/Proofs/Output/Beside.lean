import ModText.Proofs.Disk.Beside
import ModText.Proofs.Mod.Listing
import ModText.Proofs.Output.Reopening

/-!
# Writing beside one file more

The steps of a dump that succeed on a disk succeed as well where one file more lies in the folder in
which the program runs, and make the same of both. There are two exceptions, and both are about the
place of the file: it cannot be cleared as a folder, and no step can create a folder there.
-/

namespace ModText

namespace Workspace.Beside

variable {a a' b : Workspace} {here : Location} {name : String} {content : ByteArray}
  {folder file : Path}

/-! ## Single steps -/

theorem createFolder (h : Beside here name content a b)
    (hcreate : Write.createFolder a folder = (a', none))
    (hfree : a'.tree.node? (here ++ [name]) ≠ some .folder) :
    ∃ b', Write.createFolder b folder = (b', none) ∧ Beside here name content a' b' := by
  rw [Write.createFolder] at hcreate
  split at hcreate
  · rename_i hmake
    obtain ⟨rfl, _⟩ := Prod.mk.inj hcreate
    obtain ⟨b', hmake', h'⟩ := h.makeFolders hmake hfree
    exact ⟨b', by rw [Write.createFolder, hmake'], h'⟩
  · cases hcreate

theorem createParent (h : Beside here name content a b)
    (hcreate : Write.createParent a file = (a', none))
    (hfree : a'.tree.node? (here ++ [name]) ≠ some .folder) :
    ∃ b', Write.createParent b file = (b', none) ∧ Beside here name content a' b' := by
  rw [Write.createParent] at hcreate ⊢
  split at hcreate
  · exact h.createFolder hcreate hfree
  · obtain ⟨rfl, _⟩ := Prod.mk.inj hcreate
    exact ⟨b, rfl, h⟩

theorem put (h : Beside here name content a b) {written : ByteArray}
    (hput : Write.put a file written = (a', none))
    (hfree : a'.tree.node? (here ++ [name]) ≠ some .folder) :
    ∃ b', Write.put b file written = (b', none) ∧
      (b' = a' ∨ Beside here name content a' b') := by
  rw [Write.put] at hput
  split at hput
  · cases hput
  rename_i v hcreate
  split at hput
  · rename_i hwrite
    obtain ⟨rfl, _⟩ := Prod.mk.inj hput
    have hcwd : v.cwd.Of here := by
      have hgrows := Write.createParent_grows h.cwd_of file
      rw [hcreate] at hgrows
      exact hgrows.cwd ▸ h.cwd_of
    obtain ⟨_, _, hgrows, _⟩ := write?_eq_some (base_of hcwd file) hwrite
    obtain ⟨u, hcreate', hbeside⟩ := h.createParent hcreate fun hin => hfree (hgrows.folder hin)
    obtain ⟨b', hwrite', h'⟩ := hbeside.write? hwrite
    exact ⟨b', by rw [Write.put, hcreate']; simp only [hwrite'], h'⟩
  · cases hput

theorem clearFolder (h : Beside here name content a b)
    (hclear : Write.clearFolder a folder = (a', none)) (hne : folder.target here ≠ here ++ [name]) :
    ∃ b', Write.clearFolder b folder = (b', none) ∧
      (b' = a' ∨ Beside here name content a' b') ∧
      (a.holds folder → folder.target here <+: here → b' = a') := by
  rcases Write.clearFolder_cases hclear with ⟨hnot, rfl⟩ | hremove
  · have hnot' : b.holds folder = false := by
      rw [holds, Option.isSome_eq_false_iff, Option.isNone_iff_eq_none] at hnot ⊢
      refine Option.eq_none_iff_forall_ne_some.2 fun n hn => ?_
      rcases h.node?_cases hn with hn | ⟨htarget, _⟩
      · rw [hnot] at hn
        cases hn
      · exact hne htarget
    exact ⟨b, by rw [Write.clearFolder, hnot']; rfl, Or.inr h, fun hholds => by simp [hnot] at hholds⟩
  · obtain ⟨b', hremove', hin, hout⟩ := h.removeFolder hremove
    have hholds : b.holds folder := by
      obtain ⟨l, hlocate, hfolder, _⟩ := removeFolder_eq_true_iff.1 hremove'
      rw [holds, node?_of_locate hlocate, hfolder]
      rfl
    refine ⟨b', by rw [Write.clearFolder, if_pos hholds, hremove'], ?_, fun _ => hin⟩
    by_cases habove : folder.target here <+: here
    · exact Or.inl (hin habove)
    · exact Or.inr (hout habove)

variable {m : ModFolder}

/-- A step that removes nothing succeeds beside the file as it does without it. -/
theorem perform (h : Beside here name content a b) {step : Write} (hstep : step.removes = false)
    (hperform : step.perform m.toMod a = (a', none))
    (hfree : a'.tree.node? (here ++ [name]) ≠ some .folder) :
    ∃ b', step.perform m.toMod b = (b', none) ∧ (b' = a' ∨ Beside here name content a' b') := by
  cases step with
  | clear folder => cases hstep
  | create folder =>
    obtain ⟨b', hcreate, h'⟩ := h.createFolder hperform hfree
    exact ⟨b', hcreate, Or.inr h'⟩
  | save file text => exact h.put hperform hfree
  | copy resource file =>
    rw [Write.perform] at hperform ⊢
    split at hperform
    · rename_i found hread
      have hread' : m.toMod.read resource b = .ok found := by
        simp only [ModFolder.toMod, ModFolder.readFile] at hread ⊢
        split at hread
        · rename_i hsome
          rw [h.read?_mono hsome]
          exact hread
        · cases hread
      rw [hread']
      exact h.put hperform hfree
    · cases hperform

/-! ## Many steps -/

/-- Steps that remove nothing succeed beside the file if they do without it and none of them puts a
folder in its place. -/
theorem performAll {steps : List Write} (h : Beside here name content a b)
    (hadd : ∀ step ∈ steps, step.removes = false)
    (hperform : Write.performAll m.toMod a steps = (a', none))
    (hfree : a'.tree.node? (here ++ [name]) ≠ some .folder) :
    ∃ b', Write.performAll m.toMod b steps = (b', none) ∧
      (b' = a' ∨ Beside here name content a' b') := by
  induction steps generalizing a b with
  | nil =>
    obtain ⟨rfl, _⟩ := Prod.mk.inj hperform
    exact ⟨b, rfl, Or.inr h⟩
  | cons step rest ih =>
    obtain ⟨hstep, hrest⟩ := List.forall_mem_cons.1 hadd
    obtain ⟨x, _, hfirst, ⟨rfl, hothers⟩ | ⟨hsome, rfl, _⟩⟩ := Write.performAll_cons hperform
    · have hx := (Write.perform_spec h.cwd_of hstep hfirst).1
      have hgrows := Write.performAll_adds (hx.cwd ▸ h.cwd_of) hrest hothers
      obtain ⟨y, hfirst', hy⟩ := h.perform hstep hfirst fun hin => hfree (hgrows.folder hin)
      rw [Write.performAll, hfirst']
      rcases hy with rfl | hbeside
      · exact ⟨a', hothers, Or.inl rfl⟩
      · exact ih hbeside hrest hothers
    · cases hsome

end Workspace.Beside

/-! ## Planning -/

namespace ModFolder

/-- Whether a file at a place would be copied as a resource of the mod to an output at `out`. -/
def Adopts (m : ModFolder) (ignores : List String) (out l : Location) : Prop :=
  ¬ out <+: l ∧ ∃ names, m.location ++ names = l ∧ "/".intercalate names ≠ m.codeFile ∧
    "/".intercalate names ≠ buildFile ∧ ¬ Ignores ignores ("/".intercalate names)

theorem nodup_resourcesOutside {w : Workspace} {m : ModFolder} {root : Path} {codeFile : String}
    {ignores : List String} (hopen : openAt w root codeFile ignores = .ok m) (out : Location) :
    (m.resourcesOutside out).Nodup :=
  (nodup_resources hopen).filter _

end ModFolder

namespace Workspace.Beside

variable {a b : Workspace} {here out : Location} {name : String} {content : ByteArray}
  {m m' : ModFolder} {o : DumpOptions} {root : Path} {codeFile : String} {ignores : List String}

/-- A mod can be opened beside the file, and is the same but for its resources. -/
theorem exists_openAt (h : Beside here name content a b)
    (hopen : ModFolder.openAt a root codeFile ignores = .ok m) :
    ∃ m', ModFolder.openAt b root codeFile ignores = .ok m' ∧ m.Matches m' := by
  obtain ⟨_, _, hopens⟩ := ModFolder.openAt_eq_ok_iff.1 hopen
  obtain rfl := hopens.root
  obtain ⟨m', _, hopen', hmatches, _⟩ :=
    ModFolder.exists_openAt_again h.cwd_of h.cwd_of' hopen (h.base m.root ▸ h.removed_base m.root)
      (h.isFolder_iff.2 hopens.isFolder)
      (ModFolder.unlistable?_eq_none_iff.2 fun names hne hfolder =>
        ModFolder.unlistable?_eq_none_iff.1 hopens.listable names hne (h.folder_iff.1 hfolder))
  exact ⟨m', hopen', hmatches⟩

/-- If the file is no resource that is copied, the resources outside of the output are the same. -/
theorem resourcesOutside_eq (h : Beside here name content a b)
    (hvalid : ∀ pattern ∈ ignores, ∃ tokens, Glob.parse pattern = .ok tokens)
    (hopen : ModFolder.openAt a root codeFile ignores = .ok m)
    (hopen' : ModFolder.openAt b root codeFile ignores = .ok m')
    (hnot : ¬ m.Adopts ignores out (here ++ [name])) :
    m'.resourcesOutside out = m.resourcesOutside out := by
  have hmatches := ModFolder.matches_of_openAt h.cwd_of h.cwd_of' hopen hopen'
  obtain ⟨patterns, hpatterns, hopens⟩ := ModFolder.openAt_eq_ok_iff.1 hopen
  obtain ⟨patterns', hpatterns', hopens'⟩ := ModFolder.openAt_eq_ok_iff.1 hopen'
  obtain rfl : patterns' = patterns := Except.ok.inj (hpatterns'.symm.trans hpatterns)
  obtain ⟨_, hpatterns'', hdescribes⟩ := ModFolder.exists_mapM_parseIgnore hvalid
  obtain rfl := Except.ok.inj (hpatterns''.symm.trans hpatterns)
  rw [ModFolder.resourcesOutside, ModFolder.resourcesOutside, hopens.resources, hopens'.resources,
    hmatches.location]
  apply ModFolder.filter_outside_eq
  intro names found hkeep hout
  rw [h.same]
  intro hfile
  simp only [ModFolder.isResource, Bool.and_eq_true, bne_iff_ne, Bool.not_eq_true',
    ← Bool.not_eq_true, hdescribes] at hkeep
  exact hnot ⟨hfile ▸ hout, names, hfile, hopens.codeFile ▸ hkeep.1.1, hkeep.1.2, hkeep.2⟩

/-- Below a place, there are the same files and the one more. -/
theorem exists_isFileBelow_iff (h : Beside here name content a b) {l : Location}
    {names : List String} (hne : names ≠ []) (hplace : l ++ names = here ++ [name]) {file : String} :
    (∃ found, ModFolder.IsFileBelow b l file found) ↔
      file = "/".intercalate names ∨ ∃ found, ModFolder.IsFileBelow a l file found := by
  constructor
  · rintro ⟨found, names', hne', rfl, hfile⟩
    by_cases hsame : l ++ names' = here ++ [name]
    · rw [List.append_cancel_left (hsame.trans hplace.symm)]
      exact Or.inl rfl
    · rw [h.same _ hsame] at hfile
      exact Or.inr ⟨found, names', hne', rfl, hfile⟩
  · rintro (rfl | ⟨found, names', hne', rfl, hfile⟩)
    · exact ⟨content, names, hne, rfl, hplace ▸ h.file⟩
    · exact ⟨found, names', hne', rfl, h.within.tree.node?_eq_some hfile⟩

theorem not_isFileBelow (h : Beside here name content a b) {l : Location} {names : List String}
    (hne : names ≠ []) (hplace : l ++ names = here ++ [name]) (found : ByteArray) :
    ¬ ModFolder.IsFileBelow a l ("/".intercalate names) found := by
  rintro ⟨names', hne', hsame, hfile⟩
  have hnames : ∀ s ∈ names, IsName s := fun s hs =>
    FileTree.isName_of_mem h.file s (hplace ▸ List.mem_append_right l hs)
  have hnames' : ∀ s ∈ names', IsName s := fun s hs =>
    FileTree.isName_of_mem hfile s (List.mem_append_right l hs)
  have heq : names = names' := by
    rw [← Path.steps_names hne hnames, hsame, Path.steps_names hne' hnames']
  rw [← heq, hplace, h.free] at hfile
  cases hfile

/-- If the file is a resource that is copied, it is one more. -/
theorem length_resourcesOutside (h : Beside here name content a b)
    (hvalid : ∀ pattern ∈ ignores, ∃ tokens, Glob.parse pattern = .ok tokens)
    (hopen : ModFolder.openAt a root codeFile ignores = .ok m)
    (hopen' : ModFolder.openAt b root codeFile ignores = .ok m')
    (hadopts : m.Adopts ignores out (here ++ [name])) :
    (m'.resourcesOutside out).length = (m.resourcesOutside out).length + 1 := by
  have hmatches := ModFolder.matches_of_openAt h.cwd_of h.cwd_of' hopen hopen'
  obtain ⟨hout, names, hplace, hcode, hbuild, hignored⟩ := hadopts
  have hne : names ≠ [] := by
    rintro rfl
    have hfolder := (ModFolder.isOpened_of_openAt hopen).folder
    rw [← List.append_nil m.location, hplace, h.free] at hfolder
    cases hfolder
  have hsteps : (Path.mk ("/".intercalate names)).steps = names :=
    Path.steps_names hne fun s hs =>
      FileTree.isName_of_mem h.file s (hplace ▸ List.mem_append_right _ hs)
  have hcode' : codeFile = m.codeFile := by
    obtain ⟨_, _, hopens⟩ := ModFolder.openAt_eq_ok_iff.1 hopen
    exact hopens.codeFile.symm
  have hperm : (m'.resourcesOutside out).Perm ("/".intercalate names :: m.resourcesOutside out) := by
    rw [List.perm_ext_iff_of_nodup (ModFolder.nodup_resourcesOutside hopen' out)
      (List.nodup_cons.2 ⟨?_, ModFolder.nodup_resourcesOutside hopen out⟩)]
    · intro file
      rw [List.mem_cons, ModFolder.mem_resourcesOutside, ModFolder.mem_resourcesOutside,
        ModFolder.mem_resources_iff hvalid hopen, ModFolder.mem_resources_iff hvalid hopen',
        hmatches.location, h.exists_isFileBelow_iff hne hplace]
      constructor
      · rintro ⟨⟨rfl | hfile, hkept⟩, hout⟩
        · exact Or.inl rfl
        · exact Or.inr ⟨⟨hfile, hkept⟩, hout⟩
      · rintro (rfl | ⟨⟨hfile, hkept⟩, hout⟩)
        · exact ⟨⟨Or.inl rfl, hcode' ▸ hcode, hbuild, hignored⟩, by rwa [hsteps, hplace]⟩
        · exact ⟨⟨Or.inr hfile, hkept⟩, hout⟩
    · intro hmem
      obtain ⟨⟨found, hfile⟩, _⟩ :=
        (ModFolder.mem_resources_iff hvalid hopen).1 (ModFolder.mem_resourcesOutside.1 hmem).1
      exact h.not_isFileBelow hne hplace found hfile
  rw [hperm.length_eq, List.length_cons]

end Workspace.Beside

/-! ## Dumping -/

namespace Mod.Prepared

variable {w w' : Workspace} {here out : Location} {m : ModFolder} {o : DumpOptions}

/-- A program that runs at a place on the disk follows all paths from there. -/
theorem hasOutput_of_cwd (hcwd : w.cwd = .ofPlace here) (hground : w.IsGrounded)
    (hopened : m.IsOpened w) (hresolve : w.resolve? (m.outputPath o) = some out)
    (d : Prepared m.toMod w o) : d.HasOutput here out := by
  obtain ⟨c, out', h⟩ := d.exists_hasOutput hground hopened
  obtain rfl : out' = out := Option.some.inj (h.resolve.symm.trans hresolve)
  have hc := (hcwd ▸ h.cwd).place_eq rfl
  rw [Position.place_ofPlace] at hc
  exact hc ▸ h

theorem exists_run (hcwd : w.cwd = .ofPlace here) (hground : w.IsGrounded) (hopened : m.IsOpened w)
    (hresolve : w.resolve? (m.outputPath o) = some out) (hdry : o.dryRun = false) {s : DumpSummary}
    (hdump : m.toMod.dump w o = (w', .ok s)) :
    ∃ (d : Prepared m.toMod w o) (v : Workspace), d.HasOutput here out ∧
      Write.clearFolder w (m.outputPath o) = (v, none) ∧
      Write.performAll m.toMod v d.steps = (w', none) := by
  obtain ⟨d, _, _, v, _, hclear, hrest⟩ := exists_hasOutput_of_dump hground hopened hdry hdump
  exact ⟨d, v, hasOutput_of_cwd hcwd hground hopened hresolve d, hclear, hrest⟩

end Mod.Prepared

namespace Workspace.Beside

variable {a b : Workspace} {here out : Location} {name : String} {content : ByteArray}
  {m m' : ModFolder} {o : DumpOptions} {root : Path} {codeFile : String} {ignores : List String}
  {d : Mod.Prepared m.toMod a o} {s : DumpSummary} {a' b' : Workspace}

theorem exists_prepared (h : Beside here name content a b) (hname : name ≠ ModFolder.buildFile)
    (hopen : ModFolder.openAt a root codeFile ignores = .ok m)
    (hopen' : ModFolder.openAt b root codeFile ignores = .ok m') (hd : d.HasOutput here out) :
    ∃ d' : Mod.Prepared m'.toMod b o, d'.resources = m'.resourcesOutside out ∧
      d'.marked = d.marked ∧ d'.properties = d.properties := by
  apply hd.exists_prepared (ModFolder.matches_of_openAt h.cwd_of h.cwd_of' hopen hopen')
    (h.resolve?_mono hd.resolve)
  · obtain ⟨payload, hpayload⟩ := Mod.exists_code_of_load d.load
    have hread := ModFolder.readFile_eq_ok hpayload
    rw [hread, h.read?_mono hread]
  · cases hread : a.read? (m.root.join ModFolder.buildFile) with
    | some found => exact h.read?_mono hread
    | none =>
      refine Option.eq_none_iff_forall_ne_some.2 fun found hfound => ?_
      rcases h.node?_cases (read?_eq_some_iff.1 hfound) with hnode | ⟨htarget, _⟩
      · rw [read?_eq_some_iff.2 hnode] at hread
        cases hread
      · have hbelow := Path.isBelow_join_step m.root (s := ModFolder.buildFile) (by decide)
          (by decide)
        rw [(hbelow.2 here).1] at htarget
        exact hname (List.singleton_inj.1 (List.append_inj_right' htarget rfl)).symm

/-- If the file is a resource that is copied, then a dump tells of one more. -/
theorem summary_of_adopts (h : Beside here name content a b) (hname : name ≠ ModFolder.buildFile)
    (hvalid : ∀ pattern ∈ ignores, ∃ tokens, Glob.parse pattern = .ok tokens)
    (hopen : ModFolder.openAt a root codeFile ignores = .ok m)
    (hopen' : ModFolder.openAt b root codeFile ignores = .ok m') (hd : d.HasOutput here out)
    (hcopy : o.copyResources) (hadopts : m.Adopts ignores out (here ++ [name])) {s' : DumpSummary}
    (hdump : m'.toMod.dump b o = (b', .ok s')) :
    s' = { d.summary with resourcesCopied := d.summary.resourcesCopied + 1 } := by
  have hmatches := ModFolder.matches_of_openAt h.cwd_of h.cwd_of' hopen hopen'
  obtain ⟨d', hresources, hmarked, _⟩ := h.exists_prepared hname hopen hopen' hd
  have hcopied : d'.summary.resourcesCopied = d.summary.resourcesCopied + 1 := by
    simp only [Mod.Prepared.summary, if_pos hcopy]
    rw [hresources, hd.resources_eq, h.length_resourcesOutside hvalid hopen hopen' hadopts]
  rw [d'.summary_eq_of_dump hdump, Mod.Prepared.summary_congr hmatches.name hmarked, hcopied]

/-- If it is none, then a dump does the same steps and tells the same. -/
theorem exists_prepared_of_not_adopts (h : Beside here name content a b)
    (hname : name ≠ ModFolder.buildFile)
    (hvalid : ∀ pattern ∈ ignores, ∃ tokens, Glob.parse pattern = .ok tokens)
    (hopen : ModFolder.openAt a root codeFile ignores = .ok m)
    (hopen' : ModFolder.openAt b root codeFile ignores = .ok m') (hd : d.HasOutput here out)
    (hnot : o.copyResources → ¬ m.Adopts ignores out (here ++ [name])) :
    ∃ d' : Mod.Prepared m'.toMod b o, d'.summary = d.summary ∧ d'.steps = d.steps := by
  have hmatches := ModFolder.matches_of_openAt h.cwd_of h.cwd_of' hopen hopen'
  obtain ⟨d', hresources, hmarked, hproperties⟩ := h.exists_prepared hname hopen hopen' hd
  refine ⟨d', Mod.Prepared.summary_and_steps_congr hmatches.name hmarked hproperties ?_⟩
  split
  · rename_i hcopy
    rw [hresources, hd.resources_eq, h.resourcesOutside_eq hvalid hopen hopen' (hnot hcopy)]
  · rfl

/-- The steps of a dump succeed beside the file, unless a folder is to be at its place. -/
theorem performAll_dump (h : Beside here name content a b) (hd : d.HasOutput here out)
    {v : Workspace} (hclear : Write.clearFolder a (m.outputPath o) = (v, none))
    (hrest : Write.performAll m.toMod v d.steps = (a', none))
    (hfree : ¬ out <+: here → a'.tree.node? (here ++ [name]) ≠ some .folder) :
    ∃ b', Write.performAll m.toMod b (.clear (m.outputPath o) :: d.steps) = (b', none) ∧
      (b' = a' ∨ Beside here name content a' b') ∧ (out <+: here → b' = a') := by
  have hne : out ≠ here ++ [name] := by
    rintro rfl
    refine hfree (fun hin => ?_) (hd.node?_out hclear hrest)
    have hlength := hin.length_le
    rw [List.length_append, List.length_singleton] at hlength
    omega
  obtain ⟨y, hclear', hy, hequal⟩ := h.clearFolder hclear (hd.target ▸ hne)
  have hagain : ∀ {x}, Write.performAll m.toMod y d.steps = (x, none) →
      Write.performAll m.toMod b (.clear (m.outputPath o) :: d.steps) = (x, none) := by
    intro x hx
    have hfirst : (Write.clear (m.outputPath o)).perform m.toMod b = (y, none) := hclear'
    rw [Write.performAll, hfirst]
    exact hx
  by_cases hin : out <+: here
  · -- the file goes with the output
    have hfolder : a.tree.node? out = some .folder := by
      by_cases heq : out = here
      · rw [heq, h.ground]
      · exact FileTree.node?_of_prefix h.ground hin heq
    have hholds := hd.resolves.holds h.isGrounded (hd.locate h.isGrounded hclear hrest).1 hfolder
    obtain rfl := hequal hholds (hd.target ▸ hin)
    exact ⟨a', hagain hrest, Or.inl rfl, fun _ => rfl⟩
  · rcases hy with rfl | hbeside
    · exact ⟨a', hagain hrest, Or.inl rfl, fun _ => rfl⟩
    · obtain ⟨b', hrest', hb'⟩ :=
        hbeside.performAll (fun step => d.removes_of_mem_steps) hrest (hfree hin)
      exact ⟨b', hagain hrest', hb', fun hnot => absurd hnot hin⟩

/-- A dump that was done in the first workspace is done in the second one as well, with the same
summary, unless the file is a resource that is copied or a folder is to be at its place. -/
theorem exists_dump (h : Beside here name content a b) (hname : name ≠ ModFolder.buildFile)
    (hvalid : ∀ pattern ∈ ignores, ∃ tokens, Glob.parse pattern = .ok tokens)
    (hopen : ModFolder.openAt a root codeFile ignores = .ok m)
    (hopen' : ModFolder.openAt b root codeFile ignores = .ok m')
    (hresolve : a.resolve? (m.outputPath o) = some out) (hdump : m.toMod.dump a o = (a', .ok s))
    (hnot : o.copyResources → ¬ m.Adopts ignores out (here ++ [name]))
    (hfree : o.dryRun = false → ¬ out <+: here → a'.tree.node? (here ++ [name]) ≠ some .folder) :
    ∃ b', m'.toMod.dump b o = (b', .ok s) ∧ (b' = a' ∨ Beside here name content a' b') ∧
      (o.dryRun = false → out <+: here → b' = a') := by
  have hopened := ModFolder.isOpened_of_openAt hopen
  have hmatches := ModFolder.matches_of_openAt h.cwd_of h.cwd_of' hopen hopen'
  cases hdry : o.dryRun with
  | true =>
    obtain ⟨d, rfl⟩ := Mod.exists_summary_eq_of_dump hdump
    obtain ⟨d', hsummary, _⟩ := h.exists_prepared_of_not_adopts hname hvalid hopen hopen'
      (d.hasOutput_of_cwd h.cwd h.isGrounded hopened hresolve) hnot
    rw [d.dump_of_dryRun hdry] at hdump
    obtain ⟨rfl, _⟩ := Prod.mk.inj hdump
    exact ⟨b, by rw [d'.dump_of_dryRun hdry, hsummary], Or.inr h, fun hreal => nomatch hreal⟩
  | false =>
    obtain ⟨d, v, hd, hclear, hrest⟩ :=
      Mod.Prepared.exists_run h.cwd h.isGrounded hopened hresolve hdry hdump
    obtain ⟨d', hsummary, hsteps⟩ :=
      h.exists_prepared_of_not_adopts hname hvalid hopen hopen' hd hnot
    obtain ⟨b', hperform, hb', hequal⟩ := h.performAll_dump hd hclear hrest (hfree hdry)
    refine ⟨b', ?_, hb', fun _ => hequal⟩
    have hperform' :
        Write.performAll m'.toMod b (.clear (m'.outputPath o) :: d'.steps) = (b', none) := by
      rw [Write.performAll_congr hmatches.read, hmatches.outputPath, hsteps, hperform]
    rw [d.summary_eq_of_dump hdump, ← hsummary]
    exact Mod.dump_of_performAll d'.plan_eq hdry hperform'

/-- If a folder is to be at the place of the file, then the dump fails there. -/
theorem not_dump_of_folder (h : Beside here name content a b) (hname : name ≠ ModFolder.buildFile)
    (hvalid : ∀ pattern ∈ ignores, ∃ tokens, Glob.parse pattern = .ok tokens)
    (hopen : ModFolder.openAt a root codeFile ignores = .ok m)
    (hopen' : ModFolder.openAt b root codeFile ignores = .ok m')
    (hresolve : a.resolve? (m.outputPath o) = some out) (hdump : m.toMod.dump a o = (a', .ok s))
    (hnot : o.copyResources → ¬ m.Adopts ignores out (here ++ [name])) (hdry : o.dryRun = false)
    (hout : ¬ out <+: here) (hfolder : a'.tree.node? (here ++ [name]) = some .folder)
    {s' : DumpSummary} : m'.toMod.dump b o ≠ (b', .ok s') := by
  intro hdump'
  have hmatches := ModFolder.matches_of_openAt h.cwd_of h.cwd_of' hopen hopen'
  obtain ⟨d, v, hd, hclear, hrest⟩ := Mod.Prepared.exists_run h.cwd h.isGrounded
    (ModFolder.isOpened_of_openAt hopen) hresolve hdry hdump
  obtain ⟨d', v', hd', hclear', hrest'⟩ := Mod.Prepared.exists_run (h.cwd_eq.trans h.cwd)
    h.isGrounded' (ModFolder.isOpened_of_openAt hopen')
    (hmatches.outputPath o ▸ h.resolve?_mono hresolve) hdry hdump'
  obtain ⟨d'', _, hsteps⟩ := h.exists_prepared_of_not_adopts hname hvalid hopen hopen' hd hnot
  obtain rfl : d'' = d' := d'.unique d''
  have hadd : ∀ step ∈ d.steps, step.removes = false := fun step => d.removes_of_mem_steps
  obtain ⟨hvcwd, _, _⟩ := hd.clear hclear
  obtain ⟨hvcwd', _, _⟩ := hd'.clear hclear'
  -- clearing leaves the place as it was, and one of the steps makes a folder there
  have hbelow : out <+: here ++ [name] → out = here ++ [name] := fun hin =>
    (List.prefix_concat_iff.1 hin).resolve_right hout
  have hnone : v.tree.node? (here ++ [name]) = none := by
    rw [Write.node?_of_clearFolder hd.cwd hclear (hd.target ▸ hbelow) (by rw [h.free]; simp), h.free]
  have hfile : v'.tree.node? (here ++ [name]) = some (.file content) := by
    rw [Write.node?_of_clearFolder hd'.cwd hclear' (hd'.target ▸ hbelow) (by rw [h.file]; simp),
      h.file]
  obtain ⟨step, hstep, hin, hwrites⟩ := (Write.performAll_node_of_free (I := fun _ => True) hvcwd
    trivial hadd (fun _ _ _ _ _ => trivial) hrest hnone).1.1 hfolder
  rw [hsteps] at hrest'
  have hfolder' := (Write.performAll_nodes (I := fun _ => True) hvcwd' trivial hadd
    (fun _ _ _ _ _ => trivial) hrest' hstep).2 _ hin hwrites
  rcases (Write.performAll_adds hvcwd' hadd hrest').file hfile with hkept | ⟨_, _, hkept⟩
  · rw [hfolder'] at hkept
    cases hkept
  · rw [hfolder'] at hkept
    cases hkept

end Workspace.Beside

end ModText
