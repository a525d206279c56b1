import ModText.Proofs.Output.Sources

/-!
# Performing the same steps again

After a dump that succeeded, the same steps succeed again on what it has left and leave the same,
provided that the path of the output can still be followed. If the output was there before, then
clearing leaves what it left the first time, and all that follows is the same. If it was not there,
then there was nothing to clear the first time, so the folders that its path goes through may be left
now. But they are among the folders that the first step creates, whichever it is: after that step
there is no difference any more.
-/

namespace ModText

namespace Write

variable {m : Mod} {a b u x : Workspace} {c : Location} {root : Path}

/-! ## The first step -/

theorem createFolder_again (hcwd : u.cwd.Of c) (hground : a.IsGrounded) {folder : Path}
    (hthere : (u.base folder).removed = 0) (h : u.Between a b)
    (hmore : ∀ l, l ∉ folder.entered c → b.tree.node? l = a.tree.node? l)
    (hx : x.Grows (fun _ => True) (fun _ _ => True) u) (ha : createFolder a folder = (x, none)) :
    createFolder b folder = (x, none) := by
  rw [createFolder] at ha ⊢
  split at ha
  · rename_i hmake
    obtain ⟨rfl, _⟩ := Prod.mk.inj ha
    have hmade := (Workspace.makeFolders_spec (h.lower.cwd ▸ hcwd) hmake).2 rfl
    have hfolders : ∀ l ∈ folder.entered c, u.tree.node? l = some .folder := fun l hl =>
      hx.folder (hmade l hl)
    rw [Workspace.makeFolders_again hcwd hground hthere hfolders h hmore hmake]
  · cases ha

/-- The parent of what lies right below a path goes down into all that the path goes down into. -/
theorem entered_subset_parent {file folder : Path} {name : String}
    (hbelow : file.IsBelow root [name]) (hparent : file.parent? = some folder) :
    root.entered c ⊆ folder.entered c := by
  have hname : IsStep name := hbelow.1 name List.mem_cons_self
  have hentered := (hbelow.2 c).2
  rw [Location.entered_singleton _ hname] at hentered
  rcases Path.entered_of_parent?_eq_some hparent c with heq | heq
  · rw [← heq, hentered]
    exact List.subset_append_left _ _
  · rw [hentered] at heq
    rw [(List.append_inj' heq rfl).1]
    exact List.Subset.refl _

theorem put_again (hcwd : u.cwd.Of c) (hground : a.IsGrounded) {file : Path} {name : String}
    (hbelow : file.IsBelow root [name]) (hthere : (u.base file).removed = 0) (h : u.Between a b)
    (hmore : ∀ l, l ∉ root.entered c → b.tree.node? l = a.tree.node? l) {content : ByteArray}
    (hx : x.Grows (fun _ => True) (fun _ _ => True) u) (ha : put a file content = (x, none)) :
    put b file content = (x, none) := by
  have hcwda : a.cwd.Of c := h.lower.cwd ▸ hcwd
  obtain ⟨_, hmem, _⟩ := (put_spec hcwda ha).2 rfl
  have hparent : ∀ {y : Workspace}, y.Grows (fun _ => True) (fun _ _ => True) u →
      createParent a file = (y, none) → createParent b file = (y, none) := by
    intro y hy hcreate
    rw [createParent] at hcreate ⊢
    cases hfolder : file.parent? with
    | none =>
      rw [Path.entered_of_parent?_eq_none hfolder] at hmem
      cases hmem
    | some folder =>
      rw [hfolder] at hcreate
      have htherefolder : (u.base folder).removed = 0 := by
        refine Workspace.removed_base (fun habsolute => ?_) hthere
        rwa [Path.isAbsolute_ancestors (Path.mem_ancestors_of_parent? hfolder)]
      apply createFolder_again hcwd hground htherefolder h _ hy hcreate
      intro l hl
      exact hmore l fun hroot => hl (entered_subset_parent hbelow hfolder hroot)
  rw [put] at ha ⊢
  split at ha
  · cases ha
  · rename_i y hcreate
    split at ha
    · rename_i hwrite
      obtain ⟨rfl, _⟩ := Prod.mk.inj ha
      have hycwd : y.cwd.Of c := by
        have hgrows := createParent_grows hcwda file
        rw [hcreate] at hgrows
        exact hgrows.cwd ▸ hcwda
      obtain ⟨_, _, hgrows, _⟩ := Workspace.write?_eq_some (Workspace.base_of hycwd file) hwrite
      have hy := (hgrows.mono (fun _ _ => trivial) fun _ _ _ => trivial).trans hx
      rw [hparent hy hcreate]
      simp only
      rw [hwrite]
    · cases ha

/-- A step that puts something right below a path begins with the folders that the path goes down
into. -/
theorem perform_again (hcwd : u.cwd.Of c) (hground : a.IsGrounded) {step : Write} {name : String}
    (hstep : (∃ folder, step = .create folder) ∨ ∃ file text, step = .save file text)
    (hbelow : step.path.IsBelow root [name]) (hthere : (u.base step.path).removed = 0)
    (h : u.Between a b) (hmore : ∀ l, l ∉ root.entered c → b.tree.node? l = a.tree.node? l)
    (hx : x.Grows (fun _ => True) (fun _ _ => True) u) (ha : step.perform m a = (x, none)) :
    step.perform m b = (x, none) := by
  rcases hstep with ⟨folder, rfl⟩ | ⟨file, text, rfl⟩
  · apply createFolder_again hcwd hground hthere h _ hx ha
    intro l hl
    exact hmore l fun hroot => hl (hbelow.mem_entered.2 (Or.inl hroot))
  · exact put_again hcwd hground hbelow hthere h hmore hx ha

end Write

namespace Mod.Prepared

variable {m : ModFolder} {w v w' : Workspace} {o : DumpOptions} {c out : Location}
  {d : Prepared m.toMod w o}

/-- The first step after clearing puts something right into the output folder. -/
theorem exists_steps_eq_cons (d : Prepared m.toMod w o) :
    ∃ step rest name, d.steps = step :: rest ∧ step.path.IsBelow (m.outputPath o) [name] ∧
      ((∃ folder, step = .create folder) ∨ ∃ file text, step = .save file text) := by
  rw [steps, generated]
  cases Category.select o.categories with
  | nil =>
    exact ⟨_, _, _, rfl, Layout.buildFile_isBelow _, Or.inr ⟨_, _, rfl⟩⟩
  | cons k selection =>
    exact ⟨_, _, _, rfl, Layout.categoryFolder_isBelow _ k, Or.inl ⟨_, rfl⟩⟩

/-! ## What a dump has left -/

/-- What is known of the disk after a dump: its output is a folder to which the path `p` leads, it was
no file before, and everything else is as it was. -/
structure Leaves (w : Workspace) (p : Path) (c out : Location) (w' : Workspace) : Prop where
  cwd : w'.cwd.Of c
  isGrounded : w'.IsGrounded
  locate : w'.locate p = .ok out
  folder : w'.tree.node? out = some .folder
  old : ∀ content, w.tree.node? out ≠ some (.file content)
  confined : w.ConfinedTo out w'

namespace Leaves

variable {p : Path} {l : Location}

theorem isFolder (h : Leaves w p c out w') : w'.isFolder p := by
  rw [Workspace.isFolder, Workspace.node?_of_locate h.locate, h.folder]
  rfl

theorem entered (h : Leaves w p c out w') : ∀ l ∈ p.entered c, w'.tree.node? l = some .folder :=
  Workspace.folder_of_mem_entered (Workspace.base_of h.cwd p) h.isFolder

/-- What was there stays, unless it lies in the output. -/
theorem kept (h : Leaves w p c out w') {n : Node} (hl : out <+: l → l = out)
    (hn : w.tree.node? l = some n) : w'.tree.node? l = some n := by
  by_cases hin : out <+: l
  · obtain rfl := hl hin
    cases n with
    | folder => exact h.folder
    | file content => exact absurd hn (h.old content)
  · exact h.confined.kept hin hn

/-- There is no other file than before, unless it lies in the output. -/
theorem file_iff (h : Leaves w p c out w') (hl : out <+: l → l = out) {content : ByteArray} :
    w'.tree.node? l = some (.file content) ↔ w.tree.node? l = some (.file content) := by
  by_cases hin : out <+: l
  · obtain rfl := hl hin
    rw [h.folder]
    exact iff_of_false nofun (h.old content)
  · exact h.confined.file_iff hin

end Leaves

namespace HasOutput

theorem spares_of_clear (h : d.HasOutput c out) (hflat : d.IsFlat) (hground : w.IsGrounded)
    (hclear : Write.clearFolder w (m.outputPath o) = (v, none))
    (hrest : Write.performAll m.toMod v d.steps = (w', none)) : Spares w c out w' := by
  have hfirst : (Write.clear (m.outputPath o)).perform m.toMod w = (v, none) := hclear
  apply h.spares hflat hground (f := none)
  rw [Write.performAll, hfirst]
  exact hrest

theorem leaves (h : d.HasOutput c out) (hflat : d.IsFlat) (hground : w.IsGrounded)
    (hclear : Write.clearFolder w (m.outputPath o) = (v, none))
    (hrest : Write.performAll m.toMod v d.steps = (w', none)) :
    Leaves w (m.outputPath o) c out w' := by
  have hspares := h.spares_of_clear hflat hground hclear hrest
  have hfolder := h.node?_out hclear hrest
  refine ⟨hspares.cwd, hspares.isGrounded, (h.locate hground hclear hrest).2, hfolder,
    fun content hfile => ?_, hspares.confined⟩
  rw [← hspares.file content, hfolder] at hfile
  cases hfile

/-! ## Clearing again -/

/-- If the output was there before, then it is cleared again to what was left the first time. -/
theorem clear_again_of_there (h : d.HasOutput c out) (hleaves : Leaves w (m.outputPath o) c out w')
    (hcwd : w'.cwd = v.cwd) (hthere : (w'.base (m.outputPath o)).removed = 0)
    (hremove : w.removeFolder (m.outputPath o) = (v, true)) :
    Write.clearFolder w' (m.outputPath o) = (v, none) := by
  have hold := Workspace.folder_of_removeFolder h.cwd hremove
  have hagain : w'.removeFolder (m.outputPath o) = (v, true) := by
    apply Workspace.removeFolder_again h.cwd h.resolves.there hremove hthere hcwd
    · rw [hleaves.locate, h.target]
    · rw [h.target, hleaves.folder]
    · intro l hl
      rw [h.target] at hl hold
      refine Decidable.byContradiction fun hchanged => ?_
      rcases hleaves.confined l hchanged with hin | ⟨habove, hnone, _⟩
      · exact hl hin
      · rw [FileTree.node?_of_prefix hold habove fun heq => hl (heq ▸ List.prefix_rfl)] at hnone
        cases hnone
  have hholds : w'.holds (m.outputPath o) := by
    rw [Workspace.holds, Workspace.node?_of_locate hleaves.locate, hleaves.folder]
    rfl
  rw [Write.clearFolder, if_pos hholds, hagain]

/-- If the output was not there before, then clearing leaves at most folders more than there were,
all of them on the way of its path. -/
theorem clear_again_of_free (h : d.HasOutput c out) (hground : w.IsGrounded)
    (hleaves : Leaves w (m.outputPath o) c out w') (hcwd : w'.cwd = w.cwd)
    (hthere : (w'.base (m.outputPath o)).removed = 0)
    (hcheck : Workspace.check (m.outputPath o) = .ok ())
    (hfree : ∀ l, out <+: l → w.tree.node? l = none) :
    ∃ u, Write.clearFolder w' (m.outputPath o) = (u, none) ∧ w'.Between w u ∧
      ∀ l, l ∉ (m.outputPath o).entered c → u.tree.node? l = w.tree.node? l := by
  have hbase := Workspace.node?_base hground (m.outputPath o)
  have hout : ¬ (m.outputPath o).target c <+: w'.cwd.place := by
    rw [h.target, hcwd]
    intro hin
    have hnone := hfree _ hin
    rw [hground] at hnone
    cases hnone
  obtain ⟨front, idle, hsegments, _, _⟩ := Path.segments_join (p := o.outputRoot)
    (Path.isAbsolute_of_not_mem h.opened.isName.2.2.2.1)
  rw [Path.segments_of_not_mem h.opened.isName.2.2.2.1] at hsegments
  obtain ⟨q, hleads⟩ :=
    Workspace.exists_leadsTo hleaves.isGrounded hleaves.cwd hthere hleaves.entered
  obtain ⟨u, hremove, hwithin⟩ := Workspace.exists_removeFolder hleaves.cwd hleaves.isGrounded
    hleads hcheck hsegments h.opened.isName.isStep hout
  have hholds : w'.holds (m.outputPath o) := by
    rw [Workspace.holds, Workspace.node?_of_locate hleaves.locate, hleaves.folder]
    rfl
  obtain ⟨_, hframe, hgone⟩ := Workspace.removeFolder_spec hleaves.cwd hremove
  rw [h.target] at hframe hgone
  -- all that the first run has created outside of the output lies on the way of its path
  have hsame : ∀ l, ¬ out <+: l → l ∉ (m.outputPath o).entered c →
      w'.tree.node? l = w.tree.node? l := by
    intro l hl hentered
    refine Decidable.byContradiction fun hchanged => ?_
    rcases hleaves.confined l hchanged with hin | ⟨habove, hnone, _⟩
    · exact hl hin
    · rw [← h.target] at habove
      rcases Location.prefix_or_mem_entered habove with horigin | hmem
      · rw [(Workspace.base_of h.cwd _).place_eq h.resolves.there] at hbase
        by_cases heq : l = (m.outputPath o).origin c
        · rw [heq, hbase] at hnone
          cases hnone
        · rw [FileTree.node?_of_prefix hbase horigin heq] at hnone
          cases hnone
      · exact hentered hmem
  have hold : ∀ {l n}, w.tree.node? l = some n →
      ¬ out <+: l ∧ w'.tree.node? l = some n := by
    intro l n hn
    have hl : ¬ out <+: l := by
      intro hin
      rw [hfree l hin] at hn
      cases hn
    exact ⟨hl, hleaves.kept (fun hin => absurd hin hl) hn⟩
  refine ⟨u, ?_, ⟨⟨hcwd.symm, fun l => ?_⟩, hwithin, fun l hl => ?_⟩, fun l hl => ?_⟩
  · rw [Write.clearFolder, if_pos hholds, hremove]
  · cases hn : w.tree.node? l with
    | none => exact Or.inr rfl
    | some n => exact Or.inl (hold hn).2.symm
  · obtain ⟨n, hn⟩ := Option.isSome_iff_exists.1 hl
    rw [hframe l (hold hn).1, (hold hn).2]
    rfl
  · by_cases hin : out <+: l
    · have hne : l ≠ out := fun heq => hl (heq ▸ h.out_mem_entered)
      rw [hgone rfl l hin hne, hfree l hin]
    · rw [hframe l hin, hsame l hin hl]

/-! ## All steps again -/

/-- **The steps of a dump succeed again and leave what they left**, as long as the path of the output
can be followed from the disk. -/
theorem performAll_again (h : d.HasOutput c out) (hflat : d.IsFlat) (hground : w.IsGrounded)
    (hclear : Write.clearFolder w (m.outputPath o) = (v, none))
    (hrest : Write.performAll m.toMod v d.steps = (w', none))
    (hthere : (w'.base (m.outputPath o)).removed = 0) :
    Write.performAll m.toMod w' (.clear (m.outputPath o) :: d.steps) = (w', none) := by
  have hleaves := h.leaves hflat hground hclear hrest
  obtain ⟨hvcwd, _, _⟩ := h.clear hclear
  have hadd : ∀ step ∈ d.steps, step.removes = false := fun step => d.removes_of_mem_steps
  have hgrows := Write.performAll_adds hvcwd hadd hrest
  have hagain : ∀ {u : Workspace}, Write.clearFolder w' (m.outputPath o) = (u, none) →
      Write.performAll m.toMod w' (.clear (m.outputPath o) :: d.steps) =
        Write.performAll m.toMod u d.steps := by
    intro u hu
    have hfirst : (Write.clear (m.outputPath o)).perform m.toMod w' = (u, none) := hu
    rw [Write.performAll, hfirst]
  rcases Write.clearFolder_cases hclear with ⟨hnot, rfl⟩ | hremove
  · have hcheck := (h.locate hground hclear hrest).1
    have hfree : ∀ l, out <+: l → v.tree.node? l = none := by
      rintro l ⟨k, rfl⟩
      by_cases hk : k = []
      · rw [hk, List.append_nil]
        cases hn : v.tree.node? out with
        | none => rfl
        | some n =>
          cases n with
          | file content => exact absurd hn (hleaves.old content)
          | folder =>
            rw [h.resolves.holds hground hcheck hn] at hnot
            cases hnot
      · exact h.node?_of_clear hground hcheck hclear hk
    obtain ⟨u, hu, hbetween, hmore⟩ :=
      h.clear_again_of_free hground hleaves hgrows.cwd hthere hcheck hfree
    rw [hagain hu]
    -- the first step leaves the same in both runs, and so do the others after it
    obtain ⟨step, rest, name, hsteps, hbelow, hstep⟩ := d.exists_steps_eq_cons
    rw [hsteps] at hadd hrest ⊢
    obtain ⟨x, s, hperform, ⟨rfl, hothers⟩ | ⟨hsome, rfl, _⟩⟩ := Write.performAll_cons hrest
    · have hx := (Write.perform_spec hvcwd (hadd step List.mem_cons_self) hperform).1
      have hothersgrow := Write.performAll_adds (hx.cwd ▸ hvcwd)
        (fun r hr => hadd r (List.mem_cons_of_mem step hr)) hothers
      have hsteppath : (w'.base step.path).removed = 0 := by
        refine Workspace.removed_base (fun habsolute => ?_) hthere
        exact d.isAbsolute_path (hsteps ▸ List.mem_cons_self) habsolute
      rw [Write.performAll, Write.perform_again hleaves.cwd hground hstep hbelow hsteppath hbetween
        hmore (hothersgrow.mono (fun _ _ => trivial) fun _ _ _ => trivial) hperform]
      exact hothers
    · cases hsome
  · rw [hagain (h.clear_again_of_there hleaves hgrows.cwd hthere hremove)]
    exact hrest

end HasOutput

end Mod.Prepared

end ModText
