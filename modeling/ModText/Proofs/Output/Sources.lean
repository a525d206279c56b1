import ModText.Proofs.Disk.Again
import ModText.Proofs.Mod.Listing
import ModText.Proofs.Output.Confinement
import ModText.Proofs.Output.Guard
import ModText.Proofs.Output.Tree

/-!
# What a dump leaves of the mod it reads

The output of a dump may lie inside the mod, and all that lies in the output is removed to begin
with. What does not lie there stays as it is, whatever comes of the dump: the resources that are not
excluded, the code, and the build properties, which lie right in the mod and so never in the output.

This is what is on the disk. A mod is read by its path, though, and if that goes down into the
output on its way, then clearing takes the way. So what was read before a dump is read afterwards or
cannot be read any more, and the latter does not happen to a path that keeps out of the output.
-/

namespace ModText

namespace Workspace

variable {w : Workspace} {c : Location} {p : Path}

/-- Removing a folder removes no file in its place. -/
theorem file_of_removeFolder (hcwd : w.cwd.Of c) {content : ByteArray} :
    (w.removeFolder p).1.tree.node? (p.target c) = some (.file content) ↔
      w.tree.node? (p.target c) = some (.file content) := by
  rw [removeFolder]
  split
  · rfl
  · rename_i l hlocate
    obtain rfl := locate_eq_ok (base_of hcwd p) hlocate
    split
    · rename_i hfolder
      have hcleared : (w.clear (p.target c)).tree.node? (p.target c) = some .folder := by
        rw [Workspace.clear, FileTree.node?_clear, if_neg fun h => h.2 rfl, hfolder]
      simp only
      split
      · rename_i parent name hsite
        have htarget := (isSite_of_site (base_of (hcwd.clear _) p) hsite).target
        simp [Workspace.erase, FileTree.node?_erase, ← htarget, hfolder]
      · simp [hcleared, hfolder]
      · simp [hcleared, hfolder]
    · rfl

end Workspace

namespace Write

variable {w w' : Workspace} {c : Location} {folder : Path} {r : Option Failure}

theorem clearFolder_eq (h : clearFolder w folder = (w', r)) :
    w' = w ∨ w' = (w.removeFolder folder).1 := by
  rw [clearFolder] at h
  split at h
  · split at h
    · rename_i hremove
      exact Or.inr ((Prod.mk.inj h).1 ▸ (congrArg Prod.fst hremove).symm)
    · rename_i hremove
      exact Or.inr ((Prod.mk.inj h).1 ▸ (congrArg Prod.fst hremove).symm)
  · exact Or.inl (Prod.mk.inj h).1.symm

end Write

namespace ModFolder

variable {m : ModFolder} {w w' : Workspace} {circumstance : Path → Circumstance} {file : String}

theorem readFile_congr (h : w'.read? (m.root.join file) = w.read? (m.root.join file)) :
    m.readFile circumstance file w' = m.readFile circumstance file w := by
  rw [readFile, readFile, h]

theorem readFile_of_none (h : w.read? (m.root.join file) = none) :
    m.readFile circumstance file w = .error (.disk (circumstance (m.root.join file))) := by
  rw [readFile, h]

end ModFolder

namespace Mod.Prepared

variable {m : ModFolder} {w w' : Workspace} {o : DumpOptions} {c out l : Location}
  {d : Prepared m.toMod w o} {f : Option Failure}

/-- What is known of the disk after a dump, whatever has come of it. -/
structure Spares (w : Workspace) (c out : Location) (w' : Workspace) : Prop where
  cwd : w'.cwd.Of c
  isGrounded : w'.IsGrounded
  confined : w.ConfinedTo out w'
  /-- There is no other file than before in the place of the output. -/
  file : ∀ content, w'.tree.node? out = some (.file content) ↔
    w.tree.node? out = some (.file content)
  /-- The program runs where it did, unless that is in the output. -/
  runs : ¬ out <+: w.cwd.place → w'.cwd = w.cwd

theorem HasOutput.confined_of_isFlat (h : d.HasOutput c out) (hflat : d.IsFlat)
    (hperform : Write.performAll m.toMod w (.clear (m.outputPath o) :: d.steps) = (w', f)) :
    w.ConfinedTo out w' := by
  refine h.confined (fun k g hgroup => ?_) hperform
  obtain ⟨marked, groups, hload, hk, hgroups, hg⟩ := hgroup
  obtain rfl : d.marked = marked := Except.ok.inj (d.load.symm.trans hload)
  obtain ⟨_, rfl⟩ := groupByNamespace_eq_ok.1 hgroups
  obtain ⟨⟨r, hr, hname⟩, _⟩ := mem_groupsOf.1 hg
  have hslash : '/' ∉ g.namespaceName.toList := by
    rw [← hname]
    exact hflat k hk r hr
  exact (Layout.namespaceFile_isBelow _ k hslash).staysIn h.resolves

/-- No step writes a file in the place of the output. -/
theorem HasOutput.not_writesAt_out (h : d.HasOutput c out) (hflat : d.IsFlat) {step : Write}
    (hstep : step ∈ d.steps) : ¬ step.WritesAt c out := by
  have hbelow : ∀ {file : Path} {names : List String}, file.IsBelow (m.outputPath o) names →
      names ≠ [] → file.target c ≠ out := by
    intro file names hfile hne heq
    rw [(hfile.2 c).1, h.target] at heq
    exact hne (List.append_right_eq_self.1 heq)
  intro hwrites
  rcases h.step_cases hflat hstep with ⟨k, _, folder, rfl, hpath⟩ |
    ⟨place, j, file, hgen, rfl, hpath⟩ | ⟨names, path, _, hne, _, rfl, hpath⟩
  · obtain ⟨_, hfile, _⟩ := hwrites
    cases hfile
  · refine hbelow hpath ?_ hwrites.target
    rintro rfl
    cases hgen
  · exact hbelow hpath hne hwrites.target

theorem HasOutput.spares (h : d.HasOutput c out) (hflat : d.IsFlat) (hground : w.IsGrounded)
    (hperform : Write.performAll m.toMod w (.clear (m.outputPath o) :: d.steps) = (w', f)) :
    Spares w c out w' := by
  have hconfined := h.confined_of_isFlat hflat hperform
  obtain ⟨v, s, hclear, hrest⟩ := Write.performAll_cons hperform
  have hvcwd := (h.clear hclear).1
  have hvground := Write.clearFolder_isGrounded h.cwd hground hclear
  have hvfile : ∀ content, v.tree.node? out = some (.file content) ↔
      w.tree.node? out = some (.file content) := by
    intro content
    rcases Write.clearFolder_eq hclear with rfl | rfl
    · rfl
    · rw [← h.target]
      exact Workspace.file_of_removeFolder h.cwd
  have hvruns : ¬ out <+: w.cwd.place → v.cwd = w.cwd := by
    intro hout
    rcases Write.clearFolder_eq hclear with rfl | rfl
    · rfl
    · exact Workspace.cwd_of_removeFolder h.cwd (h.target ▸ hout) rfl
  rcases hrest with ⟨rfl, hrest⟩ | ⟨_, rfl, rfl⟩
  · have hgrows := Write.performAll_adds hvcwd (fun step => d.removes_of_mem_steps) hrest
    refine ⟨hgrows.cwd ▸ hvcwd, hgrows.isGrounded hvground, hconfined, fun content => ?_,
      fun hout => hgrows.cwd.trans (hvruns hout)⟩
    rw [← hvfile]
    rcases hgrows.node? out with hsame | ⟨_, hfree, hfolder⟩ | ⟨_, _, hleave, _⟩
    · rw [hsame]
    · simp [hfree, hfolder]
    · obtain ⟨step, hstep, hwrites, _⟩ := hleave
      exact absurd hwrites (h.not_writesAt_out hflat hstep)
  · exact ⟨hvcwd, hvground, hconfined, hvfile, hvruns⟩

namespace Spares

variable {p : Path} {content : ByteArray}

theorem file_iff (h : Spares w c out w') (hl : out <+: l → l = out) :
    w'.tree.node? l = some (.file content) ↔ w.tree.node? l = some (.file content) := by
  by_cases hin : out <+: l
  · rw [hl hin]
    exact h.file content
  · exact h.confined.file_iff hin

/-- What was read by a path is read again or cannot be read any more. -/
theorem read?_cases (h : Spares w c out w') (hcwd : w.cwd.Of c)
    (hp : out <+: p.target c → p.target c = out) (hread : w.read? p = some content) :
    w'.read? p = some content ∨ w'.read? p = none := by
  cases hread' : w'.read? p with
  | none => exact Or.inr rfl
  | some content' =>
    have hfile := Workspace.read?_eq_some (Workspace.base_of hcwd p) hread
    have hfile' := Workspace.read?_eq_some (Workspace.base_of h.cwd p) hread'
    rw [h.file_iff hp, hfile] at hfile'
    rw [Node.file.inj (Option.some.inj hfile')]
    exact Or.inl rfl

/-- A path is followed again from where it was followed before. -/
theorem base (h : Spares w c out w') (hruns : out <+: w.cwd.place → p.isAbsolute) :
    w'.base p = w.base p := by
  by_cases hin : out <+: w.cwd.place
  · rw [Workspace.base, Workspace.base, if_pos (hruns hin), if_pos (hruns hin)]
  · rw [Workspace.base, h.runs hin, ← Workspace.base]

/-- What was found by a path is found again if the way of the path is kept. -/
theorem node?_again (h : Spares w c out w') (hground : w.IsGrounded) (hcwd : w.cwd.Of c)
    (hthere : (w.base p).removed = 0) (hruns : out <+: w.cwd.place → p.isAbsolute)
    (hway : ∀ l ∈ p.entered c, out <+: l → ∀ n, w.tree.node? l = some n → w'.tree.node? l = some n)
    {n : Node} (hn : w.node? p = some n) : w'.node? p = some n := by
  apply Workspace.node?_again hground hcwd hthere h.isGrounded h.cwd (by rwa [h.base hruns]) _ hn
  intro l hl k hk
  by_cases hin : out <+: l
  · exact hway l hl hin k hk
  · exact h.confined.kept hin hk

end Spares

/-! ## What a mod reads afterwards -/

namespace HasOutput

/-- A path that starts where the path of the mod does, or at the root, leads from where the dump
began. -/
theorem origin_of_root (h : d.HasOutput c out) {p : Path}
    (habsolute : m.root.isAbsolute → p.isAbsolute) : p.origin c = p.origin w.cwd.place :=
  Workspace.origin_eq h.opened.there h.cwd habsolute

/-- The place of the build properties is in the output only if it is the place of the output. -/
theorem eq_out_of_build (h : d.HasOutput c out)
    (hin : out <+: m.location ++ [ModFolder.buildFile]) :
    m.location ++ [ModFolder.buildFile] = out := by
  rcases List.prefix_concat_iff.1 hin with heq | hin
  · exact heq.symm
  · exact absurd hin h.not_over

theorem code_cases (h : d.HasOutput c out) (hspares : Spares w c out w')
    (hcode : ¬ out <+: (m.root.join m.codeFile).target w.cwd.place) :
    m.toMod.code w' = m.toMod.code w ∨
      m.toMod.code w' = .error (.disk (.readingCode (m.root.join m.codeFile))) := by
  obtain ⟨payload, hpayload⟩ := exists_code_of_load d.load
  have hread := ModFolder.readFile_eq_ok hpayload
  have htarget : (m.root.join m.codeFile).target c =
      (m.root.join m.codeFile).target w.cwd.place := by
    rw [Path.target,
      h.origin_of_root fun habsolute => Path.isAbsolute_join_of_isAbsolute habsolute _, ← Path.target]
  rw [← htarget] at hcode
  rcases hspares.read?_cases h.cwd (fun hin => absurd hin hcode) hread with hsame | hnone
  · exact Or.inl (ModFolder.readFile_congr (hsame.trans hread.symm))
  · exact Or.inr (ModFolder.readFile_of_none hnone)

theorem code_eq (h : d.HasOutput c out) (hspares : Spares w c out w') (hground : w.IsGrounded)
    (hruns : out <+: w.cwd.place → (m.root.join m.codeFile).isAbsolute)
    (hway : ∀ l ∈ (m.root.join m.codeFile).entered w.cwd.place, out <+: l →
      ∀ n, w.tree.node? l = some n → w'.tree.node? l = some n) :
    m.toMod.code w' = m.toMod.code w := by
  obtain ⟨payload, hpayload⟩ := exists_code_of_load d.load
  have hread := ModFolder.readFile_eq_ok hpayload
  have habsolute : m.root.isAbsolute → (m.root.join m.codeFile).isAbsolute := fun habsolute =>
    Path.isAbsolute_join_of_isAbsolute habsolute _
  rw [Path.entered, ← h.origin_of_root habsolute, ← Path.entered] at hway
  have hagain := hspares.node?_again hground h.cwd (Workspace.removed_base habsolute h.opened.there)
    hruns hway (Workspace.read?_eq_some_iff.1 hread)
  exact ModFolder.readFile_congr ((Workspace.read?_eq_some_iff.2 hagain).trans hread.symm)

theorem target_build (h : d.HasOutput c out) :
    (m.root.join ModFolder.buildFile).target c = m.location ++ [ModFolder.buildFile] := by
  have hbelow := Path.isBelow_join_step m.root (s := ModFolder.buildFile) (by decide) (by decide)
  rw [(hbelow.2 c).1, h.target_root]

theorem build_cases (h : d.HasOutput c out) (hspares : Spares w c out w')
    (hfolder : w.isFolder m.root) :
    m.toMod.buildInfo w' = m.toMod.buildInfo w ∨ m.toMod.buildInfo w' = .ok none := by
  change Except.ok (w'.read? (m.root.join ModFolder.buildFile)) =
      .ok (w.read? (m.root.join ModFolder.buildFile)) ∨
    Except.ok (w'.read? (m.root.join ModFolder.buildFile)) = .ok none
  cases hread : w'.read? (m.root.join ModFolder.buildFile) with
  | none => exact Or.inr rfl
  | some content =>
    obtain ⟨_, hfollow, _⟩ := Workspace.exists_follow_of_node? (Workspace.read?_eq_some_iff.1 hread)
    have hfile := Workspace.read?_eq_some (Workspace.base_of hspares.cwd _) hread
    rw [h.target_build, hspares.file_iff h.eq_out_of_build, ← h.target_root] at hfile
    have hbefore := (Workspace.read?_join_eq_some h.cwd h.opened.there hfolder (by decide)).2
      ⟨(Workspace.follow_eq_ok hfollow).1, hfile⟩
    exact Or.inl (congrArg _ hbefore.symm)

/-- The mod is found again by its path. -/
theorem root_again (h : d.HasOutput c out) (hspares : Spares w c out w') (hground : w.IsGrounded)
    (hfolder : w.isFolder m.root) (hruns : out <+: w.cwd.place → m.root.isAbsolute)
    (hway : ∀ l ∈ m.root.entered w.cwd.place, out <+: l →
      ∀ n, w.tree.node? l = some n → w'.tree.node? l = some n) :
    (w'.base m.root).removed = 0 ∧ w'.isFolder m.root := by
  rw [Path.entered, ← h.origin_of_root id, ← Path.entered] at hway
  refine ⟨by rw [hspares.base hruns, h.opened.there], Workspace.isFolder_iff.2 ?_⟩
  exact hspares.node?_again hground h.cwd h.opened.there hruns hway
    (Workspace.isFolder_iff.1 hfolder)

/-- The build properties are the same, also where the output has taken the place of their file: no
file has been there before. -/
theorem read?_build (h : d.HasOutput c out) (hspares : Spares w c out w')
    (hfolder : w.isFolder m.root) (hthere' : (w'.base m.root).removed = 0)
    (hfolder' : w'.isFolder m.root) :
    w'.read? (m.root.join ModFolder.buildFile) = w.read? (m.root.join ModFolder.buildFile) := by
  have hname : IsName ModFolder.buildFile := by decide
  apply Option.ext
  intro content
  rw [Workspace.read?_join_eq_some hspares.cwd hthere' hfolder' hname,
    Workspace.read?_join_eq_some h.cwd h.opened.there hfolder hname, h.target_root,
    hspares.file_iff h.eq_out_of_build]

/-- A resource that does not lie in the output is as it was. -/
theorem resource_kept (h : d.HasOutput c out) (hspares : Spares w c out w') {file : String}
    (hfile : file ∈ m.resources) (hout : ¬ out <+: m.location ++ (Path.mk file).steps) :
    ∃ content, ModFolder.IsFileBelow w m.location file content ∧
      ModFolder.IsFileBelow w' m.location file content := by
  obtain ⟨names, content, hne, hnames, rfl, hnode⟩ := h.opened.resources file hfile
  rw [Path.steps_names hne hnames] at hout
  exact ⟨content, ⟨names, hne, rfl, hnode⟩, names, hne, rfl, hspares.confined.kept hout hnode⟩

theorem read_eq (h : d.HasOutput c out) (hspares : Spares w c out w') (hfolder : w.isFolder m.root)
    (hthere' : (w'.base m.root).removed = 0) (hfolder' : w'.isFolder m.root) {file : String}
    (hfile : file ∈ m.resources) (hout : ¬ out <+: m.location ++ (Path.mk file).steps) :
    m.toMod.read file w' = m.toMod.read file w := by
  obtain ⟨content, hbefore, hafter⟩ := h.resource_kept hspares hfile hout
  have hlocate := Workspace.locate_of_isFolder h.cwd h.opened.there hfolder
  have hlocate' := Workspace.locate_of_isFolder hspares.cwd hthere' hfolder'
  rw [h.target_root] at hlocate hlocate'
  rw [ModFolder.read_of_isFileBelow hlocate' hafter, ModFolder.read_of_isFileBelow hlocate hbefore]

end HasOutput

end Mod.Prepared

namespace Mod

variable {m : ModFolder} {w w' : Workspace} {o : DumpOptions} {root : Path} {codeFile : String}
  {ignores : List String} {r : Except Failure DumpSummary}

/-- A dump changes nothing, or it has an output and spares what lies elsewhere. If it succeeds, then
what was in the place of the output is there again. -/
theorem spares_of_dump (hground : w.IsGrounded) (hopened : m.IsOpened w)
    (hflat : ∀ marked, m.toMod.load w o.markers = .ok marked →
      ∀ c ∈ Category.select o.categories, ∀ r ∈ (extracted o marked).records c,
        '/' ∉ (namespaceOf r).toList)
    (hdump : m.toMod.dump w o = (w', r)) :
    w' = w ∨ ∃ (d : Prepared m.toMod w o) (c : Location),
      d.HasOutput c ((m.outputPath o).target w.cwd.place) ∧
      Prepared.Spares w c ((m.outputPath o).target w.cwd.place) w' ∧
      ((∃ s, r = .ok s) → ∀ n, w.tree.node? ((m.outputPath o).target w.cwd.place) = some n →
        w'.tree.node? ((m.outputPath o).target w.cwd.place) = some n) := by
  rcases dump_cases hdump with ⟨rfl, _⟩ | ⟨_, d, f, hperform, hok⟩
  · exact Or.inl rfl
  obtain ⟨c, out, h⟩ := d.exists_hasOutput hground hopened
  obtain rfl : out = _ := h.resolves.target
  have hflat' : d.IsFlat := hflat d.marked d.load
  refine Or.inr ⟨d, c, h, h.spares hflat' hground hperform, fun hs n hn => ?_⟩
  obtain rfl := hok hs
  obtain ⟨v, s, hclear, ⟨rfl, hrest⟩ | ⟨hsome, rfl, _⟩⟩ := Write.performAll_cons hperform
  · have hfolder := h.node?_out hclear hrest
    cases n with
    | folder => exact hfolder
    | file content =>
      rw [← (h.spares hflat' hground hperform).file content, hfolder] at hn
      cases hn
  · cases hsome

/-- Whether a path keeps out of the output of a dump: it does not start in there, and it does not go
down into it. It may go down into the folder of the output itself if the dump succeeds. -/
structure KeepsOut (w : Workspace) (out : Location) (r : Except Failure DumpSummary) (p : Path) :
    Prop where
  runs : out <+: w.cwd.place → p.isAbsolute
  way : ∀ l ∈ p.entered w.cwd.place, out <+: l → l = out ∧ ∃ s, r = .ok s

/-- **A dump spares the mod it reads.** If no extracted record has a slash in its namespace, then
after a dump, whatever has come of it, every resource that does not lie in the output is as it was.
The code, if it does not lie there, and the build properties are read as before or not at all. They
are read as before if the path to them keeps out of the output, and so are the resources. -/
theorem dump_spares_sources (hground : w.IsGrounded)
    (hopen : ModFolder.openAt w root codeFile ignores = .ok m)
    (hflat : ∀ marked, m.toMod.load w o.markers = .ok marked →
      ∀ c ∈ Category.select o.categories, ∀ r ∈ (extracted o marked).records c,
        '/' ∉ (namespaceOf r).toList)
    (hdump : m.toMod.dump w o = (w', r)) :
    let out := (m.outputPath o).target w.cwd.place
    (∀ file ∈ m.resources, ¬ out <+: m.location ++ (Path.mk file).steps →
      ∃ content, ModFolder.IsFileBelow w m.location file content ∧
        ModFolder.IsFileBelow w' m.location file content) ∧
    (¬ out <+: (root.join codeFile).target w.cwd.place →
      m.toMod.code w' = m.toMod.code w ∨
        m.toMod.code w' = .error (.disk (.readingCode (root.join codeFile)))) ∧
    (m.toMod.buildInfo w' = m.toMod.buildInfo w ∨ m.toMod.buildInfo w' = .ok none) ∧
    (KeepsOut w out r (root.join codeFile) → m.toMod.code w' = m.toMod.code w) ∧
    (KeepsOut w out r root → m.toMod.buildInfo w' = m.toMod.buildInfo w ∧
      ∀ file ∈ m.resources, ¬ out <+: m.location ++ (Path.mk file).steps →
        m.toMod.read file w' = m.toMod.read file w) := by
  intro out
  have hopened := ModFolder.isOpened_of_openAt hopen
  obtain ⟨_, _, hopens⟩ := ModFolder.openAt_eq_ok_iff.1 hopen
  obtain rfl := hopens.root
  obtain rfl := hopens.codeFile
  have hfolder : w.isFolder m.root := hopens.isFolder
  rcases spares_of_dump hground hopened hflat hdump with rfl | ⟨d, c, h, hspares, hmade⟩
  · refine ⟨fun file hfile _ => ?_, fun _ => Or.inl rfl, Or.inl rfl, fun _ => rfl,
      fun _ => ⟨rfl, fun _ _ _ => rfl⟩⟩
    obtain ⟨names, content, hne, _, rfl, hnode⟩ := hopened.resources file hfile
    exact ⟨content, ⟨names, hne, rfl, hnode⟩, names, hne, rfl, hnode⟩
  have hway : ∀ {p : Path}, KeepsOut w out r p → ∀ l ∈ p.entered w.cwd.place, out <+: l →
      ∀ n, w.tree.node? l = some n → w'.tree.node? l = some n := by
    intro p hp l hl hin n hn
    obtain ⟨rfl, hs⟩ := hp.way l hl hin
    exact hmade hs n hn
  refine ⟨fun _ => h.resource_kept hspares, h.code_cases hspares, h.build_cases hspares hfolder,
    fun hp => h.code_eq hspares hground hp.runs (hway hp), fun hp => ?_⟩
  obtain ⟨hthere', hfolder'⟩ := h.root_again hspares hground hfolder hp.runs (hway hp)
  exact ⟨congrArg Except.ok (h.read?_build hspares hfolder hthere' hfolder'),
    fun _ => h.read_eq hspares hfolder hthere' hfolder'⟩

/-- A disk with a mod whose only resource cannot be copied, because a file is generated for the
place of its folder. -/
def blockedWorkspace : Workspace :=
  let w := ((⟨.empty, {}⟩ : Workspace).makeFolders ⟨"in/Mod/Info.json"⟩).1
  let w := (w.write? ⟨"in/Mod/module.json"⟩ "\x7b\x7d".toUTF8).getD w
  let w := (w.write? ⟨"in/Mod/build.txt"⟩ "version = 2".toUTF8).getD w
  (w.write? ⟨"in/Mod/Info.json/x"⟩ "x".toUTF8).getD w

/-- The mod as it is opened. -/
def blockedMod : ModFolder :=
  ⟨⟨"in/Mod"⟩, ["in", "Mod"], "Mod", "module.json", ["Info.json/x"]⟩

/-- An output inside a mod, without any texts. -/
def hollowOptions : DumpOptions where
  outputRoot := ⟨"in/Mod/loc"⟩
  categories := []

theorem dump_spares_sources_of_blocked :
    ∃ f w', blockedMod.toMod.dump blockedWorkspace hollowOptions = (w', .error f) ∧
      (w'.tree.node? ["in", "Mod", "loc", "Mod", "Info.json"]).isSome ∧
      blockedMod.toMod.code w' = .ok "\x7b\x7d".toUTF8 ∧
      blockedMod.toMod.buildInfo w' = .ok (some "version = 2".toUTF8) ∧
      blockedMod.toMod.read "Info.json/x" w' = .ok "x".toUTF8 := by
  have hopen : ModFolder.openAt blockedWorkspace ⟨"in/Mod"⟩ "module.json" [] = .ok blockedMod :=
    eq_ok_of_toOption (by decide +kernel)
  have hdone : let result := blockedMod.toMod.dump blockedWorkspace hollowOptions
      result.2.toOption.isSome = false ∧
        (result.1.tree.node? ["in", "Mod", "loc", "Mod", "Info.json"]).isSome := by
    decide +kernel
  generalize hdump : blockedMod.toMod.dump blockedWorkspace hollowOptions = result at hdone
  obtain ⟨w', r⟩ := result
  obtain ⟨hfailed, hinfo⟩ := hdone
  have hkeeps : ∀ p ∈ [(⟨"in/Mod"⟩ : Path), (⟨"in/Mod"⟩ : Path).join "module.json"],
      KeepsOut blockedWorkspace ["in", "Mod", "loc", "Mod"] r p := by
    obtain ⟨hcwd, haway⟩ : ¬ ["in", "Mod", "loc", "Mod"] <+: blockedWorkspace.cwd.place ∧
        ∀ p ∈ [(⟨"in/Mod"⟩ : Path), (⟨"in/Mod"⟩ : Path).join "module.json"],
          ∀ l ∈ p.entered blockedWorkspace.cwd.place, ¬ ["in", "Mod", "loc", "Mod"] <+: l := by
      decide +kernel
    intro p hp
    exact ⟨fun hin => absurd hin hcwd, fun l hl hin => absurd hin (haway p hp l hl)⟩
  obtain ⟨hcode', hbuild', hread'⟩ :
      (blockedMod.toMod.code blockedWorkspace).toOption = some "\x7b\x7d".toUTF8 ∧
        (blockedMod.toMod.buildInfo blockedWorkspace).toOption =
          some (some "version = 2".toUTF8) ∧
        (blockedMod.toMod.read "Info.json/x" blockedWorkspace).toOption = some "x".toUTF8 := by
    decide +kernel
  obtain ⟨_, _, _, hcode, hrest⟩ :=
    dump_spares_sources (by decide +kernel) hopen (fun marked _ c hc => by cases hc) hdump
  obtain ⟨hbuild, hread⟩ := hrest (hkeeps _ (by simp))
  cases r with
  | ok s => cases hfailed
  | error f =>
    refine ⟨f, w', rfl, hinfo, ?_, ?_, ?_⟩
    · rw [hcode (hkeeps _ (by simp))]
      exact eq_ok_of_toOption hcode'
    · rw [hbuild]
      exact eq_ok_of_toOption hbuild'
    · rw [hread "Info.json/x" (by decide) (by decide +kernel)]
      exact eq_ok_of_toOption hread'

/-- Whether an opened mod has code and is dumped, and then its code cannot be read any more. -/
def LosesCode (w : Workspace) (m : ModFolder) (o : DumpOptions) : Prop :=
  ModFolder.openAt w m.root m.codeFile [] = .ok m ∧ ∃ payload w' s,
    m.toMod.code w = .ok payload ∧ m.toMod.dump w o = (w', .ok s) ∧
      m.toMod.code w' = .error (.disk (.readingCode (m.root.join m.codeFile)))

theorem losesCode_of_read?
    (h : (ModFolder.openAt w m.root m.codeFile []).toOption = some m ∧
      (m.toMod.code w).toOption.isSome ∧
      let result := m.toMod.dump w o
      result.2.toOption.isSome ∧ result.1.read? (m.root.join m.codeFile) = none) :
    LosesCode w m o := by
  obtain ⟨hopen, hcode, hok, hgone⟩ := h
  obtain ⟨payload, hpayload⟩ := exists_eq_ok hcode
  obtain ⟨s, hs⟩ := exists_eq_ok hok
  exact ⟨eq_ok_of_toOption hopen, payload, _, s, hpayload, Prod.ext rfl hs,
    ModFolder.readFile_of_none hgone⟩

/-- A disk with a mod in which an earlier output holds a folder and a file that is code. -/
def sunkenWorkspace : Workspace :=
  let w := ((⟨.empty, {}⟩ : Workspace).makeFolders ⟨"in/Mod/loc/Mod/x"⟩).1
  let w := (w.write? ⟨"in/Mod/module.json"⟩ "\x7b\x7d".toUTF8).getD w
  (w.write? ⟨"in/Mod/loc/Mod/code.json"⟩ "\x7b\x7d".toUTF8).getD w

/-- The code of a mod is lost by a dump if the path of the code goes through the output, or if the
code lies in there. -/
theorem dump_loses_code_in_output :
    LosesCode sunkenWorkspace ⟨⟨"in/Mod"⟩, ["in", "Mod"], "Mod", "loc/Mod/x/../../../module.json",
        ["loc/Mod/code.json", "module.json"]⟩ hollowOptions ∧
      LosesCode sunkenWorkspace ⟨⟨"in/Mod"⟩, ["in", "Mod"], "Mod", "loc/Mod/code.json",
        ["module.json"]⟩ hollowOptions := by
  constructor
  · exact losesCode_of_read? (by decide +kernel)
  · exact losesCode_of_read? (by decide +kernel)

end Mod

end ModText
