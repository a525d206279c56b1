import ModText.Proofs.Disk.Again

/-!
# One file more

Two disks may differ in one file only, which one of them has in the folder in which the program runs.
The folders are the same, so what can be created, written or removed in the disk without the file can
be so in the other one, and afterwards the two differ as before or not at all. Two things can tell
them apart: a path that leads to the file, and a folder that is to be where the file is.
-/

namespace ModText

namespace Workspace

/-- The second workspace has one file more than the first one, in the folder in which the program
runs. -/
structure Beside (here : Location) (name : String) (content : ByteArray) (a b : Workspace) : Prop where
  cwd : a.cwd = .ofPlace here
  cwd_eq : b.cwd = a.cwd
  ground : a.tree.node? here = some .folder
  free : a.tree.node? (here ++ [name]) = none
  file : b.tree.node? (here ++ [name]) = some (.file content)
  same : ∀ l, l ≠ here ++ [name] → b.tree.node? l = a.tree.node? l

namespace Beside

variable {a a' b u : Workspace} {here : Location} {name : String} {content : ByteArray} {p : Path}

theorem cwd_of (h : Beside here name content a b) : a.cwd.Of here :=
  h.cwd ▸ Position.of_ofPlace here

theorem cwd_of' (h : Beside here name content a b) : b.cwd.Of here :=
  h.cwd_eq ▸ h.cwd_of

theorem isGrounded (h : Beside here name content a b) : a.IsGrounded := by
  rw [IsGrounded, h.cwd, Position.place_ofPlace, h.ground]

theorem folder_iff (h : Beside here name content a b) {l : Location} :
    b.tree.node? l = some .folder ↔ a.tree.node? l = some .folder := by
  by_cases hl : l = here ++ [name]
  · rw [hl, h.free, h.file]
    simp
  · rw [h.same l hl]

theorem isGrounded' (h : Beside here name content a b) : b.IsGrounded := by
  rw [IsGrounded, h.cwd_eq]
  exact h.folder_iff.2 h.isGrounded

theorem within (h : Beside here name content a b) : a.Within b := by
  refine ⟨h.cwd_eq.symm, fun l => ?_⟩
  by_cases hl : l = here ++ [name]
  · exact Or.inr (hl ▸ h.free)
  · exact Or.inl (h.same l hl).symm

theorem base (h : Beside here name content a b) (p : Path) : b.base p = a.base p :=
  (h.within.base p).symm

theorem removed_base (h : Beside here name content a b) (p : Path) : (a.base p).removed = 0 := by
  rw [Workspace.base]
  split
  · rfl
  · rw [h.cwd]
    rfl

/-! ## Looking -/

theorem walk_mono (h : Beside here name content a b) {p q : Position} {segments : List String}
    (hp : a.tree.node? p.place = some .folder) (hwalk : a.tree.walk p segments = .ok q) :
    b.tree.walk p segments = .ok q := by
  apply FileTree.walk_mono_of_isSome (fun l => h.folder_iff.2) hp hwalk
  obtain ⟨n, hn⟩ := Option.isSome_iff_exists.1 (FileTree.isSome_of_walk (by rw [hp]; rfl) hwalk)
  rw [h.within.tree.node?_eq_some hn]
  rfl

theorem node?_mono (h : Beside here name content a b) {n : Node} (hn : a.node? p = some n) :
    b.node? p = some n := by
  obtain ⟨q, hfollow, hnode⟩ := exists_follow_of_node? hn
  obtain ⟨hcheck, hwalk⟩ := follow_eq_ok hfollow
  have hq := FileTree.removed_walk (h.removed_base p) hwalk
  rw [FileTree.nodeAt?_of_removed_eq_zero hq] at hnode
  have hnode' := h.within.tree.node?_eq_some hnode
  have hfollow' : b.follow p = .ok q := by
    rw [follow, hcheck, h.base p]
    exact h.walk_mono (node?_base h.isGrounded p) hwalk
  rw [node?, hfollow']
  exact (FileTree.nodeAt?_of_removed_eq_zero hq).trans hnode'

/-- What is found in the second workspace only is the file. -/
theorem node?_cases (h : Beside here name content a b) {n : Node} (hn : b.node? p = some n) :
    a.node? p = some n ∨ p.target here = here ++ [name] ∧ n = .file content := by
  obtain ⟨q, hfollow, hnode⟩ := exists_follow_of_node? hn
  obtain ⟨hcheck, hwalk⟩ := follow_eq_ok hfollow
  have hbase := h.base p
  have hq := FileTree.removed_walk (hbase ▸ h.removed_base p) hwalk
  by_cases hend : q.place = here ++ [name]
  · have hplace := (FileTree.of_walk (base_of h.cwd_of' p) hwalk).place_eq hq
    rw [FileTree.nodeAt?_of_removed_eq_zero hq, hend, h.file] at hnode
    exact Or.inr ⟨hplace.symm.trans hend, (Option.some.inj hnode).symm⟩
  · rw [FileTree.nodeAt?_of_removed_eq_zero hq, h.same _ hend] at hnode
    have hwalk' := FileTree.walk_mono_of_isSome (fun l => h.folder_iff.1)
      (node?_base h.isGrounded' p) hwalk (by rw [hnode]; rfl)
    have hfollow' : a.follow p = .ok q := by
      rw [follow, hcheck, ← hbase]
      exact hwalk'
    left
    rw [node?, hfollow']
    exact (FileTree.nodeAt?_of_removed_eq_zero hq).trans hnode

theorem isFolder_iff (h : Beside here name content a b) : b.isFolder p ↔ a.isFolder p := by
  rw [Workspace.isFolder_iff, Workspace.isFolder_iff]
  refine ⟨fun hb => ?_, h.node?_mono⟩
  rcases h.node?_cases hb with ha | ⟨_, hfile⟩
  · exact ha
  · cases hfile

theorem resolve?_mono (h : Beside here name content a b) {out : Location}
    (hresolve : a.resolve? p = some out) : b.resolve? p = some out := by
  have hthere := h.removed_base p
  rw [resolve?, if_pos hthere] at hresolve
  rw [resolve?, h.base p, if_pos hthere]
  refine (FileTree.resolveBack_again (not_idle_of_mem_resolved h.isGrounded p)
    (fun front q _ hwalk => ⟨q, ?_⟩) hresolve).2
  exact h.walk_mono a.tree.node?_nil hwalk

theorem read?_mono (h : Beside here name content a b) {found : ByteArray}
    (hread : a.read? p = some found) : b.read? p = some found := by
  rw [read?_eq_some_iff] at hread ⊢
  exact h.node?_mono hread

theorem site_eq_ok (h : Beside here name content a b) {parent : Location} {last : String}
    (hsite : a.site p = .ok (parent, last)) : b.site p = .ok (parent, last) := by
  have site := isSite_of_site (base_of h.cwd_of p) hsite
  obtain ⟨_, front, q, hback, hwalk, hthere, hfolder⟩ := site.walked
  have hwalk' := h.walk_mono (node?_base h.isGrounded p) hwalk
  rw [site_of_walk site.usable hback hwalk hthere hfolder] at hsite
  rw [site_of_walk site.usable hback (h.base p ▸ hwalk') hthere (h.folder_iff.2 hfolder), hsite]

/-! ## Writing -/

/-- What is written in the first workspace can be written in the second one. If it is the file that
only that one had, then both are the same. -/
theorem write? (h : Beside here name content a b) {written : ByteArray}
    (hwrite : a.write? p written = some a') :
    ∃ b', b.write? p written = some b' ∧ (b' = a' ∨ Beside here name content a' b') := by
  rw [Workspace.write?] at hwrite
  split at hwrite
  · rename_i parent last hsite
    split at hwrite
    · cases hwrite
    rename_i hslash
    have site := isSite_of_site (base_of h.cwd_of p) hsite
    obtain ⟨hold, hcwd, hnode⟩ := put?_eq_some hwrite
    obtain ⟨b', hput⟩ : ∃ b', b.put? parent last (.file written) = some b' := by
      rw [put?, dif_pos ⟨site.isName, h.folder_iff.2 site.folder, fun hb => hold (h.folder_iff.1 hb)⟩]
      exact ⟨_, rfl⟩
    obtain ⟨_, hcwd', hnode'⟩ := put?_eq_some hput
    refine ⟨b', by rw [Workspace.write?, h.site_eq_ok hsite]; simpa [hslash] using hput, ?_⟩
    by_cases hsame : parent ++ [last] = here ++ [name]
    · left
      apply eq_of_tree_eq
      · apply FileTree.eq_of_node?_eq
        intro l
        rw [hnode, hnode', hsame]
        split
        · rfl
        · rename_i hl
          exact h.same l hl
      · rw [hcwd', hcwd, h.cwd_eq]
    · right
      have hne : here ≠ parent ++ [last] := by
        rintro rfl
        exact hold h.ground
      exact {
        cwd := hcwd.trans h.cwd
        cwd_eq := by rw [hcwd', hcwd, h.cwd_eq]
        ground := by rw [hnode, if_neg hne, h.ground]
        free := by rw [hnode, if_neg (Ne.symm hsame), h.free]
        file := by rw [hnode', if_neg (Ne.symm hsame), h.file]
        same := fun l hl => by rw [hnode, hnode', h.same l hl] }
  · cases hwrite

/-! ## Creating folders -/

/-- Folders that were created in the first workspace lie between it and one with the file besides. -/
theorem exists_between (h : Beside here name content a b) {places : List Location}
    (hgrows : a.GrowsFolders places a') (hout : here ++ [name] ∉ places) :
    ∃ u : Workspace, u.Between a b ∧ ∀ l, a'.tree.node? l = some .folder → u.tree.node? l = some .folder := by
  have hname : IsName name := FileTree.isName_of_mem h.file name (by simp)
  have hfree := (hgrows.node?_eq hout).trans h.free
  obtain ⟨u, hput⟩ : ∃ u, a'.put? here name (.file content) = some u := by
    rw [put?, dif_pos ⟨hname, hgrows.folder h.ground, by rw [hfree]; simp⟩]
    exact ⟨_, rfl⟩
  obtain ⟨_, hcwd, hnode⟩ := put?_eq_some hput
  have hcwd' : a.cwd = u.cwd := by rw [hcwd, hgrows.cwd]
  have hle : ∀ l, l ≠ here ++ [name] → a.tree.node? l = u.tree.node? l ∨ a.tree.node? l = none := by
    intro l hl
    rw [hnode, if_neg hl]
    rcases hgrows.node? l with hsame | ⟨_, hnone, _⟩ | ⟨_, _, hnever, _⟩
    · exact Or.inl hsame.symm
    · exact Or.inr hnone
    · exact hnever.elim
  refine ⟨u, ⟨⟨hcwd', fun l => ?_⟩, ⟨h.cwd_eq.trans hcwd', fun l => ?_⟩, fun l hl => ?_⟩, ?_⟩
  · by_cases hl : l = here ++ [name]
    · exact Or.inr (hl ▸ h.free)
    · exact hle l hl
  · by_cases hl : l = here ++ [name]
    · rw [hl, h.file, hnode, if_pos rfl]
      exact Or.inl rfl
    · rw [h.same l hl]
      exact hle l hl
  · obtain ⟨n, hn⟩ := Option.isSome_iff_exists.1 hl
    rw [h.within.tree.node?_eq_some hn]
    rfl
  · intro l hl
    rw [hnode, if_neg, hl]
    rintro rfl
    rw [hfree] at hl
    cases hl

/-- A folder that was created with its parents in the first workspace can be created in the second
one, unless one of them takes the place of the file. -/
theorem makeFolders (h : Beside here name content a b) (hmake : a.makeFolders p = (a', true))
    (hfree : a'.tree.node? (here ++ [name]) ≠ some .folder) :
    ∃ b', b.makeFolders p = (b', true) ∧ Beside here name content a' b' := by
  obtain ⟨hgrows, hmade⟩ := makeFolders_spec h.cwd_of hmake
  have hout : here ++ [name] ∉ p.entered here := fun hin => hfree (hmade rfl _ hin)
  obtain ⟨u, hbetween, hkept⟩ := h.exists_between hgrows hout
  have hcwd := hbetween.lower.cwd
  obtain ⟨b', hmake'⟩ := hbetween.makeFolders (hcwd ▸ h.cwd_of) h.isGrounded
    (hbetween.lower.base p ▸ h.removed_base p) (fun l hl => hkept l (hmade rfl l hl)) hmake
  obtain ⟨hgrows', hmade'⟩ := makeFolders_spec h.cwd_of' hmake'
  refine ⟨b', hmake', {
    cwd := hgrows.cwd.trans h.cwd
    cwd_eq := by rw [hgrows'.cwd, hgrows.cwd, h.cwd_eq]
    ground := hgrows.folder h.ground
    free := (hgrows.node?_eq hout).trans h.free
    file := (hgrows'.node?_eq hout).trans h.file
    same := fun l hl => ?_ }⟩
  by_cases hin : l ∈ p.entered here
  · rw [hmade rfl l hin, hmade' rfl l hin]
  · rw [hgrows.node?_eq hin, hgrows'.node?_eq hin, h.same l hl]

/-! ## Removing folders -/

/-- A folder around the place where the program runs is emptied of all in which the two differ. -/
theorem clear_eq (h : Beside here name content a b) {l : Location} (hin : l <+: here) :
    b.clear l = a.clear l := by
  have hbelow : l <+: here ++ [name] := hin.trans (List.prefix_append _ _)
  have hne : l ≠ here ++ [name] := by
    rintro rfl
    have hlength := hin.length_le
    rw [List.length_append, List.length_singleton] at hlength
    omega
  apply eq_of_tree_eq
  · apply FileTree.eq_of_node?_eq
    intro k
    rw [Workspace.clear, Workspace.clear, FileTree.node?_clear, FileTree.node?_clear]
    split
    · rfl
    · rename_i hout
      apply h.same
      rintro rfl
      exact hout ⟨hbelow, hne⟩
  · rw [Workspace.clear, Workspace.clear, h.cwd_eq]

theorem clear (h : Beside here name content a b) {l : Location} (hout : ¬ l <+: here ++ [name]) :
    Beside here name content (a.clear l) (b.clear l) := by
  have hcwd : ¬ l <+: (Position.ofPlace here).place := by
    rw [Position.place_ofPlace]
    exact fun hin => hout (hin.trans (List.prefix_append _ _))
  refine ⟨?_, ?_, ?_, ?_, ?_, fun k hk => ?_⟩
  all_goals simp only [Workspace.clear, FileTree.node?_clear]
  · rw [h.cwd, Position.clear_of_outside hcwd]
  · rw [h.cwd_eq]
  · rw [if_neg fun hin => hout (hin.1.trans (List.prefix_append _ _)), h.ground]
  · rw [if_neg fun hin => hout hin.1, h.free]
  · rw [if_neg fun hin => hout hin.1, h.file]
  · rw [h.same k hk]

theorem erase (h : Beside here name content a b) {parent : Location} {last : String}
    (hout : ¬ parent ++ [last] <+: here ++ [name]) :
    Beside here name content (a.erase parent last) (b.erase parent last) := by
  have hcwd : ¬ parent ++ [last] <+: (Position.ofPlace here).place := by
    rw [Position.place_ofPlace]
    exact fun hin => hout (hin.trans (List.prefix_append _ _))
  refine ⟨?_, ?_, ?_, ?_, ?_, fun k hk => ?_⟩
  all_goals simp only [Workspace.erase, FileTree.node?_erase]
  · rw [h.cwd, Position.erase_of_outside hcwd]
  · rw [h.cwd_eq]
  · rw [if_neg fun hin => hout (hin.trans (List.prefix_append _ _)), h.ground]
  · rw [if_neg hout, h.free]
  · rw [if_neg hout, h.file]
  · rw [h.same k hk]

/-- On the way to a folder that both had before, the two have the same sites. -/
theorem site_eq (h : Beside here name content a b) (hb : b.Within u) (hcheck : check p = .ok ())
    {q : Position} (hu : u.LeadsTo p q) : b.site p = a.site p := by
  have ha : a.Within u := by
    refine ⟨h.within.cwd.trans hb.cwd, fun l => ?_⟩
    rcases h.within.tree l with hsame | hnone
    · rw [hsame]
      exact hb.tree l
    · exact Or.inr hnone
  by_cases hmissing : a.site p = .error .missing
  · rw [hmissing]
    refine Decidable.byContradiction fun hready => hready ?_
    rw [← hmissing, site_eq_of_folders hb h.cwd_eq.symm (fun l => h.folder_iff.1)
      (node?_base h.isGrounded' p) hcheck hu hready]
  · exact site_eq_of_folders ha h.cwd_eq (fun l => h.folder_iff.2) (node?_base h.isGrounded p)
      hcheck hu hmissing

/-- A folder that could be removed from the first workspace can be removed from the second one. The
file goes with it if it lies below. -/
theorem removeFolder (h : Beside here name content a b) (hremove : a.removeFolder p = (a', true)) :
    ∃ b', b.removeFolder p = (b', true) ∧ (p.target here <+: here → b' = a') ∧
      (¬ p.target here <+: here → Beside here name content a' b') := by
  obtain ⟨l, hlocate, hfolder, hend⟩ := removeFolder_eq_true_iff.1 hremove
  obtain rfl := locate_eq_ok (base_of h.cwd_of p) hlocate
  have hthere' : (b.base p).removed = 0 := h.base p ▸ h.removed_base p
  have hisFolder : b.isFolder p := by
    rw [h.isFolder_iff, Workspace.isFolder_iff, node?_of_locate hlocate, hfolder]
  have hlocate' := locate_of_isFolder h.cwd_of' hthere' hisFolder
  have hfolder' := h.folder_iff.2 hfolder
  by_cases hin : p.target here <+: here
  · rw [← h.clear_eq hin] at hend
    exact ⟨a', removeFolder_eq_true_iff.2 ⟨_, hlocate', hfolder', hend⟩, fun _ => rfl, absurd hin⟩
  · have hout : ¬ p.target here <+: here ++ [name] := by
      intro hbelow
      rcases List.prefix_concat_iff.1 hbelow with heq | habove
      · rw [heq, h.free] at hfolder
        cases hfolder
      · exact hin habove
    obtain ⟨q, hfollow, hq⟩ := exists_follow_of_node? (Workspace.isFolder_iff.1 hisFolder)
    obtain ⟨hcheck, hwalk⟩ := follow_eq_ok hfollow
    have hcleared := h.clear hout
    have hwithin : (b.clear (p.target here)).Within b := by
      apply clear_within
      rw [h.cwd_eq, h.cwd, Position.place_ofPlace]
      exact hin
    have hsite := hcleared.site_eq hwithin hcheck
      ⟨hthere', node?_base h.isGrounded' p, hwalk, hq⟩
    rw [← hsite] at hend
    rcases hend with ⟨parent, last, hfound, rfl⟩ | ⟨hmissing, rfl⟩
    · have htarget := (isSite_of_site (base_of hcleared.cwd_of' p) hfound).target
      exact ⟨_, removeFolder_eq_true_iff.2 ⟨_, hlocate', hfolder', Or.inl ⟨_, _, hfound, rfl⟩⟩,
        fun hnot => absurd hnot hin, fun _ => hcleared.erase (htarget ▸ hout)⟩
    · exact ⟨_, removeFolder_eq_true_iff.2 ⟨_, hlocate', hfolder', Or.inr ⟨hmissing, rfl⟩⟩,
        fun hnot => absurd hnot hin, fun _ => hcleared⟩

end Beside

end Workspace

end ModText
