import ModText.Proofs.Disk.Resolution

/-!
# What creating and removing change

All that creates something lets a workspace grow: missing places become folders and files are
written, but no folder goes away or becomes a file, and the program stays where it is. `Grows` says
which places may become folders and what may be written where, and it composes, so what a whole run
creates is known from what its steps create. It holds of attempts that fail as well.

Removing is the other direction: nothing changes but what lies at a place or below it.
-/

namespace ModText

namespace Workspace

/-- The later workspace has more folders, among these places, and other files, among these. -/
structure Grows (folders : Location → Prop) (files : Location → ByteArray → Prop)
    (w w' : Workspace) : Prop where
  cwd : w'.cwd = w.cwd
  node? : ∀ l, w'.tree.node? l = w.tree.node? l ∨
    folders l ∧ w.tree.node? l = none ∧ w'.tree.node? l = some .folder ∨
    w.tree.node? l ≠ some .folder ∧
      ∃ content, files l content ∧ w'.tree.node? l = some (.file content)

namespace Grows

variable {folders folders' : Location → Prop} {files files' : Location → ByteArray → Prop}
  {w w' w'' : Workspace} {l : Location}

theorem refl (w : Workspace) : Grows folders files w w :=
  ⟨rfl, fun _ => Or.inl rfl⟩

theorem mono (h : Grows folders files w w') (hfolders : ∀ l, folders l → folders' l)
    (hfiles : ∀ l content, files l content → files' l content) : Grows folders' files' w w' := by
  refine ⟨h.cwd, fun l => ?_⟩
  rcases h.node? l with hsame | ⟨hl, hfree, hnew⟩ | ⟨hold, content, hl, hnew⟩
  · exact Or.inl hsame
  · exact Or.inr (Or.inl ⟨hfolders l hl, hfree, hnew⟩)
  · exact Or.inr (Or.inr ⟨hold, content, hfiles l content hl, hnew⟩)

/-- Folders stay. -/
theorem folder (h : Grows folders files w w') (hl : w.tree.node? l = some .folder) :
    w'.tree.node? l = some .folder := by
  rcases h.node? l with hsame | ⟨_, _, hnew⟩ | ⟨hold, _⟩
  · rw [hsame, hl]
  · exact hnew
  · exact absurd hl hold

/-- Files stay or are written again. -/
theorem file (h : Grows folders files w w') {content : ByteArray}
    (hl : w.tree.node? l = some (.file content)) :
    w'.tree.node? l = some (.file content) ∨
      ∃ content, files l content ∧ w'.tree.node? l = some (.file content) := by
  rcases h.node? l with hsame | ⟨_, hfree, _⟩ | ⟨_, hnew⟩
  · exact Or.inl (by rw [hsame, hl])
  · rw [hl] at hfree
    cases hfree
  · exact Or.inr hnew

theorem isSome (h : Grows folders files w w') (hl : (w.tree.node? l).isSome) :
    (w'.tree.node? l).isSome := by
  rcases h.node? l with hsame | ⟨_, _, hnew⟩ | ⟨_, _, _, hnew⟩
  · rwa [hsame]
  · simp [hnew]
  · simp [hnew]

theorem trans (h : Grows folders files w w') (h' : Grows folders files w' w'') :
    Grows folders files w w'' := by
  refine ⟨h'.cwd.trans h.cwd, fun l => ?_⟩
  rcases h.node? l with hsame | ⟨hl, hfree, hnew⟩ | ⟨hold, content, hl, hnew⟩
  · rcases h'.node? l with hsame' | ⟨hl, hfree, hnew⟩ | ⟨hold, hnew⟩
    · exact Or.inl (hsame'.trans hsame)
    · exact Or.inr (Or.inl ⟨hl, hsame ▸ hfree, hnew⟩)
    · exact Or.inr (Or.inr ⟨hsame ▸ hold, hnew⟩)
  · exact Or.inr (Or.inl ⟨hl, hfree, h'.folder hnew⟩)
  · rcases h'.file hnew with hkept | hagain
    · exact Or.inr (Or.inr ⟨hold, content, hl, hkept⟩)
    · exact Or.inr (Or.inr ⟨hold, hagain⟩)

theorem isGrounded (h : Grows folders files w w') (hw : w.IsGrounded) : w'.IsGrounded := by
  rw [IsGrounded, h.cwd]
  exact h.folder hw

end Grows

variable {w w' : Workspace} {c : Location} {p : Path} {content : ByteArray}

/-! ## Files -/

theorem put?_eq_some {parent : Location} {name : String} {n : Node}
    (h : w.put? parent name n = some w') :
    w.tree.node? (parent ++ [name]) ≠ some .folder ∧ w'.cwd = w.cwd ∧
      ∀ l, w'.tree.node? l = if l = parent ++ [name] then some n else w.tree.node? l := by
  rw [put?] at h
  split at h
  · rename_i hput
    obtain rfl := Option.some.inj h
    exact ⟨hput.2.2, rfl, w.tree.node?_put parent name n hput.1 hput.2.1 hput.2.2⟩
  · cases h

/-- What is put at a site is at the end of a way through folders. -/
theorem IsSite.node?_put {parent : Location} {name : String} {n : Node}
    (site : w.IsSite c p parent name)
    (hnode : ∀ l, w'.tree.node? l = if l = p.target c then some n else w.tree.node? l) :
    p.target c ∈ p.entered c ∧
      ∀ m ∈ p.entered c, w'.tree.node? m = if m = p.target c then some n else some .folder := by
  obtain ⟨front, hfront, hfolders⟩ := site.entered
  refine ⟨by simp [hfront], fun m hm => ?_⟩
  rw [hnode]
  split
  · rfl
  · rename_i hm'
    rw [hfront, List.mem_append, List.mem_singleton] at hm
    exact hfolders m (hm.resolve_right hm')

theorem write?_eq_some (hbase : (w.base p).Of (p.origin c)) (h : w.write? p content = some w') :
    (∃ parent name, w.IsSite c p parent name) ∧ p.target c ∈ p.entered c ∧
      w.Grows (fun _ => False) (fun l written => l = p.target c ∧ written = content) w' ∧
      ∀ m ∈ p.entered c,
        w'.tree.node? m = if m = p.target c then some (.file content) else some .folder := by
  rw [write?] at h
  split at h
  · rename_i parent name hsite
    have site := isSite_of_site hbase hsite
    split at h
    · cases h
    obtain ⟨hold, hcwd, hnode⟩ := put?_eq_some h
    rw [← site.target] at hold hnode
    obtain ⟨htarget, hnodes⟩ := site.node?_put hnode
    refine ⟨⟨parent, name, site⟩, htarget, ⟨hcwd, fun l => ?_⟩, hnodes⟩
    by_cases hl : l = p.target c
    · exact Or.inr (Or.inr ⟨by rw [hl]; exact hold, content, ⟨hl, rfl⟩, by rw [hnode, if_pos hl]⟩)
    · exact Or.inl (by rw [hnode, if_neg hl])
  · cases h

/-! ## Folders -/

/-- A workspace in which some of these places are new folders and all else is as it was. -/
abbrev GrowsFolders (places : List Location) (w w' : Workspace) : Prop :=
  w.Grows (· ∈ places) (fun _ _ => False) w'

theorem GrowsFolders.node?_eq {places : List Location} {l : Location}
    (h : w.GrowsFolders places w') (hl : l ∉ places) : w'.tree.node? l = w.tree.node? l := by
  rcases h.node? l with hsame | ⟨hnew, _⟩ | ⟨_, _, hnever, _⟩
  · exact hsame
  · exact absurd hnew hl
  · exact hnever.elim

theorem makeFolder_eq_ok (hbase : (w.base p).Of (p.origin c)) (h : w.makeFolder p = .ok w') :
    w.GrowsFolders (p.entered c) w' ∧ ∀ m ∈ p.entered c, w'.tree.node? m = some .folder := by
  rw [makeFolder] at h
  cases hsite : w.site p with
  | error o =>
    rw [hsite] at h
    cases h
  | ok found =>
    obtain ⟨parent, name⟩ := found
    have site := isSite_of_site hbase hsite
    rw [hsite] at h
    simp only [bind, Except.bind] at h
    split at h
    · cases h
    rename_i hfree
    rw [Bool.not_eq_true, Option.isSome_eq_false_iff, Option.isNone_iff_eq_none] at hfree
    split at h
    · rename_i hput
      obtain rfl := Except.ok.inj h
      obtain ⟨_, hcwd, hnode⟩ := put?_eq_some hput
      rw [← site.target] at hfree hnode
      obtain ⟨htarget, hnodes⟩ := site.node?_put hnode
      refine ⟨⟨hcwd, fun l => ?_⟩, fun m hm => by rw [hnodes m hm, ite_self]⟩
      by_cases hl : l = p.target c
      · exact Or.inr (Or.inl ⟨hl ▸ htarget, by rw [hl, hfree], by rw [hnode, if_pos hl]⟩)
      · exact Or.inl (by rw [hnode, if_neg hl])
    · cases h

theorem ensureFolder_spec (hbase : (w.base p).Of (p.origin c)) {done : Bool}
    (h : w.ensureFolder p = (w', done)) :
    w.GrowsFolders (p.entered c) w' ∧
      (done = true → ∀ m ∈ p.entered c, w'.tree.node? m = some .folder) := by
  rw [ensureFolder] at h
  split at h
  · rename_i hmake
    obtain ⟨rfl, rfl⟩ := Prod.mk.inj h
    obtain ⟨hgrows, hfolders⟩ := makeFolder_eq_ok hbase hmake
    exact ⟨hgrows, fun _ => hfolders⟩
  · obtain ⟨rfl, rfl⟩ := Prod.mk.inj h
    exact ⟨.refl w, folder_of_mem_entered hbase⟩
  · obtain ⟨rfl, rfl⟩ := Prod.mk.inj h
    exact ⟨.refl w, fun h => nomatch h⟩

/-- Creating folders one after the other creates nothing but what their paths go down into. -/
theorem makeLineage_grows (hcwd : w.cwd.Of c) {places : List Location} {lineage : List Path}
    (hplaces : ∀ p ∈ lineage, p.entered c ⊆ places) :
    w.GrowsFolders places (w.makeLineage lineage).1 := by
  have hensure : ∀ (w : Workspace), w.cwd.Of c → ∀ p, p.entered c ⊆ places →
      w.GrowsFolders places (w.ensureFolder p).1 := fun w hcwd p hp =>
    (ensureFolder_spec (base_of hcwd p) rfl).1.mono (fun _ hl => hp hl) fun _ _ => id
  induction lineage with
  | nil => exact .refl w
  | cons p rest ih =>
    cases rest with
    | nil => exact .refl w
    | cons q rest =>
      have hp := hplaces p List.mem_cons_self
      rw [makeLineage]
      split
      · have hrest := ih fun r hr => hplaces r (List.mem_cons_of_mem p hr)
        split
        · rename_i hmade
          rw [hmade] at hrest
          exact hrest.trans (hensure _ (hrest.cwd ▸ hcwd) p hp)
        · rename_i hmade
          rwa [hmade] at hrest
      · exact hensure w hcwd p hp

/-- The last thing that is done for a folder is to make sure of it. -/
theorem makeLineage_folders (hcwd : w.cwd.Of c) {p q : Path} {rest : List Path}
    (h : w.makeLineage (p :: q :: rest) = (w', true)) :
    ∀ m ∈ p.entered c, w'.tree.node? m = some .folder := by
  have hensure : ∀ {w : Workspace}, w.cwd.Of c → w.ensureFolder p = (w', true) →
      ∀ m ∈ p.entered c, w'.tree.node? m = some .folder := fun hcwd h =>
    (ensureFolder_spec (base_of hcwd p) h).2 rfl
  rw [makeLineage] at h
  split at h
  · have hgrows : w.GrowsFolders ((q :: rest).flatMap (Path.entered c))
        (w.makeLineage (q :: rest)).1 :=
      makeLineage_grows hcwd fun r hr m hm => List.mem_flatMap.2 ⟨r, hr, hm⟩
    split at h
    · rename_i hmade
      rw [hmade] at hgrows
      exact hensure (hgrows.cwd ▸ hcwd) h
    · cases h
  · exact hensure hcwd h

theorem makeFolders_spec (hcwd : w.cwd.Of c) {done : Bool} (h : w.makeFolders p = (w', done)) :
    w.GrowsFolders (p.entered c) w' ∧
      (done = true → ∀ m ∈ p.entered c, w'.tree.node? m = some .folder) := by
  rw [makeFolders] at h
  have hgrows := makeLineage_grows hcwd fun q hq => Path.entered_ancestors (p := p) hq c
  rw [h] at hgrows
  refine ⟨hgrows, ?_⟩
  rintro rfl
  cases hancestors : p.ancestors with
  | nil => cases hancestors
  | cons q rest =>
    obtain rfl : p = q := (List.cons.inj hancestors).1
    rw [hancestors] at h
    cases rest with
    | nil => simp [Path.entered_of_ancestors_eq_singleton hancestors c]
    | cons q rest => exact makeLineage_folders hcwd h

/-- Once something has been put right below a path, the path leads to its place for as long as the
workspace grows. -/
theorem locate_of_isSite (hcwd : w.cwd.Of c) (hground : w.IsGrounded) {name last : String}
    {parent : Location} (hname : IsStep name) (hslash : '/' ∉ name.toList)
    (hcheck : check p = .ok ()) (site : w.IsSite c (p.join name) parent last)
    {folders : Location → Prop} {files : Location → ByteArray → Prop}
    (hgrows : w.Grows folders files w') : w'.locate p = .ok (p.target c) := by
  have hrelative := Path.isAbsolute_of_not_mem hslash
  obtain ⟨front, idle, hjoin, hp, hidle⟩ := Path.segments_join (p := p) hrelative
  rw [Path.segments_of_not_mem hslash] at hjoin
  obtain ⟨_, back, q, hdrop, hwalk, hthere, hfolder⟩ := site.walked
  rw [hjoin, List.reverse_append, List.reverse_singleton, List.singleton_append,
    List.dropWhile_cons_of_neg (by simp [hname.1])] at hdrop
  obtain ⟨_, rfl⟩ := List.cons.inj hdrop
  -- the way to what was put begins with the way of the path, up to segments that name nothing
  have hq : w.tree.nodeAt? q = some .folder := FileTree.nodeAt?_of_node? hfolder
  have hbase : w.base (p.join name) = w.base p := by
    rw [base, base, Path.isAbsolute_join hrelative]
  rw [List.reverse_reverse, hbase] at hwalk
  have hbase' : w'.base p = w.base p := by rw [base, base, hgrows.cwd]
  have hend := FileTree.walk_mono (fun l hl => hgrows.folder hl) (node?_base hground p)
    (hp ▸ FileTree.walk_append_idle hwalk hq hidle) hq
  have hlocate : w'.locate p = .ok q.place := by
    have hfollow : w'.follow p = .ok q := by
      rw [follow, hcheck, hbase']
      exact hend
    rw [locate, hfollow]
    exact if_pos hthere
  rw [hlocate, locate_eq_ok (base_of (hgrows.cwd ▸ hcwd) p) hlocate]

/-- Where something was put at a name, a file can be read by the same path for as long as the
workspace grows. -/
theorem read?_of_isSite (hcwd : w.cwd.Of c) (hground : w.IsGrounded) {front : List String}
    {parent : Location} {last name : String} (hsegments : p.segments = front ++ [last])
    (hlast : IsStep last) (site : w.IsSite c p parent name)
    {folders : Location → Prop} {files : Location → ByteArray → Prop}
    (hgrows : w.Grows folders files w') (hfile : w'.tree.node? (p.target c) = some (.file content)) :
    w'.read? p = some content := by
  obtain ⟨_, back, q, hdrop, hwalk, hthere, hfolder⟩ := site.walked
  rw [hsegments, List.reverse_append, List.reverse_singleton, List.singleton_append,
    List.dropWhile_cons_of_neg (by simp [hlast.1])] at hdrop
  obtain ⟨_, rfl⟩ := List.cons.inj hdrop
  rw [List.reverse_reverse] at hwalk
  have hof := FileTree.of_walk (base_of hcwd p) hwalk
  have htarget : p.target c = q.place ++ [last] := by
    rw [Path.target, hsegments, Location.along_append, Location.along_singleton _ hlast,
      hof.place_eq hthere]
  have hname : IsName last := by
    apply FileTree.isName_of_mem hfile
    simp [htarget]
  have hbase : w'.base p = w.base p := by rw [base, base, hgrows.cwd]
  have hparent := FileTree.walk_mono (fun l hl => hgrows.folder hl) (node?_base hground p) hwalk
    (FileTree.nodeAt?_of_node? hfolder)
  have hend : w'.tree.walk (w'.base p) p.segments = .ok (q.child last) := by
    rw [hbase, hsegments, FileTree.walk_append hparent]
    apply FileTree.walk_singleton hthere (hgrows.folder hfolder) hname
    rw [← htarget, hfile]
    rfl
  have hfollow : w'.follow p = .ok (q.child last) := by
    rw [follow, site.usable]
    exact hend
  have hnode : w'.node? p = some (.file content) := by
    rw [node?, hfollow]
    simp only
    rw [FileTree.nodeAt?_of_removed_eq_zero rfl, Position.place_child, ← htarget, hfile]
  rw [read?, hnode]

/-! ## Removal -/

/-- Who runs below a folder that is cleared is left with that folder. -/
theorem isGrounded_clear (hw : w.IsGrounded) {l : Location} (hl : w.tree.node? l = some .folder) :
    (w.clear l).IsGrounded := by
  rw [IsGrounded, Workspace.clear, Position.clear, FileTree.node?_clear]
  split
  · rw [Position.place, List.reverse_reverse, if_neg (fun h => h.2 rfl), hl]
  · rename_i hout
    rw [if_neg fun h => hout (List.isPrefixOf_iff_prefix.2 h.1)]
    exact hw

theorem isGrounded_erase (hw : w.IsGrounded) {parent : Location}
    (hparent : w.tree.node? parent = some .folder) (name : String) :
    (w.erase parent name).IsGrounded := by
  rw [IsGrounded, Workspace.erase, Position.erase, FileTree.node?_erase]
  split
  · rw [Position.place, List.reverse_reverse, if_neg, hparent]
    intro h
    have hlength := h.length_le
    rw [List.length_append, List.length_singleton] at hlength
    omega
  · rename_i hout
    rw [if_neg fun h => hout (List.isPrefixOf_iff_prefix.2 h)]
    exact hw

theorem removeFolder_isGrounded (hcwd : w.cwd.Of c) (hw : w.IsGrounded) (p : Path) :
    (w.removeFolder p).1.IsGrounded := by
  rw [removeFolder]
  split
  · exact hw
  · split
    · rename_i hfolder
      have hclear := isGrounded_clear hw hfolder
      simp only
      split
      · rename_i parent name hsite
        have hparent := (isSite_of_site (base_of (hcwd.clear _) p) hsite).folder
        exact isGrounded_erase hclear hparent name
      · exact hclear
      · exact hclear
    · exact hw

/-- What it takes to remove a folder. The folder itself stays if the path led through it. -/
theorem removeFolder_eq_true_iff : w.removeFolder p = (w', true) ↔
    ∃ l, w.locate p = .ok l ∧ w.tree.node? l = some .folder ∧
      ((∃ parent name, (w.clear l).site p = .ok (parent, name) ∧
          w' = (w.clear l).erase parent name) ∨
        (w.clear l).site p = .error .missing ∧ w' = w.clear l) := by
  constructor
  · intro h
    rw [removeFolder] at h
    split at h
    · cases h
    rename_i l hlocate
    split at h
    · rename_i hfolder
      simp only at h
      split at h
      · rename_i parent name hsite
        obtain ⟨rfl, _⟩ := Prod.mk.inj h
        exact ⟨l, hlocate, hfolder, Or.inl ⟨parent, name, hsite, rfl⟩⟩
      · rename_i hmissing
        obtain ⟨rfl, _⟩ := Prod.mk.inj h
        exact ⟨l, hlocate, hfolder, Or.inr ⟨hmissing, rfl⟩⟩
      · cases h
    · cases h
  · rintro ⟨l, hlocate, hfolder, ⟨parent, name, hsite, rfl⟩ | ⟨hmissing, rfl⟩⟩
    · simp only [removeFolder, hlocate, hfolder, hsite]
    · simp only [removeFolder, hlocate, hfolder, hmissing]

theorem folder_of_removeFolder (hcwd : w.cwd.Of c) (h : w.removeFolder p = (w', true)) :
    w.tree.node? (p.target c) = some .folder := by
  obtain ⟨l, hlocate, hfolder, _⟩ := removeFolder_eq_true_iff.1 h
  rwa [locate_eq_ok (base_of hcwd p) hlocate] at hfolder

/-- Removing a folder changes nothing but what is at the place it leads to or below. -/
theorem removeFolder_spec (hcwd : w.cwd.Of c) {done : Bool} (h : w.removeFolder p = (w', done)) :
    w'.cwd.Of c ∧
      (∀ l, ¬ p.target c <+: l → w'.tree.node? l = w.tree.node? l) ∧
      (done = true → ∀ l, p.target c <+: l → l ≠ p.target c → w'.tree.node? l = none) := by
  rw [removeFolder] at h
  split at h
  · obtain ⟨rfl, rfl⟩ := Prod.mk.inj h
    exact ⟨hcwd, fun _ _ => rfl, fun h => nomatch h⟩
  · rename_i l hlocate
    obtain rfl := locate_eq_ok (base_of hcwd p) hlocate
    split at h
    · -- the folder is emptied first, and only then taken out if that can be done
      have hclear : (w.clear (p.target c)).cwd.Of c := hcwd.clear _
      have hframe : ∀ l, ¬ p.target c <+: l →
          (w.clear (p.target c)).tree.node? l = w.tree.node? l := fun l hl => by
        rw [Workspace.clear, FileTree.node?_clear, if_neg fun hin => hl hin.1]
      have hgone : ∀ l, p.target c <+: l → l ≠ p.target c →
          (w.clear (p.target c)).tree.node? l = none := fun l hl hne => by
        rw [Workspace.clear, FileTree.node?_clear, if_pos ⟨hl, hne.symm⟩]
      simp only at h
      split at h
      · rename_i parent name hsite
        obtain ⟨rfl, rfl⟩ := Prod.mk.inj h
        have htarget := (isSite_of_site (base_of hclear p) hsite).target
        refine ⟨hclear.erase _ _, fun l hl => ?_, fun _ l hl hne => ?_⟩
        · rw [Workspace.erase, FileTree.node?_erase, ← htarget, if_neg hl, hframe l hl]
        · rw [Workspace.erase, FileTree.node?_erase, ← htarget, if_pos hl]
      · obtain ⟨rfl, rfl⟩ := Prod.mk.inj h
        exact ⟨hclear, hframe, fun _ => hgone⟩
      · obtain ⟨rfl, rfl⟩ := Prod.mk.inj h
        exact ⟨hclear, hframe, fun h => nomatch h⟩
    · obtain ⟨rfl, rfl⟩ := Prod.mk.inj h
      exact ⟨hcwd, fun _ _ => rfl, fun h => nomatch h⟩

end Workspace

end ModText
