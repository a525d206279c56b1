import ModText.Config
import ModText.Proofs.Disk.Straight

/-!
# Where the configuration is found

The search for a configuration goes up the path of a folder as it is written. If the path is
straight, that is, if it starts at the root and has no dots in it, then this is the way from the
place of the folder up to the root. The nearest folder that has a configuration gives it, unless a
folder below is the top of a repository.

A folder is asked by its path with a name put behind it, and a disk takes no path of more than 4095
bytes. Slashes that are written too often count there.
-/

namespace ModText

namespace Config

variable {w : Workspace} {start folder : Path}

theorem isName_fileName : IsName fileName := by
  decide +kernel

theorem isName_repositoryMark : IsName repositoryMark := by
  decide +kernel

/-- The search looks at a folder and goes on with its parent. -/
theorem findFile_eq (w : Workspace) (folder : Path) : findFile w folder =
    if w.holds (folder.join fileName) then some (folder.join fileName)
    else if w.holds (folder.join repositoryMark) then none
    else folder.parent?.bind (findFile w) := by
  rw [findFile, Path.ancestors_eq_cons, firstFile]
  cases folder.parent? <;> rfl

/-- The search ends at the first folder with a configuration or the mark of a repository. -/
theorem firstFile_eq_find? (w : Workspace) (folders : List Path) : firstFile w folders =
    (folders.find? fun q => w.holds (q.join fileName) || w.holds (q.join repositoryMark)).bind
      fun q => if w.holds (q.join fileName) then some (q.join fileName) else none := by
  induction folders with
  | nil => rfl
  | cons first rest ih =>
    rw [firstFile, ih, List.find?_cons]
    by_cases hfile : w.holds (first.join fileName)
    · simp [hfile]
    · by_cases hmark : w.holds (first.join repositoryMark) <;> simp [hfile, hmark]

theorem firstFile_eq_some_iff {folders : List Path} {file : Path} :
    firstFile w folders = some file ↔ ∃ folder, (∃ nearer farther,
      folders = nearer ++ folder :: farther ∧ w.holds (folder.join fileName) ∧
      ∀ q ∈ nearer, ¬ w.holds (q.join fileName) ∧ ¬ w.holds (q.join repositoryMark)) ∧
      file = folder.join fileName := by
  rw [firstFile_eq_find?, Option.bind_eq_some_iff]
  constructor
  · rintro ⟨folder, hfind, hfile⟩
    obtain ⟨-, nearer, farther, hfolders, hnearer⟩ := List.find?_eq_some_iff_append.1 hfind
    split at hfile
    · rename_i hholds
      exact ⟨folder, ⟨nearer, farther, hfolders, hholds, by simpa using hnearer⟩,
        (Option.some.inj hfile).symm⟩
    · cases hfile
  · rintro ⟨folder, ⟨nearer, farther, hfolders, hholds, hnearer⟩, rfl⟩
    exact ⟨folder, List.find?_eq_some_iff_append.2 ⟨by simp [hholds], nearer, farther, hfolders,
      by simpa using hnearer⟩, if_pos hholds⟩

/-- Of a folder and those above it, this is the nearest that has a configuration, and no nearer one
is the top of a repository. -/
def IsNearest (w : Workspace) (start folder : Path) : Prop :=
  ∃ nearer farther, start.ancestors = nearer ++ folder :: farther ∧
    w.HasEntry folder fileName ∧
    ∀ q ∈ nearer, ¬ w.HasEntry q fileName ∧ ¬ w.HasEntry q repositoryMark

theorem findFile_eq_some_iff (h : start.IsStraight) {file : Path} :
    findFile w start = some file ↔
      ∃ folder, IsNearest w start folder ∧ file = folder.join fileName := by
  have hholds : ∀ q ∈ start.ancestors, ∀ name, IsName name →
      (w.holds (q.join name) ↔ w.HasEntry q name) := fun q hq name hname =>
    Workspace.holds_join_iff (h.of_mem_ancestors hq) hname
  rw [findFile, firstFile_eq_some_iff]
  refine exists_congr fun folder => and_congr_left fun _ => exists_congr fun nearer =>
    exists_congr fun farther => and_congr_right fun hancestors => ?_
  rw [hancestors] at hholds
  apply and_congr
  · exact hholds folder (by simp) fileName isName_fileName
  · refine forall₂_congr fun q hq => ?_
    rw [hholds q (by simp [hq]) fileName isName_fileName,
      hholds q (by simp [hq]) repositoryMark isName_repositoryMark]

/-- **The nearest configuration is found.** For a folder with a straight path:

* the search looks at the folder and goes on with its parent, so it meets the folders on the way to
  the root, each of them once;
* it finds the configuration of the nearest one that has any, unless a folder before that is the top
  of a repository; nothing is found exactly if there is no such folder;
* what is found is in the place of that folder. -/
theorem findFile_of_isStraight (w : Workspace) (h : start.IsStraight) :
    (∀ folder ∈ start.ancestors, findFile w folder =
      if w.holds (folder.join fileName) then some (folder.join fileName)
      else if w.holds (folder.join repositoryMark) then none
      else folder.parent?.bind (findFile w)) ∧
    start.ancestors.map Path.steps = start.steps.inits.reverse ∧
    (∀ file, findFile w start = some file ↔
      ∃ folder, IsNearest w start folder ∧ file = folder.join fileName) ∧
    (findFile w start = none ↔ ∀ folder, ¬ IsNearest w start folder) ∧
    ∀ folder, IsNearest w start folder →
      w.locate (folder.join fileName) = .ok (folder.steps ++ [fileName]) := by
  refine ⟨fun folder _ => findFile_eq w folder, h.map_steps_ancestors,
    fun file => findFile_eq_some_iff h, ?_, ?_⟩
  · rw [Option.eq_none_iff_forall_ne_some]
    constructor
    · intro hnone folder hnearest
      exact hnone _ ((findFile_eq_some_iff h).2 ⟨folder, hnearest, rfl⟩)
    · intro hnone file hfile
      obtain ⟨folder, hnearest, -⟩ := (findFile_eq_some_iff h).1 hfile
      exact hnone folder hnearest
  · rintro folder ⟨nearer, farther, hancestors, hentry, -⟩
    have hstraight := h.of_mem_ancestors (q := folder) (by simp [hancestors])
    have hholds := (Workspace.holds_join_iff hstraight isName_fileName).2 hentry
    rw [← hstraight.steps_join isName_fileName]
    exact (Workspace.locate_of_holds (hstraight.join isName_fileName) hholds).1

/-- A disk with a configuration at the top of a repository, and another repository below. -/
def nestedWorkspace : Workspace :=
  let w := ((⟨.empty, {}⟩ : Workspace).makeFolders ⟨"/in/.git"⟩).1
  let w := (w.makeFolders ⟨"/in/a/b"⟩).1
  let w := (w.makeFolders ⟨"/in/c/.git"⟩).1
  (w.write? ⟨"/in/.modlocrc.json"⟩ "\x7b\x7d".toUTF8).getD w

/-- The configuration is found from two folders below, past a slash too many, and not from the
repository below. -/
theorem findFile_of_isStraight_nested :
    (Path.mk "/in/a//b").IsStraight ∧
      IsNearest nestedWorkspace ⟨"/in/a//b"⟩ ⟨"/in"⟩ ∧
      findFile nestedWorkspace ⟨"/in/a//b"⟩ = some ⟨"/in/.modlocrc.json"⟩ ∧
      findFile nestedWorkspace ⟨"/in/c"⟩ = none := by
  have hstraight : (Path.mk "/in/a//b").IsStraight := ⟨by decide, by decide +kernel⟩
  have hnearest : IsNearest nestedWorkspace ⟨"/in/a//b"⟩ ⟨"/in"⟩ :=
    ⟨[⟨"/in/a//b"⟩, ⟨"/in/a"⟩], [⟨"/"⟩], by decide +kernel, by decide +kernel, by decide +kernel⟩
  obtain ⟨-, -, hfound, -⟩ := findFile_of_isStraight nestedWorkspace hstraight
  exact ⟨hstraight, hnearest, (hfound _).2 ⟨_, hnearest, by decide +kernel⟩, by decide +kernel⟩

/-- With 4085 slashes behind it a path leads to the folder that has the configuration, but the path
of the configuration has 4101 bytes then, and nothing is found. -/
theorem findFile_of_padded :
    let start : Path := ⟨Path.padded 4085 "/in"⟩
    start.IsStraight ∧ start.steps = ["in"] ∧ nestedWorkspace.isFolder start ∧
      nestedWorkspace.tree.node? (start.steps ++ [fileName]) = some (.file "\x7b\x7d".toUTF8) ∧
      findFile nestedWorkspace start = none := by
  intro start
  have hstraight : start.IsStraight := Path.isStraight_padded ⟨by decide, by decide +kernel⟩
  have hsteps : start.steps = ["in"] := by
    rw [Path.steps_padded]
    decide +kernel
  have hsize : start.text.utf8ByteSize = 4088 := Path.utf8ByteSize_padded
  have hfolder : nestedWorkspace.tree.node? start.steps = some .folder := by
    rw [hsteps]
    decide +kernel
  refine ⟨hstraight, hsteps, ?_, by rw [hsteps]; decide +kernel, ?_⟩
  · have hnames := FileTree.isName_of_mem hfolder
    have hcheck := (hstraight.check_eq_ok_iff hnames).2 (by rw [hsize]; decide)
    rw [Workspace.isFolder_iff,
      Workspace.node?_of_locate (Workspace.locate_of_isStraight hstraight hfolder hcheck), hfolder]
  · rw [Option.eq_none_iff_forall_ne_some]
    intro file hfile
    obtain ⟨folder, ⟨nearer, farther, hancestors, ⟨hsome, hshort⟩, -⟩, -⟩ :=
      (findFile_eq_some_iff hstraight).1 hfile
    have hways := hstraight.map_steps_ancestors
    rw [hsteps, hancestors, List.map_append, List.map_cons] at hways
    -- the folder is the one where the search starts, or it is the root
    cases nearer with
    | nil =>
      obtain rfl : start = folder := (List.cons.inj hancestors).1
      have hlong := @Path.utf8ByteSize_join start fileName (by decide +kernel)
      rw [hsize] at hlong
      exact absurd (hlong.trans hshort) (by decide +kernel)
    | cons q nearer =>
      have hrest : nearer.map Path.steps ++ folder.steps :: farther.map Path.steps = [[]] :=
        (List.cons.inj hways).2
      have hroot : folder.steps ∈ nearer.map Path.steps ++ folder.steps :: farther.map Path.steps :=
        List.mem_append_right _ List.mem_cons_self
      rw [hrest, List.mem_singleton] at hroot
      rw [hroot] at hsome
      exact absurd hsome (by decide +kernel)

end Config

end ModText
