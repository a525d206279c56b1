import ModText.Config
import ModText.Proofs.Mod.Listing

/-!
# The code of a mod among its resources

The code of a mod is what its path leads to, but what is kept out of the resources is what has the text
of that path. The two agree if the path is plain, that is, if it names one thing after the other. With
dots in it, with a slash too many or from the root on, a path is followed as well, and then the code is a
resource like other files.
-/

namespace ModText

namespace Path

/-- The path has no dots and no slash too many in it. -/
def IsPlain (p : Path) : Prop :=
  ∀ s ∈ p.segments, IsStep s

instance (p : Path) : Decidable p.IsPlain :=
  inferInstanceAs (Decidable (∀ s ∈ p.segments, IsStep s))

theorem IsPlain.isAbsolute {p : Path} (h : p.IsPlain) : p.isAbsolute = false := by
  rw [← Bool.not_eq_true, isAbsolute_iff_segments]
  rintro ⟨s, rest, hsegments⟩
  exact (h "" (hsegments ▸ List.mem_cons_self)).1 rfl

theorem IsPlain.target_join {relative : String} (h : (Path.mk relative).IsPlain) (root : Path)
    (c : Location) : (root.join relative).target c = root.target c ++ (Path.mk relative).segments :=
  ((isBelow_join root h.isAbsolute rfl h).2 c).1

end Path

namespace ModFolder

variable {w : Workspace} {root : Path} {codeFile : String} {ignores : List String}
  {patterns : List (List Glob.Token)} {m : ModFolder} {content : ByteArray}

theorem valid_of_mapM_parseIgnore (h : ignores.mapM parseIgnore = .ok patterns) :
    ∀ pattern ∈ ignores, ∃ tokens, Glob.parse pattern = .ok tokens := by
  induction ignores generalizing patterns with
  | nil => simp
  | cons first rest ih =>
    rw [List.mapM_cons] at h
    cases hfirst : Glob.parse first with
    | error e =>
      rw [parseIgnore, hfirst] at h
      cases h
    | ok tokens =>
      cases hrest : rest.mapM parseIgnore with
      | error e =>
        rw [parseIgnore, hfirst, hrest] at h
        cases h
      | ok patterns => exact List.forall_mem_cons.2 ⟨⟨tokens, hfirst⟩, ih hrest⟩

/-- The names that lead from the mod to its code make up the path of the code exactly if that is
plain. -/
theorem intercalate_eq_codeFile_iff (hopen : openAt w root codeFile ignores = .ok m)
    {names : List String} (hlocate : w.locate (root.join codeFile) = .ok (m.location ++ names))
    (hne : names ≠ []) (hnames : ∀ s ∈ names, IsName s) :
    "/".intercalate names = codeFile ↔ (Path.mk codeFile).IsPlain := by
  constructor
  · rintro rfl s hs
    rw [(Path.segments_names hne hnames).2] at hs
    exact (hnames s hs).isStep
  · intro hplain
    obtain ⟨_, _, hopens⟩ := openAt_eq_ok_iff.1 hopen
    obtain rfl := hopens.root
    have hopened := isOpened_of_openAt hopen
    have hsame : (m.root.join codeFile).isAbsolute = m.root.isAbsolute :=
      Path.isAbsolute_join hplain.isAbsolute
    have hthere : (w.base (m.root.join codeFile)).removed = 0 :=
      Workspace.removed_base (fun h => hsame.trans h) hopened.there
    have hplace : m.location ++ names = m.location ++ (Path.mk codeFile).segments := by
      rw [Workspace.locate_eq_ok (Workspace.base_of_removed_eq_zero hthere) hlocate,
        hplain.target_join, ← hopened.location]
    rw [List.append_cancel_left hplace, Path.intercalate_segments]

/-- **When the code of a mod is one of its resources.** If the code can be read, then its path leads to
a file. Some resource denotes that file exactly if it lies below the folder of the mod, the path of the
code is not plain, and the file is neither that of the build properties nor to be ignored. -/
theorem code_is_resource_iff (hopen : openAt w root codeFile ignores = .ok m)
    (hcode : m.toMod.code w = .ok content) :
    ∃ place, w.locate (root.join codeFile) = .ok place ∧ w.tree.node? place = some (.file content) ∧
      ((∃ file ∈ m.resources, m.location ++ (Path.mk file).segments = place) ↔
        ∃ names, place = m.location ++ names ∧ ¬(Path.mk codeFile).IsPlain ∧
          "/".intercalate names ≠ buildFile ∧ ¬Ignores ignores ("/".intercalate names)) := by
  obtain ⟨patterns, hpatterns, hopens⟩ := openAt_eq_ok_iff.1 hopen
  have hopened := isOpened_of_openAt hopen
  have hvalid := valid_of_mapM_parseIgnore hpatterns
  have hread : w.read? (root.join codeFile) = some content := by
    rw [← hopens.root, ← hopens.codeFile]
    exact readFile_eq_ok hcode
  obtain ⟨place, hlocate, hfile⟩ := Workspace.exists_locate_of_read? hread
  -- a file below the folder is led to by names
  have hbelow : ∀ names, place = m.location ++ names → names ≠ [] ∧ ∀ s ∈ names, IsName s := by
    rintro names rfl
    refine ⟨?_, fun s hs => FileTree.isName_of_mem hfile s (List.mem_append_right _ hs)⟩
    rintro rfl
    rw [List.append_nil, hopened.folder] at hfile
    cases hfile
  refine ⟨place, hlocate, hfile, ?_⟩
  constructor
  · rintro ⟨file, hmem, hplace⟩
    obtain ⟨names, _, hne, hnames, rfl, _⟩ := hopened.resources file hmem
    obtain ⟨_, hother, hbuild, hignored⟩ := (mem_resources_iff hvalid hopen).1 hmem
    rw [(Path.segments_names hne hnames).2] at hplace
    subst hplace
    exact ⟨names, rfl, fun hplain =>
      hother ((intercalate_eq_codeFile_iff hopen hlocate hne hnames).2 hplain), hbuild, hignored⟩
  · rintro ⟨names, hplace, hspelled, hbuild, hignored⟩
    obtain ⟨hne, hnames⟩ := hbelow names hplace
    obtain rfl := hplace
    have hother : "/".intercalate names ≠ codeFile := fun h =>
      hspelled ((intercalate_eq_codeFile_iff hopen hlocate hne hnames).1 h)
    refine ⟨"/".intercalate names, (mem_resources_iff hvalid hopen).2
      ⟨⟨content, names, hne, rfl, hfile⟩, hother, hbuild, hignored⟩, ?_⟩
    rw [(Path.segments_names hne hnames).2]

/-- A dot in front of the path of the code makes the code a resource, and without it the code is none. -/
theorem code_is_resource_of_dotted :
    ({ codeFile := "./module.json" } : Config).validate = .ok () ∧
    (∃ m, openAt interleavedWorkspace ⟨"Mod"⟩ "./module.json" [] = .ok m ∧
      m.toMod.code interleavedWorkspace = .ok "\x7b\x7d".toUTF8 ∧
      ∃ file ∈ m.resources, m.location ++ (Path.mk file).segments = ["in", "Mod", "module.json"]) ∧
    ∃ m, openAt interleavedWorkspace ⟨"Mod"⟩ "module.json" [] = .ok m ∧
      m.toMod.code interleavedWorkspace = .ok "\x7b\x7d".toUTF8 ∧
      ¬∃ file ∈ m.resources, m.location ++ (Path.mk file).segments = ["in", "Mod", "module.json"] := by
  have hopens : ∀ codeFile ∈ ["./module.json", "module.json"],
      ∃ m, openAt interleavedWorkspace ⟨"Mod"⟩ codeFile [] = .ok m ∧ m.location = ["in", "Mod"] ∧
        m.toMod.code interleavedWorkspace = .ok "\x7b\x7d".toUTF8 := by
    intro codeFile hcodeFile
    have hfound : ∀ codeFile ∈ ["./module.json", "module.json"],
        (openAt interleavedWorkspace ⟨"Mod"⟩ codeFile []).toOption.map (fun m =>
          (m.location, (m.toMod.code interleavedWorkspace).toOption)) =
        some (["in", "Mod"], some "\x7b\x7d".toUTF8) := by
      decide +kernel
    obtain ⟨m, hm, hboth⟩ := Option.map_eq_some_iff.1 (hfound codeFile hcodeFile)
    obtain ⟨hlocation, hcode⟩ := Prod.mk.inj hboth
    exact ⟨m, eq_ok_of_toOption hm, hlocation, eq_ok_of_toOption hcode⟩
  obtain ⟨m, hopen, hlocation, hcode⟩ := hopens "./module.json" (by simp)
  obtain ⟨m', hopen', -, hcode'⟩ := hopens "module.json" (by simp)
  obtain ⟨place, hlocate, -, hlisted⟩ := code_is_resource_iff hopen hcode
  obtain ⟨place', hlocate', -, hlisted'⟩ := code_is_resource_iff hopen' hcode'
  have hplace : ["in", "Mod", "module.json"] = place :=
    Except.ok.inj ((eq_ok_of_toOption (by decide +kernel)).symm.trans hlocate)
  have hplace' : ["in", "Mod", "module.json"] = place' :=
    Except.ok.inj ((eq_ok_of_toOption (by decide +kernel)).symm.trans hlocate')
  refine ⟨eq_ok_of_toOption (by decide +kernel), ⟨m, hopen, hcode, ?_⟩, m', hopen', hcode', ?_⟩
  · rw [hplace, hlisted, ← hplace, hlocation]
    exact ⟨["module.json"], rfl, by decide, by decide, by simp [Ignores]⟩
  · rw [hplace', hlisted']
    rintro ⟨_, _, hspelled, _⟩
    exact hspelled (by decide)

end ModFolder

end ModText
