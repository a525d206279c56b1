import Mathlib.Data.List.Nodup
import ModText.Proofs.Disk.Views
import ModText.Proofs.Output.Plan

/-!
# What a mod in a folder lists

A mod lists the files below its folder, each by the names that lead to it from there, in the order
of these names. So what is listed depends on the folder alone, and not on the path by which it was
opened: with dots and slashes in between, from the root or from where the program runs.

The path counts in one respect. It is put in front of everything that the mod reads, and a disk
takes no path of more than 4095 bytes. A path that is blown up with dots can be short enough to open
the folder and too long to read what is listed then, and one that is longer still does not open it.
-/

namespace ModText

namespace ModFolder

variable {w : Workspace} {root : Path} {l : Location} {codeFile : String} {ignores : List String}
  {patterns : List (List Glob.Token)} {m : ModFolder}

/-! ## Ignored files -/

/-- Whether one of these patterns describes a file. -/
def Ignores (ignores : List String) (file : String) : Prop :=
  ∃ pattern ∈ ignores, ∃ tokens, Glob.parse pattern = .ok tokens ∧
    Glob.matchesChars tokens file.toList

/-- Valid patterns are parsed, and they describe what is to be ignored. -/
theorem exists_mapM_parseIgnore
    (hvalid : ∀ pattern ∈ ignores, ∃ tokens, Glob.parse pattern = .ok tokens) :
    ∃ patterns, ignores.mapM parseIgnore = .ok patterns ∧
      ∀ file, patterns.any (Glob.describes · file) ↔ Ignores ignores file := by
  induction ignores with
  | nil => exact ⟨[], rfl, by simp [Ignores]⟩
  | cons pattern rest ih =>
    obtain ⟨tokens, htokens⟩ := hvalid pattern List.mem_cons_self
    obtain ⟨patterns, hpatterns, hdescribes⟩ :=
      ih fun p hp => hvalid p (List.mem_cons_of_mem pattern hp)
    have hfirst : parseIgnore pattern = .ok tokens := by rw [parseIgnore, htokens]
    refine ⟨tokens :: patterns, ?_, fun file => ?_⟩
    · rw [List.mapM_cons, hfirst, hpatterns]
      rfl
    · rw [List.any_cons, Bool.or_eq_true, hdescribes, Glob.describes_eq]
      simp [Ignores, htokens]

/-! ## Opening -/

/-- Whether a folder can be opened by a path that leads to it: it has a name, and the path does not
get too long on the way to it or below it. -/
structure Openable (w : Workspace) (root : Path) (l : Location) : Prop where
  named : l ≠ []
  there : (w.base root).removed = 0
  near : (w.base root).place.fitsAlong root.segments
  listable : ∀ names, names ≠ [] → w.tree.node? (l ++ names) = some .folder →
    (pathBelow root names).isUsable

theorem exists_openAt_iff (hlocate : w.locate root = .ok l)
    (hfolder : w.tree.node? l = some .folder)
    (hvalid : ∀ pattern ∈ ignores, ∃ tokens, Glob.parse pattern = .ok tokens) :
    (∃ m, openAt w root codeFile ignores = .ok m) ↔ Openable w root l := by
  have hcanonical := Workspace.canonical?_of_locate hlocate
  constructor
  · rintro ⟨m, hopen⟩
    obtain ⟨_, _, hopens⟩ := openAt_eq_ok_iff.1 hopen
    have hfound := hopens.canonical
    rw [hcanonical] at hfound
    split at hfound
    · rename_i hnear
      obtain rfl : l = m.location := Option.some.inj hfound
      have hnamed := hopens.named
      refine ⟨?_, hnear.1, hnear.2, unlistable?_eq_none_iff.1 hopens.listable⟩
      intro hroot
      rw [nameAt, hroot] at hnamed
      cases hnamed
    · cases hfound
  · intro h
    obtain ⟨patterns, hpatterns, _⟩ := exists_mapM_parseIgnore hvalid
    have hopens : Opens w root codeFile patterns
        ⟨root, l, l.getLast h.named, codeFile,
          ((w.tree.filesBelow l).map ("/".intercalate ·)).filter (isResource codeFile patterns)⟩ := {
      isFolder := by rw [Workspace.isFolder_iff, Workspace.node?_of_locate hlocate, hfolder]
      canonical := by rw [hcanonical, if_pos ⟨h.there, h.near⟩]
      named := by rw [nameAt, List.getLast?_eq_some_getLast h.named]
      listable := unlistable?_eq_none_iff.2 h.listable
      root := rfl
      codeFile := rfl
      resources := rfl }
    exact ⟨_, openAt_eq_ok_iff.2 ⟨patterns, hpatterns, hopens⟩⟩

/-! ## Resources -/

/-- Whether a file below a place has this path there. -/
def IsFileBelow (w : Workspace) (l : Location) (file : String) (content : ByteArray) : Prop :=
  ∃ names, names ≠ [] ∧ file = "/".intercalate names ∧
    w.tree.node? (l ++ names) = some (.file content)

theorem mem_resources_iff
    (hvalid : ∀ pattern ∈ ignores, ∃ tokens, Glob.parse pattern = .ok tokens)
    (hopen : openAt w root codeFile ignores = .ok m) {file : String} :
    file ∈ m.resources ↔ (∃ content, IsFileBelow w m.location file content) ∧
      file ≠ codeFile ∧ file ≠ buildFile ∧ ¬ Ignores ignores file := by
  obtain ⟨patterns, hpatterns, hopens⟩ := openAt_eq_ok_iff.1 hopen
  obtain ⟨patterns', hpatterns', hdescribes⟩ := exists_mapM_parseIgnore hvalid
  obtain rfl : patterns' = patterns := Except.ok.inj (hpatterns'.symm.trans hpatterns)
  rw [hopens.resources, List.mem_filter, List.mem_map, ← hdescribes, isResource, Bool.and_eq_true,
    Bool.and_eq_true, bne_iff_ne, bne_iff_ne, Bool.not_eq_true', Bool.not_eq_true, and_assoc]
  apply and_congr_left
  intro _
  simp only [FileTree.mem_filesBelow, IsFileBelow]
  constructor
  · rintro ⟨names, ⟨hne, content, hfile⟩, rfl⟩
    exact ⟨content, names, hne, rfl, hfile⟩
  · rintro ⟨content, names, hne, rfl, hfile⟩
    exact ⟨names, ⟨hne, content, hfile⟩, rfl⟩

/-- The names of what is listed come in order. -/
theorem pairwise_resources (hopen : openAt w root codeFile ignores = .ok m) :
    (m.resources.map fun file => (Path.mk file).segments).Pairwise (· < ·) := by
  obtain ⟨patterns, _, hopens⟩ := openAt_eq_ok_iff.1 hopen
  have hapart : ((w.tree.filesBelow m.location).map ("/".intercalate ·)).map
      (fun file => (Path.mk file).segments) = w.tree.filesBelow m.location := by
    rw [List.map_map]
    refine (List.map_congr_left ?_).trans (List.map_id _)
    intro names hnames
    obtain ⟨hne, content, hfile⟩ := FileTree.mem_filesBelow.1 hnames
    exact (Path.segments_names hne fun s hs =>
      FileTree.isName_of_mem hfile s (List.mem_append_right _ hs)).2
  have hsorted := w.tree.pairwise_filesBelow m.location
  rw [← hapart] at hsorted
  rw [hopens.resources]
  exact hsorted.sublist (List.filter_sublist.map _)

theorem nodup_resources (hopen : openAt w root codeFile ignores = .ok m) : m.resources.Nodup := by
  apply List.Nodup.of_map fun file => (Path.mk file).segments
  apply (pairwise_resources hopen).imp
  intro names names' hlt heq
  exact List.lt_irrefl _ (heq ▸ hlt)

/-- A file of the mod is read by its path, unless that gets too long behind the path of the mod. -/
theorem read_of_isFileBelow (hlocate : w.locate m.root = .ok l) {file : String}
    {content : ByteArray} (hfile : IsFileBelow w l file content) :
    m.toMod.read file w =
      if (m.root.join file).isUsable then .ok content
      else .error (.disk (.reading (m.root.join file))) := by
  obtain ⟨names, hne, rfl, hnode⟩ := hfile
  have hfound := Workspace.node?_join_names hlocate hne hnode
  change m.readFile .reading _ w = _
  rw [readFile, Workspace.read?, hfound]
  by_cases husable : (m.root.join ("/".intercalate names)).isUsable <;> simp [husable]

theorem nameAt_eq_ok {name : String} : nameAt root l = .ok name ↔ l.getLast? = some name := by
  rw [nameAt]
  cases l.getLast? <;> simp

theorem location_of_openAt (hlocate : w.locate root = .ok l)
    (hopen : openAt w root codeFile ignores = .ok m) : m.location = l := by
  obtain ⟨_, _, hopens⟩ := openAt_eq_ok_iff.1 hopen
  have hfound := hopens.canonical
  rw [Workspace.canonical?_of_locate hlocate] at hfound
  split at hfound
  · exact (Option.some.inj hfound).symm
  · cases hfound

/-- All paths that lead to a folder open the same mod. -/
theorem openAt_congr {v : Workspace} {root' : Path} {m' : ModFolder} (htree : v.tree = w.tree)
    (hlocate : w.locate root = .ok l) (hlocate' : v.locate root' = .ok l)
    (hopen : openAt w root codeFile ignores = .ok m)
    (hopen' : openAt v root' codeFile ignores = .ok m') :
    m'.location = m.location ∧ m'.name = m.name ∧ m'.resources = m.resources := by
  obtain ⟨patterns, hpatterns, hopens⟩ := openAt_eq_ok_iff.1 hopen
  obtain ⟨patterns', hpatterns', hopens'⟩ := openAt_eq_ok_iff.1 hopen'
  obtain rfl : patterns' = patterns := Except.ok.inj (hpatterns'.symm.trans hpatterns)
  have hsame : m'.location = m.location :=
    (location_of_openAt hlocate' hopen').trans (location_of_openAt hlocate hopen).symm
  have hnamed := nameAt_eq_ok.1 hopens'.named
  rw [hsame, nameAt_eq_ok.1 hopens.named] at hnamed
  exact ⟨hsame, (Option.some.inj hnamed).symm,
    by rw [hopens'.resources, hopens.resources, hsame, htree]⟩

/-- **What a folder lists as a mod.** A folder can be opened by a path that leads to it exactly if
it is `Openable` by that path, given that the patterns are valid. Then the resources are the files
below it but for the code, the build properties and those that a pattern describes, each of them
once and all of them in the order of their names. Each of them is read as it is, unless its path
gets too long behind that of the mod. Every other path that leads to the folder and opens it, from
wherever the program runs, opens the same mod. -/
theorem openAt_lists_files (hlocate : w.locate root = .ok l)
    (hfolder : w.tree.node? l = some .folder)
    (hvalid : ∀ pattern ∈ ignores, ∃ tokens, Glob.parse pattern = .ok tokens) :
    ((∃ m, openAt w root codeFile ignores = .ok m) ↔ Openable w root l) ∧
    ∀ m, openAt w root codeFile ignores = .ok m →
      m.location = l ∧
      (∀ file, file ∈ m.resources ↔ (∃ content, IsFileBelow w l file content) ∧
        file ≠ codeFile ∧ file ≠ buildFile ∧ ¬ Ignores ignores file) ∧
      m.resources.Nodup ∧
      (m.resources.map fun file => (Path.mk file).segments).Pairwise (· < ·) ∧
      (∀ file ∈ m.resources, ∀ content, IsFileBelow w l file content →
        m.toMod.read file w =
          if (root.join file).isUsable then .ok content
          else .error (.disk (.reading (root.join file)))) ∧
      ∀ v root' m', v.tree = w.tree → v.locate root' = .ok l →
        openAt v root' codeFile ignores = .ok m' →
          m'.location = m.location ∧ m'.name = m.name ∧ m'.resources = m.resources := by
  refine ⟨exists_openAt_iff hlocate hfolder hvalid, fun m hopen => ?_⟩
  obtain ⟨_, _, hopens⟩ := openAt_eq_ok_iff.1 hopen
  obtain rfl := location_of_openAt hlocate hopen
  obtain rfl := hopens.root
  exact ⟨rfl, fun _ => mem_resources_iff hvalid hopen, nodup_resources hopen,
    pairwise_resources hopen, fun _ _ _ => read_of_isFileBelow hlocate,
    fun _ _ _ htree hlocate' => openAt_congr htree hlocate hlocate' hopen⟩

/-- A disk with a mod in which a file and a folder have names that begin alike. The program runs
beside the mod. -/
def interleavedWorkspace : Workspace :=
  let w := ((⟨.empty, {}⟩ : Workspace).makeFolders ⟨"in/Mod/a"⟩).1
  let w := (w.write? ⟨"in/Mod/module.json"⟩ "\x7b\x7d".toUTF8).getD w
  let w := (w.write? ⟨"in/Mod/a.b"⟩ "1".toUTF8).getD w
  let w := (w.write? ⟨"in/Mod/a/x"⟩ "2".toUTF8).getD w
  let w := (w.write? ⟨"in/Mod/a/x.log"⟩ "3".toUTF8).getD w
  ⟨w.tree, .ofPlace ["in"]⟩

theorem openAt_lists_interleaved :
    Openable interleavedWorkspace ⟨"./Mod/"⟩ ["in", "Mod"] ∧
      ∃ m, openAt interleavedWorkspace ⟨"./Mod/"⟩ "module.json" ["*.log"] = .ok m ∧
      m.resources = ["a/x", "a.b"] ∧
      m.toMod.read "a/x" interleavedWorkspace = .ok "2".toUTF8 ∧
      ∀ m', openAt ⟨interleavedWorkspace.tree, {}⟩ ⟨"/in//Mod"⟩ "module.json" ["*.log"] = .ok m' →
        m'.resources = ["a/x", "a.b"] := by
  have hvalid : ∀ pattern ∈ ["*.log"], ∃ tokens, Glob.parse pattern = .ok tokens := by
    intro pattern hpattern
    rw [List.mem_singleton.1 hpattern]
    exact exists_eq_ok (by decide +kernel)
  have hlocate : interleavedWorkspace.locate ⟨"./Mod/"⟩ = .ok ["in", "Mod"] :=
    eq_ok_of_toOption (by decide +kernel)
  have hfolder : interleavedWorkspace.tree.node? ["in", "Mod"] = some .folder := by decide +kernel
  have hresources : (openAt interleavedWorkspace ⟨"./Mod/"⟩ "module.json" ["*.log"]).toOption.map
      resources = some ["a/x", "a.b"] := by
    decide +kernel
  obtain ⟨m, hm, hlisted⟩ := Option.map_eq_some_iff.1 hresources
  have hopen := eq_ok_of_toOption hm
  obtain ⟨hopenable, hlists⟩ := openAt_lists_files hlocate hfolder hvalid
  obtain ⟨_, _, _, _, hread, hsame⟩ := hlists m hopen
  refine ⟨hopenable.1 ⟨m, hopen⟩, m, hopen, hlisted, ?_, fun m' hopen' => ?_⟩
  · rw [hread "a/x" (by simp [hlisted]) "2".toUTF8 ⟨["a", "x"], by decide, by decide +kernel,
      by decide +kernel⟩, if_pos (by decide +kernel)]
  · rw [(hsame ⟨interleavedWorkspace.tree, {}⟩ ⟨"/in//Mod"⟩ m' rfl
      (eq_ok_of_toOption (by decide +kernel)) hopen').2.2, hlisted]

end ModFolder

/-! ### A path that is blown up with dots -/

namespace Path

/-- A path with dots in front that name nothing. -/
def dotted : ℕ → String → String
  | 0, text => text
  | n + 1, text => "." ++ "/" ++ dotted n text

variable {n : ℕ} {text : String}

theorem segments_dotted :
    (Path.mk (dotted n text)).segments = List.replicate n "." ++ (Path.mk text).segments := by
  induction n with
  | zero => rfl
  | succ n ih =>
    rw [dotted, segments_append_slash, ih, segments_of_not_mem (by decide)]
    rfl

theorem isAbsolute_dotted (h : (Path.mk text).isAbsolute = false) :
    (Path.mk (dotted n text)).isAbsolute = false := by
  cases n with
  | zero => exact h
  | succ n => simp [isAbsolute, dotted]

theorem utf8ByteSize_dotted : (dotted n text).utf8ByteSize = 2 * n + text.utf8ByteSize := by
  induction n with
  | zero => simp [dotted]
  | succ n ih =>
    rw [dotted, String.utf8ByteSize_append, String.utf8ByteSize_append, ih]
    change 1 + 1 + _ = _
    omega

theorem isUsable_dotted (hnull : '\x00' ∉ text.toList) :
    (Path.mk (dotted n text)).isUsable ↔ 2 * n + text.utf8ByteSize ≤ 4095 := by
  have hchars : '\x00' ∉ (dotted n text).toList := by
    induction n with
    | zero => exact hnull
    | succ n ih => simp [dotted, ih]
  simp [isUsable, utf8ByteSize_dotted, hchars]

end Path

theorem Location.fitsAlong_dots (l : Location) (n : ℕ) (segments : List String) :
    l.fitsAlong (List.replicate n "." ++ segments) = l.fitsAlong segments := by
  induction n with
  | zero => rfl
  | succ n ih => rw [List.replicate_succ, List.cons_append, fitsAlong, if_pos (Or.inr rfl), ih]

namespace Workspace

variable {w : Workspace} {n : ℕ} {text : String} {l : Location}

theorem base_dotted (h : (Path.mk text).isAbsolute = false) :
    w.base ⟨Path.dotted n text⟩ = w.cwd := by
  rw [base, Path.isAbsolute_dotted h]
  rfl

/-- Dots in front of a path make no difference while the path is short enough. -/
theorem locate_dotted (hground : w.IsGrounded) (hrelative : (Path.mk text).isAbsolute = false)
    (husable : (Path.mk (Path.dotted n text)).isUsable) (h : w.locate ⟨text⟩ = .ok l) :
    w.locate ⟨Path.dotted n text⟩ = .ok l := by
  obtain ⟨q, hfollow, hthere, rfl⟩ := exists_follow_of_locate h
  obtain ⟨hcheck, hwalk⟩ := follow_eq_ok hfollow
  have hbase : w.base ⟨text⟩ = w.cwd := base_dotted (n := 0) hrelative
  have hdots : w.tree.walk w.cwd (List.replicate n ".") = .ok w.cwd :=
    FileTree.walk_append_idle (w.tree.walk_nil w.cwd) (FileTree.nodeAt?_of_node? hground)
      fun s hs => Or.inr (List.eq_of_mem_replicate hs)
  have htext : Path.dotted n text ≠ "" := by
    cases n with
    | zero => exact (check_eq_ok.1 hcheck).1
    | succ n => simp [Path.dotted]
  have hfollow' : w.follow ⟨Path.dotted n text⟩ = .ok q := by
    rw [follow, check_eq_ok.2 ⟨htext, husable⟩, base_dotted hrelative, Path.segments_dotted]
    rw [hbase] at hwalk
    exact (FileTree.walk_append hdots _).trans hwalk
  rw [locate, hfollow']
  exact if_pos hthere

end Workspace

namespace ModFolder

/-- A disk with a mod that has one resource. -/
def iconWorkspace : Workspace :=
  let w := ((⟨.empty, {}⟩ : Workspace).makeFolders ⟨"Mod"⟩).1
  let w := (w.write? ⟨"Mod/m"⟩ "\x7b\x7d".toUTF8).getD w
  (w.write? ⟨"Mod/icon"⟩ "i".toUTF8).getD w

/-- A path of 4093 bytes opens the mod and lists the resource, whose path is too long to be read. A
path of 4097 bytes does not open it, nor can the root of the disk be opened. -/
theorem openAt_lists_unreadable :
    let root : Path := ⟨Path.dotted 2045 "Mod"⟩
    iconWorkspace.tree.node? ["Mod", "icon"] = some (.file "i".toUTF8) ∧
      (∃ m, openAt iconWorkspace root "m" [] = .ok m ∧ "icon" ∈ m.resources ∧
        m.toMod.read "icon" iconWorkspace = .error (.disk (.reading (root.join "icon")))) ∧
      openAt iconWorkspace ⟨Path.dotted 2047 "Mod"⟩ "m" [] =
        .error (.refusal (.modNotFound ⟨Path.dotted 2047 "Mod"⟩)) ∧
      openAt iconWorkspace ⟨"/"⟩ "m" [] = .error (.refusal (.modWithoutName ⟨"/"⟩)) := by
  intro root
  have hnode : iconWorkspace.tree.node? ["Mod", "icon"] = some (.file "i".toUTF8) := by
    decide +kernel
  have hrelative : (Path.mk "Mod").isAbsolute = false := by decide
  have hlocate : iconWorkspace.locate root = .ok ["Mod"] :=
    Workspace.locate_dotted (by decide +kernel) hrelative
      ((Path.isUsable_dotted (by decide)).2 (by decide)) (eq_ok_of_toOption (by decide +kernel))
  have hopenable : Openable iconWorkspace root ["Mod"] := by
    refine ⟨by decide, ?_, ?_, ?_⟩
    · rw [Workspace.base_dotted hrelative]
      rfl
    · rw [Workspace.base_dotted hrelative, Path.segments_dotted, Location.fitsAlong_dots]
      decide +kernel
    · intro names hne hfolder
      have hlisted := FileTree.mem_listing.2 ⟨hne, hfolder⟩
      have hfiles : ∀ entry ∈ iconWorkspace.tree.listing ["Mod"], entry.2 ≠ .folder := by
        decide +kernel
      exact absurd rfl (hfiles _ hlisted)
  obtain ⟨m, hopen⟩ : ∃ m, openAt iconWorkspace root "m" [] = .ok m :=
    (exists_openAt_iff hlocate (by decide +kernel) (by simp)).2 hopenable
  obtain ⟨_, _, hopens⟩ := openAt_eq_ok_iff.1 hopen
  have hbelow : IsFileBelow iconWorkspace ["Mod"] "icon" "i".toUTF8 :=
    ⟨["icon"], by decide, rfl, hnode⟩
  refine ⟨hnode, ⟨m, hopen, ?_, ?_⟩, ?_, rfl⟩
  · rw [mem_resources_iff (by simp) hopen, location_of_openAt hlocate hopen]
    exact ⟨⟨_, hbelow⟩, by decide, by decide, by simp [Ignores]⟩
  · rw [read_of_isFileBelow (hopens.root ▸ hlocate) hbelow, hopens.root, if_neg]
    intro husable
    have hlong : root.text.utf8ByteSize + "icon".utf8ByteSize ≤ _ :=
      Path.utf8ByteSize_join (by decide)
    rw [Path.utf8ByteSize_dotted] at hlong
    simp only [Path.isUsable, Bool.and_eq_true, decide_eq_true_eq] at husable
    have hshort := Nat.le_trans hlong husable.1
    exact absurd hshort (by decide)
  · have hgone : iconWorkspace.isFolder ⟨Path.dotted 2047 "Mod"⟩ = false := by
      rw [← Bool.not_eq_true, Workspace.isFolder_iff]
      intro hfound
      obtain ⟨_, hfollow, _⟩ := Workspace.exists_follow_of_node? hfound
      have husable := (Workspace.check_eq_ok.1 (Workspace.follow_eq_ok hfollow).1).2
      exact absurd ((Path.isUsable_dotted (by decide)).1 husable) (by decide)
    rw [openAt, findFolder, if_neg (by rw [hgone]; decide)]
    rfl

end ModFolder

end ModText
