import ModText.Proofs.Disk.Growth
import ModText.Proofs.Disk.Views
import Mathlib.Data.List.TakeWhile

/-!
# Doing again what was done

A disk lies within another one if all that it has is there too. A path that leads to a folder of the
larger disk can be followed in the smaller one up to what is missing there. So if a folder could be
created with its parents in one of two disks that lie within a third one, then it can be created in
the other as well; and if the other one had nothing more than some of these folders, then both end
as the same disk.

A folder that is there again after it was removed can be removed again. That leaves the same as the
first time, provided that nothing else has changed.
-/

namespace ModText

namespace FileTree

variable {t u : FileTree} {p q : Position} {segments : List String}

/-- All that one disk has is in another one. -/
def Within (t u : FileTree) : Prop :=
  ∀ l, t.node? l = u.node? l ∨ t.node? l = none

theorem Within.node?_eq_some (h : t.Within u) {l : Location} {n : Node}
    (hn : t.node? l = some n) : u.node? l = some n := by
  rcases h l with hsame | hnone
  · rw [← hsame, hn]
  · rw [hn] at hnone
    cases hnone

/-- A walk to a folder is the same in the smaller disk, or it meets a name that is missing. -/
theorem Within.walk (h : t.Within u) (hp : t.node? p.place = some .folder)
    (hwalk : u.walk p segments = .ok q) (hq : u.nodeAt? q = some .folder) :
    t.walk p segments = .ok q ∧ t.node? q.place = some .folder ∨
      t.walk p segments = .error .missing ∧ ∃ s ∈ segments, IsName s := by
  -- both walks are at the same position, until a name is missing in the smaller disk
  induction segments generalizing p with
  | nil =>
    obtain rfl : p = q := Except.ok.inj hwalk
    exact Or.inl ⟨rfl, hp⟩
  | cons s rest ih =>
    have hmem : ∀ {r : Position}, t.walk r rest = .ok q ∧ t.node? q.place = some .folder ∨
        t.walk r rest = .error .missing ∧ (∃ s ∈ rest, IsName s) →
        t.walk r rest = .ok q ∧ t.node? q.place = some .folder ∨
          t.walk r rest = .error .missing ∧ ∃ s' ∈ s :: rest, IsName s' := by
      rintro r (hok | ⟨herror, name, hname, hisName⟩)
      · exact Or.inl hok
      · exact Or.inr ⟨herror, name, List.mem_cons_of_mem s hname, hisName⟩
    rw [walk_cons, nodeAt?_of_node? hp]
    simp only
    obtain ⟨_, ⟨hstay, hrest⟩ | ⟨hup, hrest⟩ | ⟨hname, hthere, hsome, hrest⟩⟩ :=
      walk_cons_eq_ok hwalk
    · rw [if_pos hstay]
      exact hmem (ih hp hrest)
    · rw [if_neg (by simp [hup]), if_pos hup]
      exact hmem (ih (node?_parent hp) hrest)
    · rw [if_neg hname.isStep.not_idle, if_neg hname.isStep.not_up,
        if_neg (Decidable.not_not.2 hname)]
      split
      · rename_i hnext
        have hchild : t.node? (p.child s).place = some .folder := by
          obtain ⟨n, hn⟩ := Option.isSome_iff_exists.1 hnext.2
          have hfile := nodeAt?_ne_file hrest hq
          rw [nodeAt?_of_removed_eq_zero rfl, Position.place_child, h.node?_eq_some hn] at hfile
          rw [Position.place_child, hn]
          cases n with
          | folder => rfl
          | file content => exact absurd rfl (hfile content)
        exact hmem (ih hchild hrest)
      · exact Or.inr ⟨rfl, s, List.mem_cons_self, hname⟩

/-- A name with only slashes behind it is followed in the smaller disk as soon as it is there. -/
theorem Within.walk_name (h : t.Within u) (hthere : p.removed = 0)
    (hp : u.node? p.place = some .folder) (hp' : t.node? p.place = some .folder) {name : String}
    (hname : IsName name) {idle : List String} (hidle : ∀ s ∈ idle, s = "")
    (hwalk : u.walk p (name :: idle) = .ok q) (hq : u.nodeAt? q = some .folder)
    (hsome : (t.node? (p.place ++ [name])).isSome) :
    t.walk p (name :: idle) = .ok q ∧ t.node? q.place = some .folder := by
  obtain ⟨n, hn⟩ := Option.isSome_iff_exists.1 hsome
  have hn' := h.node?_eq_some hn
  have hsome' : (u.node? (p.place ++ [name])).isSome := by rw [hn']; rfl
  rw [← List.singleton_append] at hwalk ⊢
  obtain ⟨r, hlast, hrest⟩ := exists_walk_of_append hwalk
  obtain rfl : p.child name = r := by
    rw [walk_singleton hthere hp hname hsome'] at hlast
    exact Except.ok.inj hlast
  have hfolder := node?_of_walk hp hlast hrest hq
  rw [Position.place_child, hn'] at hfolder
  rw [hfolder, ← Position.place_child] at hn
  rw [walk_append (walk_singleton hthere hp' hname hsome)]
  rcases h.walk hn hrest hq with hend | ⟨_, s, hs, hisName⟩
  · exact hend
  · exact absurd (hidle s hs) hisName.1

end FileTree

namespace Position

variable {l : Location} {p : Position}

theorem clear_of_outside (h : ¬ l <+: p.place) : p.clear l = p := by
  rw [clear, if_neg fun hin => h (List.isPrefixOf_iff_prefix.1 hin)]

theorem erase_of_outside {name : String} (h : ¬ l ++ [name] <+: p.place) :
    p.erase l name = p := by
  rw [erase, if_neg fun hin => h (List.isPrefixOf_iff_prefix.1 hin)]

theorem not_prefix_erase (l : Location) (name : String) (p : Position) :
    ¬ l ++ [name] <+: (p.erase l name).place := by
  rw [erase]
  split
  · intro hin
    have hlength := hin.length_le
    rw [place, List.reverse_reverse, List.length_append, List.length_singleton] at hlength
    omega
  · rename_i hout
    rwa [List.isPrefixOf_iff_prefix] at hout

theorem clear_clear (l : Location) (p : Position) : (p.clear l).clear l = p.clear l := by
  by_cases hin : l <+: p.place
  · have hplace : (p.clear l).place = l := by
      rw [clear, if_pos (List.isPrefixOf_iff_prefix.2 hin), place, List.reverse_reverse]
    have hin' : l.isPrefixOf (p.clear l).place :=
      List.isPrefixOf_iff_prefix.2 ⟨[], by rw [List.append_nil, hplace]⟩
    have hdepth := depth_clear l p
    rw [clear, if_pos hin', hdepth, clear, if_pos (List.isPrefixOf_iff_prefix.2 hin)]
  · rw [clear_of_outside hin, clear_of_outside hin]

end Position

namespace Workspace

variable {a a' b u : Workspace} {c : Location} {p : Path}

theorem eq_of_tree_eq (htree : a.tree = b.tree) (hcwd : a.cwd = b.cwd) : a = b := by
  cases a
  cases b
  simp_all

/-! ## Creating folders -/

/-- A path leads to a folder by a way through folders. -/
structure LeadsTo (u : Workspace) (p : Path) (q : Position) : Prop where
  there : (u.base p).removed = 0
  base : u.tree.node? (u.base p).place = some .folder
  walk : u.tree.walk (u.base p) p.segments = .ok q
  folder : u.tree.nodeAt? q = some .folder

/-- The smaller of two disks, with the program at the same position. -/
structure Within (b u : Workspace) : Prop where
  cwd : b.cwd = u.cwd
  tree : b.tree.Within u.tree

theorem Within.base (h : b.Within u) (p : Path) : b.base p = u.base p := by
  rw [Workspace.base, Workspace.base, h.cwd]

theorem isFolder_of_walk (hcheck : check p = .ok ()) {q : Position}
    (hwalk : b.tree.walk (b.base p) p.segments = .ok q)
    (hfolder : b.tree.node? q.place = some .folder) : b.isFolder p := by
  have hfollow : b.follow p = .ok q := by
    rw [follow, hcheck]
    exact hwalk
  rw [isFolder, node?, hfollow]
  simp [FileTree.nodeAt?_of_node? hfolder]

theorem site_of_walk (hcheck : check p = .ok ()) {last : String} {front : List String}
    (hback : p.segments.reverse.dropWhile (· = "") = last :: front) {r : Position}
    (hwalk : b.tree.walk (b.base p) front.reverse = .ok r) (hthere : r.removed = 0)
    (hfolder : b.tree.node? r.place = some .folder) :
    b.site p = if last = "." ∨ last = ".." then .error .occupied
      else if ¬ IsName last then .error .unusable else .ok (r.place, last) := by
  rw [site, hcheck]
  simp only [bind, Except.bind, hback, hwalk]
  split
  · rfl
  · split
    · rfl
    · rw [if_neg (Decidable.not_not.2 hthere), hfolder]

theorem site_of_missing (hcheck : check p = .ok ()) {last : String} {front : List String}
    (hback : p.segments.reverse.dropWhile (· = "") = last :: front)
    (hwalk : b.tree.walk (b.base p) front.reverse = .error .missing) :
    b.site p = .error .missing := by
  rw [site, hcheck]
  simp only [bind, Except.bind, hback, hwalk]

theorem site_of_idle (hcheck : check p = .ok ())
    (hback : p.segments.reverse.dropWhile (· = "") = []) : b.site p = .error .occupied := by
  rw [site, hcheck]
  simp only [bind, Except.bind, hback]

theorem LeadsTo.exists_front {q : Position} (hu : u.LeadsTo p q) {last : String}
    {front : List String} (hback : p.segments.reverse.dropWhile (· = "") = last :: front) :
    ∃ r idle, p.segments = front.reverse ++ last :: idle ∧ last ≠ "" ∧ (∀ s ∈ idle, s = "") ∧
      u.tree.walk (u.base p) front.reverse = .ok r ∧ u.tree.walk r (last :: idle) = .ok q ∧
      u.tree.node? r.place = some .folder := by
  obtain ⟨hlast, idle, hsegments, hidle⟩ := Path.segments_of_dropWhile hback
  have hwalk := hu.walk
  rw [hsegments] at hwalk
  obtain ⟨r, hfront, hrest⟩ := FileTree.exists_walk_of_append hwalk
  exact ⟨r, idle, hsegments, hlast, hidle, hfront, hrest,
    FileTree.node?_of_walk hu.base hfront hrest hu.folder⟩

/-- Where the last name of a path goes if the path leads to a folder of a larger disk. -/
theorem site_cases (hb : b.Within u) (hbase : b.tree.node? (b.base p).place = some .folder)
    (hcheck : check p = .ok ()) {q : Position} (hu : u.LeadsTo p q) :
    b.site p = .error .missing ∨
      b.site p = .error .occupied ∧ b.isFolder p ∧
        (∀ last front, p.segments.reverse.dropWhile (· = "") = last :: front → ¬ IsStep last) ∨
      ∃ parent name, b.site p = .ok (parent, name) ∧ IsName name ∧
        b.tree.node? parent = some .folder ∧
        ((b.tree.node? (parent ++ [name])).isSome → b.isFolder p) := by
  cases hback : p.segments.reverse.dropWhile (· = "") with
  | nil =>
    -- a path of slashes only stays where it begins
    rcases hb.tree.walk hbase (hb.base p ▸ hu.walk) hu.folder with
      ⟨hwhole, hfolder⟩ | ⟨_, s, hs, hname⟩
    · exact Or.inr (Or.inl ⟨site_of_idle hcheck hback, isFolder_of_walk hcheck hwhole hfolder,
        fun _ _ h => nomatch h⟩)
    · have hempty := List.dropWhile_eq_nil_iff.1 hback s (List.mem_reverse.2 hs)
      exact absurd (by simpa using hempty) hname.1
  | cons last front =>
    obtain ⟨r, idle, hsegments, hlast, hidle, hfront, hrest, hr⟩ := hu.exists_front hback
    have hthere := FileTree.removed_walk hu.there hfront
    have hisFolder : ∀ {x : Position}, b.tree.walk (b.base p) front.reverse = .ok r →
        b.tree.walk r (last :: idle) = .ok x → b.tree.node? x.place = some .folder →
          b.isFolder p := by
      intro x hwalk hx hplace
      apply isFolder_of_walk hcheck _ hplace
      rw [hsegments, FileTree.walk_append hwalk, hx]
    rcases hb.tree.walk hbase (hb.base p ▸ hfront) (FileTree.nodeAt?_of_node? hr) with
      ⟨hwalk, hr'⟩ | ⟨hmissing, _⟩
    · have hsite := site_of_walk hcheck hback hwalk hthere hr'
      by_cases hdots : last = "." ∨ last = ".."
      · rw [if_pos hdots] at hsite
        refine Or.inr (Or.inl ⟨hsite, ?_, fun last' front' heq hstep => ?_⟩)
        · rcases hb.tree.walk hr' hrest hu.folder with ⟨hend, hplace⟩ | ⟨_, s, hs, hname⟩
          · exact hisFolder hwalk hend hplace
          · rcases List.mem_cons.1 hs with rfl | hs
            · exact absurd hdots (not_or.2 ⟨hname.2.1, hname.2.2.1⟩)
            · exact absurd (hidle s hs) hname.1
        · obtain ⟨rfl, _⟩ := List.cons.inj heq
          exact hdots.elim hstep.2.1 hstep.2.2
      · have hname : IsName last := by
          rcases (FileTree.walk_cons_eq_ok hrest).2 with ⟨hstay, _⟩ | ⟨hup, _⟩ | ⟨hname, _⟩
          · exact absurd hstay (not_or.2 ⟨hlast, (not_or.1 hdots).1⟩)
          · exact absurd hup (not_or.1 hdots).2
          · exact hname
        rw [if_neg hdots, if_neg (Decidable.not_not.2 hname)] at hsite
        refine Or.inr (Or.inr ⟨_, _, hsite, hname, hr', fun hsome => ?_⟩)
        obtain ⟨hend, hplace⟩ :=
          hb.tree.walk_name hthere hr hr' hname hidle hrest hu.folder hsome
        exact hisFolder hwalk hend hplace
    · exact Or.inl (site_of_missing hcheck hback hmissing)

theorem makeFolder_of_site_eq_error {o : Obstacle} (h : b.site p = .error o) :
    b.makeFolder p = .error o := by
  rw [makeFolder, h]
  rfl

theorem site_of_makeFolder_eq_missing (h : b.makeFolder p = .error .missing) :
    b.site p = .error .missing := by
  rw [makeFolder] at h
  cases hsite : b.site p with
  | error o =>
    rw [hsite] at h
    exact congrArg _ (Except.error.inj h)
  | ok found =>
    rw [hsite] at h
    simp only [bind, Except.bind] at h
    split at h
    · cases h
    · split at h <;> cases h

/-- To make sure of a folder, nothing may be missing on its way. -/
theorem ready_of_ensureFolder (h : (b.ensureFolder p).2 = true) :
    check p = .ok () ∧ b.site p ≠ .error .missing := by
  have hsite : b.site p ≠ .error .missing := by
    intro hmissing
    rw [ensureFolder, makeFolder_of_site_eq_error hmissing] at h
    cases h
  refine ⟨?_, hsite⟩
  cases hcheck : check p with
  | ok => rfl
  | error o =>
    have hfailed : b.site p = .error o := by rw [site, hcheck]; rfl
    rw [ensureFolder, makeFolder_of_site_eq_error hfailed] at h
    cases o with
    | missing => exact absurd hfailed hsite
    | unusable => cases h
    | occupied =>
      have hfollow : b.follow p = .error .occupied := by rw [follow, hcheck]; rfl
      simp [isFolder, node?, hfollow] at h

/-- If a path leads to a folder of a larger disk and nothing is missing on its way, then the folder
can be made sure of. -/
theorem ensureFolder_of_within (hb : b.Within u)
    (hbase : b.tree.node? (b.base p).place = some .folder) (hcheck : check p = .ok ())
    {q : Position} (hu : u.LeadsTo p q) (hsite : b.site p ≠ .error .missing) :
    (b.ensureFolder p).2 = true := by
  rw [ensureFolder]
  rcases site_cases hb hbase hcheck hu with hmissing | ⟨hoccupied, hfolder, _⟩ |
    ⟨parent, name, hfound, hname, hparent, hfolder⟩
  · exact absurd hmissing hsite
  · rw [makeFolder_of_site_eq_error hoccupied]
    exact hfolder
  · rw [makeFolder, hfound]
    simp only [bind, Except.bind]
    by_cases hsome : (b.tree.node? (parent ++ [name])).isSome
    · rw [if_pos hsome]
      exact hfolder hsome
    · rw [if_neg hsome, put?, dif_pos]
      refine ⟨hname, hparent, ?_⟩
      intro hnode
      exact hsome (by rw [hnode]; rfl)

/-- A site on the way to a folder of a larger disk is the same where there are at least the same
folders. -/
theorem site_eq_of_folders (ha : a.Within u) (hcwd : b.cwd = a.cwd)
    (hfolders : ∀ l, a.tree.node? l = some .folder → b.tree.node? l = some .folder)
    (hbase : a.tree.node? (a.base p).place = some .folder) (hcheck : check p = .ok ())
    {q : Position} (hu : u.LeadsTo p q) (hsite : a.site p ≠ .error .missing) :
    b.site p = a.site p := by
  cases hback : p.segments.reverse.dropWhile (· = "") with
  | nil => rw [site_of_idle hcheck hback, site_of_idle hcheck hback]
  | cons last front =>
    obtain ⟨r, _, _, _, _, hfront, _, hr⟩ := hu.exists_front hback
    have hthere := FileTree.removed_walk hu.there hfront
    rcases ha.tree.walk hbase (ha.base p ▸ hfront) (FileTree.nodeAt?_of_node? hr) with
      ⟨hwalk, hra⟩ | ⟨hmissing, _⟩
    · have hwalk' := FileTree.walk_mono hfolders hbase hwalk (FileTree.nodeAt?_of_node? hra)
      have hbase' : b.base p = a.base p := by rw [base, base, hcwd]
      rw [← hbase'] at hwalk'
      rw [site_of_walk hcheck hback hwalk' hthere (hfolders _ hra),
        site_of_walk hcheck hback hwalk hthere hra]
    · exact absurd (site_of_missing hcheck hback hmissing) hsite

/-- The middle one of three disks has at least what the smallest has. -/
structure Between (u a b : Workspace) : Prop where
  lower : a.Within u
  upper : b.Within u
  le : ∀ l, (a.tree.node? l).isSome → (b.tree.node? l).isSome

namespace Between

theorem node?_eq_some (h : u.Between a b) {l : Location} {n : Node}
    (hn : a.tree.node? l = some n) : b.tree.node? l = some n := by
  obtain ⟨n', hn'⟩ := Option.isSome_iff_exists.1 (h.le l (by rw [hn]; rfl))
  have hu := h.lower.tree.node?_eq_some hn
  rw [h.upper.tree.node?_eq_some hn'] at hu
  rw [hn', hu]

theorem isGrounded (h : u.Between a b) (ha : a.IsGrounded) : b.IsGrounded := by
  have hcwd : b.cwd = a.cwd := h.upper.cwd.trans h.lower.cwd.symm
  rw [IsGrounded, hcwd]
  exact h.node?_eq_some ha

theorem site_ne_missing (h : u.Between a b) (hbase : a.tree.node? (a.base p).place = some .folder)
    (hcheck : check p = .ok ()) {q : Position} (hu : u.LeadsTo p q)
    (ha : a.site p ≠ .error .missing) : b.site p ≠ .error .missing := by
  rw [site_eq_of_folders h.lower (h.upper.cwd.trans h.lower.cwd.symm)
    (fun l hl => h.node?_eq_some hl) hbase hcheck hu ha]
  exact ha

/-- What is created in both disks leaves them within the larger one, if it is there. -/
theorem grow (h : u.Between a b) {places : List Location} {b' : Workspace}
    (ha : a.GrowsFolders places a') (hb : b.GrowsFolders places b')
    (hu : ∀ l ∈ places, u.tree.node? l = some .folder)
    (hb' : ∀ l ∈ places, b'.tree.node? l = some .folder) : u.Between a' b' := by
  have hwithin : ∀ {x x' : Workspace}, x.Within u → x.GrowsFolders places x' → x'.Within u := by
    intro x x' hx hgrows
    refine ⟨hgrows.cwd.trans hx.cwd, fun l => ?_⟩
    rcases hgrows.node? l with hsame | ⟨hl, _, hnew⟩ | ⟨_, _, hnever, _⟩
    · rw [hsame]
      exact hx.tree l
    · exact Or.inl (hnew.trans (hu l hl).symm)
    · exact hnever.elim
  refine ⟨hwithin h.lower ha, hwithin h.upper hb, fun l hl => ?_⟩
  rcases ha.node? l with hsame | ⟨hplace, _, _⟩ | ⟨_, _, hnever, _⟩
  · exact hb.isSome (h.le l (hsame ▸ hl))
  · rw [hb' l hplace]
    rfl
  · exact hnever.elim

end Between

theorem LeadsTo.folders (hcwd : u.cwd.Of c) {q : Position} (h : u.LeadsTo p q) :
    ∀ l ∈ p.entered c, u.tree.node? l = some .folder := fun _ hl =>
  (FileTree.node?_of_mem_entered (base_of hcwd p) h.walk hl).2 h.folder

theorem makeLineage_of_missing {q : Path} {rest : List Path} (h : a.site p = .error .missing) :
    a.makeLineage (p :: q :: rest) = match a.makeLineage (q :: rest) with
      | (a', true) => a'.ensureFolder p
      | (a', false) => (a', false) := by
  rw [makeLineage]
  exact makeFolder_of_site_eq_error h ▸ rfl

theorem makeLineage_of_ready {q : Path} {rest : List Path} (h : a.site p ≠ .error .missing) :
    a.makeLineage (p :: q :: rest) = a.ensureFolder p := by
  rw [makeLineage]
  split
  · rename_i hmissing
    exact absurd (site_of_makeFolder_eq_missing hmissing) h
  · rfl

theorem exists_ready_of_makeLineage {q : Path} {rest : List Path}
    (h : (a.makeLineage (p :: q :: rest)).2 = true) :
    check p = .ok () ∧ (a.site p = .error .missing → ∃ a', a.makeLineage (q :: rest) = (a', true) ∧
      a'.site p ≠ .error .missing) := by
  by_cases hsite : a.site p = .error .missing
  · rw [makeLineage_of_missing hsite] at h
    cases hrest : a.makeLineage (q :: rest) with
    | mk a' done =>
      rw [hrest] at h
      cases done with
      | false => cases h
      | true =>
        obtain ⟨hcheck, hready⟩ := ready_of_ensureFolder h
        exact ⟨hcheck, fun _ => ⟨a', rfl, hready⟩⟩
  · rw [makeLineage_of_ready hsite] at h
    exact ⟨(ready_of_ensureFolder h).1, fun hmissing => absurd hmissing hsite⟩

/-- Folders that are created in both disks one after the other, each among those before, leave them
within the larger one. -/
theorem Between.makeLineage (hcwd : u.cwd.Of c) (h : u.Between a b) (hground : a.IsGrounded)
    {lineage : List Path} (hu : ∀ q ∈ lineage, ∃ r, u.LeadsTo q r)
    (hnested : lineage.Pairwise fun q r => r.entered c ⊆ q.entered c) {b' : Workspace}
    (ha : a.makeLineage lineage = (a', true)) (hb : b.makeLineage lineage = (b', true)) :
    u.Between a' b' ∧ a'.IsGrounded := by
  rcases lineage with _ | ⟨q, _ | ⟨r, rest⟩⟩
  · obtain ⟨rfl, _⟩ := Prod.mk.inj ha
    obtain ⟨rfl, _⟩ := Prod.mk.inj hb
    exact ⟨h, hground⟩
  · obtain ⟨rfl, _⟩ := Prod.mk.inj ha
    obtain ⟨rfl, _⟩ := Prod.mk.inj hb
    exact ⟨h, hground⟩
  · obtain ⟨_, hq⟩ := hu q List.mem_cons_self
    have hplaces : ∀ s ∈ q :: r :: rest, s.entered c ⊆ q.entered c := by
      rw [List.forall_mem_cons]
      exact ⟨List.Subset.refl _, (List.pairwise_cons.1 hnested).1⟩
    have hgrows := makeLineage_grows (h.lower.cwd ▸ hcwd) hplaces
    have hgrowsb := makeLineage_grows (h.upper.cwd ▸ hcwd) hplaces
    rw [ha] at hgrows
    rw [hb] at hgrowsb
    exact ⟨h.grow hgrows hgrowsb (hq.folders hcwd) (makeLineage_folders (h.upper.cwd ▸ hcwd) hb),
      hgrows.isGrounded hground⟩

/-- Folders that could be created one after the other can be created as well where there is at least
what there was, and nothing that is not in a larger disk with all of them. -/
theorem makeLineage_again (hcwd : u.cwd.Of c) {lineage : List Path}
    (hu : ∀ q ∈ lineage, ∃ r, u.LeadsTo q r)
    (hnested : lineage.Pairwise fun q r => r.entered c ⊆ q.entered c) (h : u.Between a b)
    (hground : a.IsGrounded) (ha : (a.makeLineage lineage).2 = true) :
    (b.makeLineage lineage).2 = true := by
  -- the lineage goes upwards, so the parents have been created when it is the turn of a folder
  induction lineage with
  | nil => rfl
  | cons p rest ih =>
    cases rest with
    | nil => rfl
    | cons q rest =>
      obtain ⟨r, hp⟩ := hu p List.mem_cons_self
      obtain ⟨hcheck, hmissing⟩ := exists_ready_of_makeLineage ha
      by_cases hready : b.site p = .error .missing
      · have hready' : a.site p = .error .missing := by
          by_contra hnot
          exact h.site_ne_missing (node?_base hground p) hcheck hp hnot hready
        obtain ⟨a', hrest, hsite⟩ := hmissing hready'
        have hu' : ∀ s ∈ q :: rest, ∃ r, u.LeadsTo s r := fun s hs =>
          hu s (List.mem_cons_of_mem p hs)
        have hnested := (List.pairwise_cons.1 hnested).2
        have hdone := ih hu' hnested (by rw [hrest])
        cases hrestb : b.makeLineage (q :: rest) with
        | mk b' done =>
          rw [hrestb] at hdone
          obtain rfl : done = true := hdone
          obtain ⟨h', hground'⟩ := h.makeLineage hcwd hground hu' hnested hrest hrestb
          have hsiteb := h'.site_ne_missing (node?_base hground' p) hcheck hp hsite
          rw [makeLineage_of_missing hready, hrestb]
          exact ensureFolder_of_within h'.upper (node?_base (h'.isGrounded hground') p) hcheck hp
            hsiteb
      · rw [makeLineage_of_ready hready]
        exact ensureFolder_of_within h.upper (node?_base (h.isGrounded hground) p) hcheck hp hready

theorem exists_leadsTo (hground : u.IsGrounded) (hcwd : u.cwd.Of c)
    (hthere : (u.base p).removed = 0)
    (hfolders : ∀ l ∈ p.entered c, u.tree.node? l = some .folder) : ∃ q, u.LeadsTo p q := by
  have hbase := node?_base hground p
  have hplace := (base_of hcwd p).place_eq hthere
  rw [Path.entered, ← hplace] at hfolders
  obtain ⟨hwalk, hend⟩ := FileTree.walk_ofPlace hbase hfolders
  rw [← Position.eq_ofPlace hthere] at hwalk
  refine ⟨_, hthere, hbase, hwalk, FileTree.nodeAt?_of_node? ?_⟩
  rw [Position.place_ofPlace]
  exact hend

/-- If a folder could be created with its parents, then it can be created as well where there is at
least what there was, and nothing that is not in a larger disk with all of them. -/
theorem Between.makeFolders (hcwd : u.cwd.Of c) (hground : a.IsGrounded)
    (hthere : (u.base p).removed = 0)
    (hfolders : ∀ l ∈ p.entered c, u.tree.node? l = some .folder) (h : u.Between a b)
    (ha : a.makeFolders p = (a', true)) : ∃ b', b.makeFolders p = (b', true) := by
  have hgroundu : u.IsGrounded := by
    rw [IsGrounded, ← h.lower.cwd]
    exact h.lower.tree.node?_eq_some hground
  have hlineage : ∀ q ∈ p.ancestors, ∃ r, u.LeadsTo q r := by
    intro q hq
    apply exists_leadsTo hgroundu hcwd
    · rwa [base, Path.isAbsolute_ancestors hq, ← base]
    · intro l hl
      exact hfolders l (Path.entered_ancestors hq c hl)
  rw [Workspace.makeFolders] at ha ⊢
  have hdone := makeLineage_again hcwd hlineage (p.pairwise_ancestors c) h hground (by rw [ha])
  exact ⟨_, Prod.ext rfl hdone⟩

/-- **Folders are created again.** If a folder could be created with its parents, then it can be
created as well where there is at least what there was, and some of these folders besides. The end
is the same disk. -/
theorem makeFolders_again (hcwd : u.cwd.Of c) (hground : a.IsGrounded)
    (hthere : (u.base p).removed = 0)
    (hfolders : ∀ l ∈ p.entered c, u.tree.node? l = some .folder) (h : u.Between a b)
    (hmore : ∀ l, l ∉ p.entered c → b.tree.node? l = a.tree.node? l)
    (ha : a.makeFolders p = (a', true)) : b.makeFolders p = (a', true) := by
  obtain ⟨hgrows, hmade⟩ := makeFolders_spec (h.lower.cwd ▸ hcwd) ha
  obtain ⟨b', hb⟩ := h.makeFolders hcwd hground hthere hfolders ha
  obtain ⟨hgrowsb, hmadeb⟩ := makeFolders_spec (h.upper.cwd ▸ hcwd) hb
  have htree : b'.tree = a'.tree := by
    apply FileTree.eq_of_node?_eq
    intro l
    by_cases hl : l ∈ p.entered c
    · rw [hmade rfl l hl, hmadeb rfl l hl]
    · rw [hgrows.node?_eq hl, hgrowsb.node?_eq hl, hmore l hl]
  have hcwd' : b'.cwd = a'.cwd := by
    rw [hgrowsb.cwd, hgrows.cwd, h.upper.cwd, h.lower.cwd]
  rw [hb, eq_of_tree_eq htree hcwd']

/-! ## Clearing -/

theorem site_congr (htree : b.tree = a.tree) (hbase : b.base p = a.base p) :
    b.site p = a.site p := by
  rw [site, site, htree, hbase]

/-- **A folder is removed again.** If the folder at a path could be removed, and what is elsewhere is
as it was when there is a folder again, then it can be removed again, and that leaves what it left
before. -/
theorem removeFolder_again (hcwd : a.cwd.Of c) (hthere : (a.base p).removed = 0)
    (hremove : a.removeFolder p = (a', true)) (hthere' : (b.base p).removed = 0)
    (hcwd' : b.cwd = a'.cwd) (hlocate : b.locate p = .ok (p.target c))
    (hfolder : b.tree.node? (p.target c) = some .folder)
    (hsame : ∀ l, ¬ p.target c <+: l → b.tree.node? l = a.tree.node? l) :
    b.removeFolder p = (a', true) := by
  have hcwdb : b.cwd.Of c := hcwd' ▸ (removeFolder_spec hcwd hremove).1
  obtain ⟨l, hl, hfoldera, hend⟩ := removeFolder_eq_true_iff.1 hremove
  obtain rfl := locate_eq_ok (base_of hcwd p) hl
  -- once they are emptied, the two disks can differ in where the program runs only
  have htree : (b.clear (p.target c)).tree = (a.clear (p.target c)).tree := by
    apply FileTree.eq_of_node?_eq
    intro l
    rw [Workspace.clear, Workspace.clear, FileTree.node?_clear, FileTree.node?_clear]
    by_cases hin : p.target c <+: l
    · by_cases heq : p.target c = l
      · rw [if_neg (fun h => h.2 heq), if_neg (fun h => h.2 heq), ← heq, hfolder, hfoldera]
      · rw [if_pos ⟨hin, heq⟩, if_pos ⟨hin, heq⟩]
    · rw [if_neg (fun h => hin h.1), if_neg (fun h => hin h.1), hsame l hin]
  have hbase : (b.clear (p.target c)).base p = (a.clear (p.target c)).base p := by
    by_cases habsolute : p.isAbsolute
    · rw [base, base, if_pos habsolute, if_pos habsolute]
    · rw [base, if_neg habsolute] at hthere hthere'
      have heq : b.cwd = a.cwd := by
        rw [Position.eq_ofPlace hthere, Position.eq_ofPlace hthere', hcwd.place_eq hthere,
          hcwdb.place_eq hthere']
      rw [base, base, if_neg habsolute, if_neg habsolute, Workspace.clear, Workspace.clear, heq]
  refine removeFolder_eq_true_iff.2 ⟨_, hlocate, hfolder, ?_⟩
  rw [site_congr htree hbase]
  rcases hend with ⟨parent, name, hfound, rfl⟩ | ⟨hmissing, rfl⟩
  · have htarget := (isSite_of_site (base_of (hcwd.clear _) p) hfound).target
    refine Or.inl ⟨parent, name, hfound, (eq_of_tree_eq ?_ ?_).symm⟩
    · rw [Workspace.erase, Workspace.erase, htree]
    · change ((b.cwd.clear (p.target c)).erase parent name) = _
      rw [hcwd', htarget, Workspace.erase, Position.clear_of_outside, Position.erase_of_outside]
      · exact Position.not_prefix_erase parent name _
      · exact Position.not_prefix_erase parent name _
  · refine Or.inr ⟨hmissing, (eq_of_tree_eq htree ?_).symm⟩
    change b.cwd.clear (p.target c) = _
    rw [hcwd']
    exact Position.clear_clear _ _

/-- Who does not run in the folder that is removed stays where it is. -/
theorem cwd_of_removeFolder (hcwd : a.cwd.Of c) (hout : ¬ p.target c <+: a.cwd.place) {done : Bool}
    (h : a.removeFolder p = (a', done)) : a'.cwd = a.cwd := by
  have hclear : (a.clear (p.target c)).cwd = a.cwd := Position.clear_of_outside hout
  rw [removeFolder] at h
  split at h
  · obtain ⟨rfl, _⟩ := Prod.mk.inj h
    rfl
  · rename_i l hlocate
    obtain rfl := locate_eq_ok (base_of hcwd p) hlocate
    split at h
    · simp only at h
      split at h
      · rename_i parent name hsite
        obtain ⟨rfl, _⟩ := Prod.mk.inj h
        have htarget := (isSite_of_site (base_of (hclear ▸ hcwd) p) hsite).target
        rw [Workspace.erase, hclear]
        exact Position.erase_of_outside (htarget ▸ hout)
      · obtain ⟨rfl, _⟩ := Prod.mk.inj h
        exact hclear
      · obtain ⟨rfl, _⟩ := Prod.mk.inj h
        exact hclear
    · obtain ⟨rfl, _⟩ := Prod.mk.inj h
      rfl

/-- What is left when a folder has been emptied. -/
theorem clear_within {l : Location} (hout : ¬ l <+: u.cwd.place) : (u.clear l).Within u := by
  refine ⟨Position.clear_of_outside hout, fun k => ?_⟩
  rw [Workspace.clear, FileTree.node?_clear]
  split
  · exact Or.inr rfl
  · exact Or.inl rfl

/-- A folder to which a path leads can be removed, unless the program runs in it. Then nothing else
is removed. -/
theorem exists_removeFolder (hcwd : u.cwd.Of c) (hground : u.IsGrounded) {q : Position}
    (hu : u.LeadsTo p q) (hcheck : check p = .ok ()) {front : List String} {last : String}
    (hsegments : p.segments = front ++ [last]) (hlast : IsStep last)
    (hout : ¬ p.target c <+: u.cwd.place) :
    ∃ v, u.removeFolder p = (v, true) ∧ v.Within u := by
  have hq := FileTree.removed_walk hu.there hu.walk
  have hfollow : u.follow p = .ok q := by
    rw [follow, hcheck]
    exact hu.walk
  have hlocate : u.locate p = .ok (p.target c) := by
    apply locate_of_isFolder hcwd hu.there
    rw [isFolder_iff, node?, hfollow]
    exact hu.folder
  have hfolder : u.tree.node? (p.target c) = some .folder := by
    rw [← node?_target (base_of hcwd p) hfollow hq, hu.folder]
  have hx := clear_within hout
  have hbase := node?_base (isGrounded_clear hground hfolder) p
  obtain ⟨v, hremove, hv⟩ : ∃ v, u.removeFolder p = (v, true) ∧ v.tree.Within u.tree := by
    rcases site_cases hx hbase hcheck hu with hmissing | ⟨_, _, hdots⟩ | ⟨parent, name, hfound, _⟩
    · exact ⟨_, removeFolder_eq_true_iff.2 ⟨_, hlocate, hfolder, Or.inr ⟨hmissing, rfl⟩⟩, hx.tree⟩
    · refine absurd hlast (hdots last front.reverse ?_)
      rw [hsegments, List.reverse_append, List.reverse_singleton, List.singleton_append,
        List.dropWhile_cons_of_neg (by simp [hlast.1])]
    · refine ⟨_, removeFolder_eq_true_iff.2 ⟨_, hlocate, hfolder, Or.inl ⟨_, _, hfound, rfl⟩⟩,
        fun l => ?_⟩
      rw [Workspace.erase, FileTree.node?_erase]
      split
      · exact Or.inr rfl
      · exact hx.tree l
  exact ⟨v, hremove, cwd_of_removeFolder hcwd hout hremove, hv⟩

end Workspace

end ModText
