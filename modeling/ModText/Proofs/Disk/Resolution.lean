import Mathlib.Algebra.GroupWithZero.Nat
import ModText.Proofs.Disk.Walks

/-!
# What a path resolves to

A path that leads to nothing yet resolves to the place where it would lead. What is there of its way
is followed and what is missing is appended, so missing parts must not lead back; then the place is
the one that the text of the path names, and all that the path would go down into is there already
or lies on the straight way to that place. Once all of it has been created, the path resolves to the
same place.
-/

namespace ModText

namespace FileTree

variable {t : FileTree}

theorem canonical?_eq_some {l out : Location} {segments : List String}
    (h : t.canonical? l segments = some out) :
    l.fitsAlong segments ∧ ∃ q, t.walk (.ofPlace l) segments = .ok q ∧ q.place = out := by
  rw [canonical?] at h
  split at h
  · rename_i hfits
    cases hwalk : t.walk (.ofPlace l) segments with
    | error o =>
      rw [hwalk] at h
      cases h
    | ok q =>
      rw [hwalk] at h
      exact ⟨hfits, q, rfl, Option.some.inj h⟩
  · cases h

/-- How names come apart when they are resolved. The first part is the longest one that is there, or it
ends by going back, and nothing behind it goes back. -/
structure Parts (t : FileTree) (names front rest : List String) : Prop where
  eq_append : names = front ++ rest
  forward : ∀ s ∈ rest, s ≠ ".."
  missing : ∀ longer, front <+: longer → longer <+: names → longer ≠ front → ¬ t.reaches longer
  stops : front = [] ∨ front.getLast? = some ".." ∨ t.reaches front

/-- Names always come apart, and they resolve to what the first part leads to with the rest appended. -/
theorem exists_parts (t : FileTree) (back : List String) :
    ∃ front rest, t.Parts back.reverse front rest ∧
      t.resolveBack back = (t.canonical? [] front).map (· ++ rest) := by
  induction back with
  | nil =>
    refine ⟨[], [], ⟨rfl, by simp, fun longer _ hlonger hne => ?_, .inl rfl⟩, rfl⟩
    exact absurd (List.prefix_nil.1 hlonger) hne
  | cons s back ih =>
    rw [resolveBack]
    split
    · rename_i hstops
      rw [Bool.or_eq_true, decide_eq_true_eq] at hstops
      refine ⟨(s :: back).reverse, [], ⟨(List.append_nil _).symm, by simp, ?_, ?_⟩, by simp⟩
      · exact fun longer hfront hlonger hne => absurd (hlonger.eq_of_length_le hfront.length_le) hne
      · refine .inr (hstops.imp_left ?_)
        rintro rfl
        simp
    · rename_i hgoes
      rw [Bool.or_eq_true, decide_eq_true_eq, not_or] at hgoes
      obtain ⟨front, rest, hparts, hresolved⟩ := ih
      refine ⟨front, rest ++ [s], ⟨?_, ?_, ?_, hparts.stops⟩, ?_⟩
      · rw [List.reverse_cons, hparts.eq_append, List.append_assoc]
      · intro r hr
        rcases List.mem_append.1 hr with hr | hr
        · exact hparts.forward r hr
        · rw [List.mem_singleton.1 hr]
          exact hgoes.1
      · intro longer hfront hlonger hne
        rw [List.reverse_cons] at hlonger hgoes
        rcases List.prefix_concat_iff.1 hlonger with rfl | hlonger
        · exact hgoes.2
        · exact hparts.missing longer hfront hlonger hne
      · rw [hresolved, Option.map_map]
        exact Option.map_congr fun l _ => List.append_assoc l rest [s]

/-- The first names are followed to where they lead and the others, none of which leads back, are
appended. -/
theorem resolveBack_eq_some {back : List String} {out : Location}
    (h : t.resolveBack back = some out) :
    ∃ front rest q, back.reverse = front ++ rest ∧ (∀ s ∈ rest, s ≠ "..") ∧
      t.walk {} front = .ok q ∧ out = q.place ++ rest := by
  obtain ⟨front, rest, hparts, hresolved⟩ := t.exists_parts back
  obtain ⟨l, hcanonical, rfl⟩ := Option.map_eq_some_iff.1 (hresolved.symm.trans h)
  obtain ⟨-, q, hwalk, rfl⟩ := canonical?_eq_some hcanonical
  exact ⟨front, rest, q, hparts.eq_append, hparts.forward, hwalk, rfl⟩

end FileTree

namespace Workspace

variable {w : Workspace} {p : Path}

theorem check_eq_ok : check p = .ok () ↔ p.text ≠ "" ∧ p.isUsable = true := by
  rw [check]
  by_cases hempty : p.text = ""
  · simp [hempty]
  · by_cases husable : p.isUsable <;> simp [hempty, husable]

/-- A disk can be asked for the first part of a path if it can be asked for the whole. -/
theorem check_of_join {relative : String} (hempty : p.text ≠ "")
    (hrelative : (Path.mk relative).isAbsolute = false) (h : check (p.join relative) = .ok ()) :
    check p = .ok () := by
  obtain ⟨rest, hrest⟩ : ∃ rest, (p.join relative).text = p.text ++ rest := by
    rw [Path.join, if_neg (by simp [hrelative])]
    split
    · exact ⟨relative, rfl⟩
    · exact ⟨"/" ++ relative, String.append_assoc⟩
  have husable := (check_eq_ok.1 h).2
  rw [Path.isUsable, hrest, String.utf8ByteSize_append, String.toList_append,
    Bool.and_eq_true, decide_eq_true_eq] at husable
  refine check_eq_ok.2 ⟨hempty, ?_⟩
  rw [Path.isUsable, Bool.and_eq_true, decide_eq_true_eq]
  refine ⟨Nat.le_trans (Nat.le_add_right _ _) husable.1, ?_⟩
  have hnull := husable.2
  simp only [Bool.not_eq_true', List.contains_eq_mem, decide_eq_false_iff_not,
    List.mem_append, not_or] at hnull ⊢
  exact hnull.1

theorem node?_base (hground : w.IsGrounded) (p : Path) :
    w.tree.node? (w.base p).place = some .folder := by
  rw [base]
  split
  · exact w.tree.node?_nil
  · exact hground

/-- What a resolution says about the way of the path. -/
structure Resolves (w : Workspace) (p : Path) (out : Location) : Prop where
  there : (w.base p).removed = 0
  target : out = p.target w.cwd.place
  above_or_there : ∀ m ∈ p.entered w.cwd.place, m <+: out ∨ (w.tree.node? m).isSome
  folders : w.tree.node? out = some .folder →
    ∀ m ∈ p.entered w.cwd.place, w.tree.node? m = some .folder

theorem resolves_of_resolve? (hground : w.IsGrounded) {out : Location}
    (h : w.resolve? p = some out) : w.Resolves p out := by
  rw [resolve?] at h
  split at h
  · rename_i hthere
    obtain ⟨front, rest, q, hsplit, hrest, hwalk, rfl⟩ := FileTree.resolveBack_eq_some h
    rw [List.reverse_reverse] at hsplit
    have hplace : ∀ s ∈ (w.base p).place, IsStep s := fun s hs =>
      (FileTree.isName_of_mem (node?_base hground p) s hs).isStep
    have hsteps : ∀ s ∈ rest, IsStep s := by
      intro s hs
      have hmem : s ∈ (w.base p).place ++ p.steps := hsplit ▸ List.mem_append_right front hs
      rcases List.mem_append.1 hmem with hmem | hmem
      · exact hplace s hmem
      · have hnamed := (List.mem_filter.1 hmem).2
        simp only [Bool.and_eq_true, bne_iff_ne] at hnamed
        exact ⟨hnamed.1, hnamed.2, hrest s hs⟩
    have hq := FileTree.of_walk Position.of_root hwalk
    have hqthere : q.removed = 0 := FileTree.removed_walk rfl hwalk
    have hend : Location.along [] front = q.place := (hq.place_eq hqthere).symm
    have halong := Location.along_filter (p.origin w.cwd.place) p.segments
    -- the names that are resolved lead from the root where the path leads from its base
    have htarget : q.place ++ rest = p.target w.cwd.place := by
      rw [← Location.along_steps _ hsteps, ← hend, ← Location.along_append, ← hsplit,
        Location.along_append, Location.along_steps _ hplace, List.nil_append, base_place,
        Path.target, ← halong.1]
      rfl
    have hentered : ∀ m ∈ p.entered w.cwd.place,
        m ∈ Location.entered [] front ∨ m ∈ Location.entered q.place rest := by
      intro m hm
      rw [← List.mem_append, ← hend, ← Location.entered_append, ← hsplit,
        Location.entered_append, Location.along_steps _ hplace, List.nil_append, base_place]
      apply List.mem_append_right
      rw [Path.entered, ← halong.2] at hm
      exact hm
    have hstraight : ∀ m ∈ Location.entered q.place rest, m <+: q.place ++ rest := by
      intro m hm
      obtain ⟨k, _, hk, rfl⟩ := (Location.mem_entered_steps hsteps).1 hm
      exact (List.prefix_append_right_inj _).2 hk
    refine ⟨hthere, htarget, fun m hm => ?_, fun hfolder m hm => ?_⟩
    · rcases hentered m hm with hm | hm
      · exact Or.inr (FileTree.node?_of_mem_entered Position.of_root hwalk hm).1
      · exact Or.inl (hstraight m hm)
    · have habove : ∀ k, k <+: q.place ++ rest → w.tree.node? k = some .folder := by
        intro k hk
        by_cases heq : k = q.place ++ rest
        · rw [heq, hfolder]
        · exact FileTree.node?_of_prefix hfolder hk heq
      rcases hentered m hm with hm | hm
      · refine (FileTree.node?_of_mem_entered Position.of_root hwalk hm).2 ?_
        rw [FileTree.nodeAt?_of_removed_eq_zero hqthere]
        exact habove _ (List.prefix_append _ _)
      · exact habove m (hstraight m hm)
  · cases h

/-- A folder can be found by every path that resolves to it and can be asked for. -/
theorem Resolves.holds (hground : w.IsGrounded) {out : Location} (h : w.Resolves p out)
    (hcheck : check p = .ok ()) (hfolder : w.tree.node? out = some .folder) : w.holds p := by
  refine holds_of_entered h.there hcheck (node?_base hground p) ?_
  rw [base_place]
  exact h.folders hfolder

/-- A path that starts at the root whenever another one does is followed from the same place for as
long as the program runs, if that other one can be followed from a place on the disk. -/
theorem origin_eq (hthere : (w.base p).removed = 0) {c : Location} (hcwd : w.cwd.Of c) {q : Path}
    (hq : p.isAbsolute → q.isAbsolute) : q.origin c = q.origin w.cwd.place := by
  by_cases habsolute : p.isAbsolute
  · rw [Path.origin_of_isAbsolute (hq habsolute), Path.origin_of_isAbsolute (hq habsolute)]
  · rw [base, if_neg habsolute] at hthere
    rw [hcwd.place_eq hthere]

theorem canonical?_eq_some {l : Location} (h : w.canonical? p = some l) :
    (w.base p).removed = 0 ∧ l = p.target w.cwd.place := by
  rw [canonical?] at h
  split at h
  · rename_i hthere
    obtain ⟨-, q, hwalk, rfl⟩ := FileTree.canonical?_eq_some h
    have hof := FileTree.of_walk (Position.of_ofPlace _) hwalk
    rw [base_place] at hof
    exact ⟨hthere, hof.place_eq (FileTree.removed_walk rfl hwalk)⟩
  · cases h

/-- A folder that a path from a place on the disk leads to. -/
theorem node?_of_isFolder (hthere : (w.base p).removed = 0) (h : w.isFolder p) :
    w.tree.node? (p.target w.cwd.place) = some .folder := by
  obtain ⟨q, hfollow, hnode⟩ := exists_follow_of_node? (isFolder_iff.1 h)
  have hqthere := FileTree.removed_walk hthere (follow_eq_ok hfollow).2
  rw [← node?_target (base_of_removed_eq_zero hthere) hfollow hqthere, hnode]

/-- A folder is at the place that its path leads to. -/
theorem locate_of_isFolder {c : Location} (hcwd : w.cwd.Of c) (hthere : (w.base p).removed = 0)
    (hfolder : w.isFolder p) : w.locate p = .ok (p.target c) := by
  obtain ⟨q, hfollow, _⟩ := exists_follow_of_node? (isFolder_iff.1 hfolder)
  have hq := FileTree.removed_walk hthere (follow_eq_ok hfollow).2
  have hlocate : w.locate p = .ok q.place := by
    rw [locate, hfollow]
    exact if_pos hq
  rw [hlocate, locate_eq_ok (base_of hcwd p) hlocate]

/-- A place can be told if the way to it starts on the disk and stays near enough to the root. -/
theorem canonical?_of_locate {l : Location} (h : w.locate p = .ok l) :
    w.canonical? p =
      if (w.base p).removed = 0 ∧ (w.base p).place.fitsAlong p.segments then some l else none := by
  obtain ⟨q, hfollow, _, rfl⟩ := exists_follow_of_locate h
  have hwalk := (follow_eq_ok hfollow).2
  rw [canonical?]
  by_cases hthere : (w.base p).removed = 0
  · rw [if_pos hthere, FileTree.canonical?, ← Position.eq_ofPlace hthere, hwalk]
    by_cases hnear : (w.base p).place.fitsAlong p.segments <;> simp [hnear, hthere, Except.toOption]
  · rw [if_neg hthere, if_neg fun hboth => hthere hboth.1]

/-- What lies below a folder is found by names that are put behind the path of the folder, unless the
path gets too long. -/
theorem node?_join_names {l : Location} (h : w.locate p = .ok l) {names : List String}
    (hne : names ≠ []) {n : Node} (hnode : w.tree.node? (l ++ names) = some n) :
    w.node? (p.join ("/".intercalate names)) =
      if (p.join ("/".intercalate names)).isUsable then some n else none := by
  obtain ⟨q, hfollow, hthere, rfl⟩ := exists_follow_of_locate h
  obtain ⟨hcheck, hwalk⟩ := follow_eq_ok hfollow
  obtain ⟨hrelative, hsegments⟩ := Path.segments_names hne fun s hs =>
    FileTree.isName_of_mem hnode s (List.mem_append_right _ hs)
  -- the joined path follows the path of the folder but for segments that name nothing
  obtain ⟨front, idle, hjoin, hp, hidle⟩ := Path.segments_join (p := p) hrelative
  rw [hp] at hwalk
  obtain ⟨r, hfront, hrest⟩ := FileTree.exists_walk_of_append hwalk
  obtain rfl : r = q := FileTree.eq_of_walk_idle hidle hrest
  obtain ⟨x, hx, hxthere, hplace⟩ := FileTree.walk_names hthere hnode
  have hend : w.tree.walk (w.base (p.join ("/".intercalate names)))
      (p.join ("/".intercalate names)).segments = .ok x := by
    rw [base, Path.isAbsolute_join hrelative, ← base, hjoin, hsegments,
      FileTree.walk_append hfront, hx]
  have htext : (p.join ("/".intercalate names)).text ≠ "" := by
    rw [Path.join, if_neg (by simp [hrelative])]
    split <;> simp [(check_eq_ok.1 hcheck).1]
  by_cases husable : (p.join ("/".intercalate names)).isUsable
  · have hfollow' : w.follow (p.join ("/".intercalate names)) = .ok x := by
      rw [follow, check_eq_ok.2 ⟨htext, husable⟩]
      exact hend
    rw [if_pos husable, node?, hfollow']
    simp only
    rw [FileTree.nodeAt?_of_removed_eq_zero hxthere, hplace, hnode]
  · rw [if_neg husable]
    cases hfound : w.node? (p.join ("/".intercalate names)) with
    | none => rfl
    | some found =>
      obtain ⟨_, hfollow', _⟩ := exists_follow_of_node? hfound
      exact absurd (check_eq_ok.1 (follow_eq_ok hfollow').1).2 husable

end Workspace

/-! ## Resolving again -/

namespace Location

theorem fits_iff {names : List String} :
    fits names ↔ (names.map fun s => s.utf8ByteSize + 1).sum ≤ 4095 := by
  rw [fits, decide_eq_true_eq, List.sum_eq_foldl, List.foldl_map]

/-- If a path is short enough, then so is that of every place on its way. -/
theorem fitsAlong_of_fits {l : Location} {segments : List String} (h : fits (l ++ segments)) :
    l.fitsAlong segments := by
  induction segments generalizing l with
  | nil => rfl
  | cons s rest ih =>
    rw [fitsAlong]
    rw [fits_iff, List.map_append, List.sum_append, List.map_cons, List.sum_cons] at h
    split
    · apply ih
      rw [fits_iff, List.map_append, List.sum_append]
      omega
    · split
      · apply ih
        have hdrop : (l.dropLast.map fun s => s.utf8ByteSize + 1).sum ≤
            (l.map fun s => s.utf8ByteSize + 1).sum := by
          rcases List.eq_nil_or_concat l with rfl | ⟨k, name, rfl⟩
          · exact Nat.le_refl _
          · simp
        rw [fits_iff, List.map_append, List.sum_append]
        omega
      · rw [Bool.and_eq_true]
        constructor
        · rw [fits_iff, List.map_append, List.sum_append, List.map_singleton, List.sum_singleton]
          omega
        · apply ih
          rw [fits_iff, List.append_assoc, List.map_append, List.sum_append, List.map_append,
            List.sum_append, List.map_singleton, List.sum_singleton]
          omega

end Location

namespace FileTree

variable {t u : FileTree}

/-- A walk from the root tells the place of what it leads to, if all places on the way are near
enough to the root. -/
theorem canonical?_of_walk {names : List String} {q : Position} (h : t.walk {} names = .ok q) :
    t.canonical? [] names =
      if Location.fitsAlong [] names then some (Location.along [] names) else none := by
  have hplace : q.place = Location.along [] names :=
    (of_walk Position.of_root h).place_eq (removed_walk rfl h)
  rw [canonical?]
  split
  · change ((t.walk {} names).toOption.map (·.place)) = _
    rw [h]
    exact congrArg some hplace
  · rfl

/-- Names resolve to the same place again where all that could be walked along can be. -/
theorem resolveBack_again {back : List String} {out : Location}
    (hsteps : ∀ s ∈ back, ¬(s = "" ∨ s = "."))
    (hwalk : ∀ front q, front <+: back.reverse → t.walk {} front = .ok q →
      ∃ r, u.walk {} front = .ok r)
    (h : t.resolveBack back = some out) :
    out = Location.along [] back.reverse ∧ u.resolveBack back = some out := by
  induction back generalizing out with
  | nil => exact ⟨(Option.some.inj h).symm, h⟩
  | cons s back ih =>
    obtain ⟨hs, hback⟩ := List.forall_mem_cons.1 hsteps
    rw [resolveBack] at h ⊢
    split at h
    · rename_i hfollowed
      obtain ⟨q, hq⟩ : ∃ q, t.walk {} (s :: back).reverse = .ok q := by
        obtain ⟨-, q, hq, -⟩ := canonical?_eq_some h
        exact ⟨q, hq⟩
      obtain ⟨r, hr⟩ := hwalk _ _ List.prefix_rfl hq
      have hcanonical := (canonical?_of_walk hr).trans (canonical?_of_walk hq).symm
      have hout : out = Location.along [] (s :: back).reverse := by
        rw [canonical?_of_walk hq] at h
        split at h
        · exact (Option.some.inj h).symm
        · cases h
      refine ⟨hout, ?_⟩
      rw [if_pos, hcanonical, h]
      rw [reaches, hq] at hfollowed
      rw [reaches, hr]
      exact hfollowed
    · rename_i hnot
      obtain ⟨before, hbefore, rfl⟩ := Option.map_eq_some_iff.1 h
      have hup : s ≠ ".." := by
        rintro rfl
        exact hnot rfl
      have hfront : back.reverse <+: (s :: back).reverse := by
        rw [List.reverse_cons]
        exact List.prefix_append _ _
      obtain ⟨rfl, hbefore'⟩ := ih hback (fun front q hin => hwalk front q (hin.trans hfront)) hbefore
      have halong : Location.along [] (s :: back).reverse =
          Location.along [] back.reverse ++ [s] := by
        rw [List.reverse_cons, Location.along_append]
        exact Location.along_singleton _ ⟨(not_or.1 hs).1, (not_or.1 hs).2, hup⟩
      refine ⟨halong.symm, ?_⟩
      split
      · rename_i hfollowed
        have hreached : u.reaches (s :: back).reverse := by simpa [hup] using hfollowed
        rw [reaches, Bool.and_eq_true] at hreached
        obtain ⟨hfits, hr⟩ := hreached
        cases hend : u.walk {} (s :: back).reverse with
        | error o =>
          rw [hend] at hr
          cases hr
        | ok r =>
          rw [canonical?_of_walk hend, if_pos (Location.fitsAlong_of_fits hfits), halong]
      · rw [hbefore', Option.map_some]

end FileTree

namespace Workspace

variable {w w' : Workspace} {p : Path} {c : Location}

theorem base_eq_ofPlace (hcwd : w.cwd.Of c) (hthere : (w.base p).removed = 0) :
    w.base p = .ofPlace (p.origin c) := by
  rw [Position.eq_ofPlace hthere, (base_of hcwd p).place_eq hthere]

/-- What is at a path is found again if all that the path goes down into is as it was. -/
theorem node?_again (hground : w.IsGrounded) (hcwd : w.cwd.Of c) (hthere : (w.base p).removed = 0)
    (hground' : w'.IsGrounded) (hcwd' : w'.cwd.Of c) (hthere' : (w'.base p).removed = 0)
    (hkept : ∀ l ∈ p.entered c, ∀ n, w.tree.node? l = some n → w'.tree.node? l = some n) {n : Node}
    (h : w.node? p = some n) : w'.node? p = some n := by
  obtain ⟨q, hfollow, hnode⟩ := exists_follow_of_node? h
  obtain ⟨hcheck, hwalk⟩ := follow_eq_ok hfollow
  have hq := FileTree.removed_walk hthere hwalk
  have hsame : ∀ l ∈ p.entered c, w'.tree.node? l = w.tree.node? l := by
    intro l hl
    obtain ⟨n, hn⟩ := Option.isSome_iff_exists.1
      (FileTree.node?_of_mem_entered (base_of hcwd p) hwalk hl).1
    rw [hn, hkept l hl n hn]
  have hbase := node?_base hground p
  have hbase' := node?_base hground' p
  rw [base_eq_ofPlace hcwd hthere, Position.place_ofPlace] at hbase
  rw [base_eq_ofPlace hcwd' hthere', Position.place_ofPlace] at hbase'
  rw [base_eq_ofPlace hcwd hthere] at hwalk
  obtain ⟨hwalk', hend⟩ := FileTree.walk_congr hbase hbase' hsame hwalk
  have hfollow' : w'.follow p = .ok q := by
    rw [follow, hcheck, base_eq_ofPlace hcwd' hthere']
    exact hwalk'
  rw [node?, hfollow']
  rw [FileTree.nodeAt?_of_removed_eq_zero hq] at hnode
  simp only
  rw [FileTree.nodeAt?_of_removed_eq_zero hq, hend, hnode]

/-- A folder that has an absolute path has the same one for as long as it is there. -/
theorem canonical?_again (hcwd : w.cwd.Of c) (hcwd' : w'.cwd.Of c)
    (hthere' : (w'.base p).removed = 0) (hfolder : w'.isFolder p) {l : Location}
    (h : w.canonical? p = some l) : w'.canonical? p = some l := by
  obtain ⟨hthere, rfl⟩ := canonical?_eq_some h
  obtain ⟨q, hfollow, _⟩ := exists_follow_of_node? (isFolder_iff.1 hfolder)
  have hwalk := (follow_eq_ok hfollow).2
  have hend := (FileTree.of_walk (base_of hcwd' p) hwalk).place_eq
    (FileTree.removed_walk hthere' hwalk)
  have horigin : p.origin c = p.origin w.cwd.place := origin_eq hthere hcwd id
  rw [base_eq_ofPlace hcwd' hthere'] at hwalk
  rw [canonical?, base_eq_ofPlace hcwd hthere] at h
  rw [canonical?, base_eq_ofPlace hcwd' hthere']
  simp only [Position.place_ofPlace, FileTree.canonical?] at h ⊢
  have hdisk : (Position.ofPlace (p.origin c)).removed = 0 := rfl
  rw [if_pos hdisk] at h ⊢
  split at h
  · rename_i hfits
    rw [if_pos hfits, hwalk]
    change some q.place = _
    rw [hend, Path.target, horigin]
  · cases h

/-- A file right below a folder is read if it is there and has a path that is short enough. -/
theorem read?_join_eq_some (hcwd : w.cwd.Of c) (hthere : (w.base p).removed = 0)
    (hfolder : w.isFolder p) {name : String} (hname : IsName name) {content : ByteArray} :
    w.read? (p.join name) = some content ↔ check (p.join name) = .ok () ∧
      w.tree.node? (p.target c ++ [name]) = some (.file content) := by
  have hslash := hname.2.2.2.1
  have hrelative := Path.isAbsolute_of_not_mem hslash
  have htarget : (p.join name).target c = p.target c ++ [name] := by
    rw [Path.target_join c hrelative, Path.segments_of_not_mem hslash,
      Location.along_singleton _ hname.isStep]
  constructor
  · intro h
    obtain ⟨q, hfollow, _⟩ := exists_follow_of_node? (read?_eq_some_iff.1 h)
    rw [← htarget]
    exact ⟨(follow_eq_ok hfollow).1, read?_eq_some (base_of hcwd _) h⟩
  · rintro ⟨hcheck, hfile⟩
    have hfound := node?_join_names (locate_of_isFolder hcwd hthere hfolder) (by simp) hfile
    rw [String.intercalate_singleton, if_pos (check_eq_ok.1 hcheck).2] at hfound
    exact read?_eq_some_iff.2 hfound

end Workspace

namespace Workspace

variable {w w' : Workspace} {p : Path} {c out : Location}

/-- The names that a resolution follows all lead somewhere. -/
theorem not_idle_of_mem_resolved (hground : w.IsGrounded) (p : Path) :
    ∀ s ∈ ((w.base p).place ++ p.steps).reverse, ¬(s = "" ∨ s = ".") := by
  intro s hs
  rcases List.mem_append.1 (List.mem_reverse.1 hs) with hs | hs
  · exact (FileTree.isName_of_mem (node?_base hground p) s hs).isStep.not_idle
  · simpa using (List.mem_filter.1 hs).2

/-- **A path resolves to the same place again** once all that it goes down into are folders. -/
theorem resolve?_again (hground : w.IsGrounded) (hcwd : w.cwd.Of c) (hcwd' : w'.cwd.Of c)
    (hground' : w'.IsGrounded) (hthere' : (w'.base p).removed = 0)
    (hfolders : ∀ l ∈ p.entered c, w'.tree.node? l = some .folder) (h : w.resolve? p = some out) :
    w'.resolve? p = some out := by
  rw [resolve?] at h ⊢
  split at h
  · rename_i hthere
    have hplace := (base_of hcwd p).place_eq hthere
    have hplace' := (base_of hcwd' p).place_eq hthere'
    have hidle := not_idle_of_mem_resolved hground p
    rw [if_pos hthere', hplace']
    rw [hplace] at h hidle
    have hbase := node?_base hground p
    have hbase' := node?_base hground' p
    rw [hplace] at hbase
    rw [hplace'] at hbase'
    have hnames : ∀ s ∈ p.origin c, IsStep s := fun s hs =>
      (FileTree.isName_of_mem hbase s hs).isStep
    refine (FileTree.resolveBack_again hidle (fun front _ hfront _ => ?_) h).2
    refine ⟨_, (FileTree.walk_ofPlace w'.tree.node?_nil fun l hl => ?_).1⟩
    rw [List.reverse_reverse] at hfront
    obtain ⟨more, hmore⟩ := hfront
    have hl : l ∈ Location.entered [] (p.origin c ++ p.steps) := by
      rw [← hmore, Location.entered_append]
      exact List.mem_append_left _ hl
    rw [Location.entered_append, Location.along_steps _ hnames, List.nil_append, Path.steps,
      (Location.along_filter _ _).2, List.mem_append] at hl
    rcases hl with hl | hl
    · obtain ⟨_, _, hfront, rfl⟩ := (Location.mem_entered_steps hnames).1 hl
      by_cases heq : l = p.origin c
      · rw [heq, hbase']
      · exact FileTree.node?_of_prefix hbase' hfront heq
    · exact hfolders l hl
  · cases h

end Workspace

end ModText
