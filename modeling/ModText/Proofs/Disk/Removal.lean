import ModText.Proofs.Disk.Again

/-!
# What is left of a folder

Removing a folder empties it first and then takes it out by its path. If that path goes down into
something below the folder, then it leads nowhere once the folder is empty, and the folder stays.
`node?_of_removeFolder` tells from the path alone what is at every place afterwards.

The program may run in what is removed. `FileTree.walk_clear` shows that this does not matter: from the
removed folder every path goes up the way it did before.
-/

namespace ModText

/-- Whether the path goes down into something below the place that it leads to. -/
def Path.PassesBelow (p : Path) (c : Location) : Prop :=
  ∃ l ∈ p.entered c, p.target c <+: l ∧ l ≠ p.target c

instance (p : Path) (c : Location) : Decidable (p.PassesBelow c) :=
  inferInstanceAs (Decidable (∃ l ∈ p.entered c, p.target c <+: l ∧ l ≠ p.target c))

namespace Position

variable {l : Location} {p : Position}

theorem place_clear (h : l <+: p.place) : (p.clear l).place = l := by
  rw [clear, if_pos (List.isPrefixOf_iff_prefix.2 h), place, List.reverse_reverse]

theorem clear_of_place_eq (hthere : p.removed = 0) (h : p.place = l) : p.clear l = p := by
  obtain ⟨back, removed⟩ := p
  obtain rfl : removed = 0 := hthere
  rw [← h]
  simp [clear, place, depth]

theorem place_parent_prefix (p : Position) : p.parent.place <+: p.place := by
  cases hremoved : p.removed with
  | zero =>
    rw [place_parent p hremoved]
    exact List.dropLast_prefix _
  | succ n =>
    have hplace : p.parent.place = p.place := by simp [parent, hremoved, place]
    exact hplace ▸ List.prefix_rfl

theorem prefix_place_parent (h : l <+: p.place) (hdepth : l.length < p.depth) :
    l <+: p.parent.place := by
  cases hremoved : p.removed with
  | zero =>
    obtain ⟨below, hbelow⟩ := h
    have hne : below ≠ [] := by
      rintro rfl
      rw [depth, hremoved, ← length_place, ← hbelow, List.append_nil] at hdepth
      omega
    rw [place_parent p hremoved, ← hbelow, List.dropLast_append_of_ne_nil hne]
    exact List.prefix_append _ _
  | succ n =>
    have hplace : p.parent.place = p.place := by simp [parent, hremoved, place]
    rwa [hplace]

/-- Going up and losing what lies below a place can be done in either order. -/
theorem parent_clear (l : Location) (p : Position) : (p.clear l).parent = p.parent.clear l := by
  by_cases hin : l <+: p.place
  · rcases Nat.lt_or_ge l.length p.depth with hbelow | hat
    · obtain ⟨n, hn⟩ : ∃ n, p.depth - l.length = n + 1 := ⟨p.depth - l.length - 1, by omega⟩
      have hparent : p.parent.depth - l.length = n := by rw [depth_parent]; omega
      rw [clear, if_pos (List.isPrefixOf_iff_prefix.2 hin), clear,
        if_pos (List.isPrefixOf_iff_prefix.2 (prefix_place_parent hin hbelow)), hn, hparent]
      rfl
    · -- the position is that of the place itself, which is not removed
      have hlength := hin.length_le
      rw [depth, ← length_place] at hat
      have hthere : p.removed = 0 := by omega
      have hplace : p.place = l := (hin.eq_of_length (by omega)).symm
      rw [clear_of_place_eq hthere hplace]
      by_cases hroot : l = []
      · refine (clear_of_place_eq (by simp [parent, hthere]) ?_).symm
        rw [place_parent p hthere, hplace, hroot, List.dropLast_nil]
      · rw [clear_of_outside]
        rw [place_parent p hthere, hplace]
        intro hup
        have hshort := hup.length_le
        rw [List.length_dropLast] at hshort
        have hpos := List.length_pos_iff.2 hroot
        omega
  · rw [clear_of_outside hin, clear_of_outside fun hup => hin (hup.trans p.place_parent_prefix)]

end Position

namespace FileTree

variable {t : FileTree} {p q : Position} {k l : Location} {segments : List String}

theorem nodeAt?_clear_ne_file (hl : t.node? l = some .folder)
    (hp : ∀ content, t.nodeAt? p ≠ some (.file content)) (content : ByteArray) :
    (t.clear l).nodeAt? (p.clear l) ≠ some (.file content) := by
  by_cases hin : l <+: p.place
  · have hnode : (t.clear l).node? (p.clear l).place = some .folder := by
      rw [Position.place_clear hin, node?_clear, if_neg fun hbelow => hbelow.2 rfl, hl]
    rw [nodeAt?, hnode]
    split <;> simp
  · have hnode : (t.clear l).node? p.place = t.node? p.place := by
      rw [node?_clear, if_neg fun hbelow => hin hbelow.1]
    rw [Position.clear_of_outside hin, nodeAt?, hnode]
    exact hp content

/-- A walk that goes down into nothing below a folder is the same when that folder is empty. -/
theorem walk_clear (hl : t.node? l = some .folder) (hp : p.Of k) (h : t.walk p segments = .ok q)
    (hout : ∀ m ∈ k.entered segments, l <+: m → m = l) :
    (t.clear l).walk (p.clear l) segments = .ok (q.clear l) := by
  induction segments generalizing p k with
  | nil =>
    obtain rfl : p = q := Except.ok.inj h
    rfl
  | cons s rest ih =>
    obtain ⟨hfile, hstep⟩ := walk_cons_eq_ok h
    rw [Location.entered] at hout
    rw [walk_cons]
    split
    · exact absurd ‹_› (nodeAt?_clear_ne_file hl hfile _)
    rcases hstep with ⟨hidle, hrest⟩ | ⟨hup, hrest⟩ | ⟨hname, hthere, hsome, hrest⟩
    · rw [if_pos hidle] at hout
      rw [if_pos hidle]
      exact ih hp hrest hout
    · rw [if_neg (by simp [hup]), if_pos hup] at hout
      rw [if_neg (by simp [hup]), if_pos hup, Position.parent_clear]
      exact ih hp.parent hrest hout
    · rw [if_neg hname.isStep.not_idle, if_neg hname.isStep.not_up, List.forall_mem_cons] at hout
      rw [if_neg hname.isStep.not_idle, if_neg hname.isStep.not_up,
        if_neg (Decidable.not_not.2 hname)]
      have hplace := hp.place_eq hthere
      have hout' : ¬ l <+: p.place := by
        intro hin
        have heq := hout.1 (hplace ▸ hin.trans (List.prefix_append _ [s]))
        have hlength := hin.length_le
        rw [← heq, hplace, List.length_append, List.length_singleton] at hlength
        omega
      have hnext : ((t.clear l).node? (p.place ++ [s])).isSome := by
        rw [node?_clear, if_neg]
        · exact hsome
        · rintro ⟨hin, hne⟩
          exact hne (hplace ▸ hout.1 (hplace ▸ hin)).symm
      have hchild : (p.child s).clear l = p.child s := by
        by_cases hin : l <+: p.place ++ [s]
        · exact Position.clear_of_place_eq rfl
            ((Position.place_child p s).trans (hplace ▸ hout.1 (hplace ▸ hin)))
        · exact Position.clear_of_outside (Position.place_child p s ▸ hin)
      rw [Position.clear_of_outside hout', if_pos ⟨hthere, hnext⟩, ← hchild]
      exact ih (hp.child hthere s) hrest hout.2

end FileTree

namespace Workspace

variable {w w' : Workspace} {c : Location} {p : Path} {q : Position}

theorem base_clear (w : Workspace) (p : Path) (l : Location) :
    (w.clear l).base p = (w.base p).clear l := by
  rw [base, base]
  split
  · by_cases hroot : l = []
    · exact (Position.clear_of_place_eq rfl (by rw [hroot]; rfl)).symm
    · exact (Position.clear_of_outside fun hin => hroot (List.prefix_nil.1 hin)).symm
  · rfl

theorem walk_clear_of_append (hcwd : w.cwd.Of c)
    (hfolder : w.tree.node? (p.target c) = some .folder) (hout : ¬ p.PassesBelow c)
    {front behind : List String} (hsegments : p.segments = front ++ behind)
    (hwalk : w.tree.walk (w.base p) front = .ok q) :
    (w.clear (p.target c)).tree.walk ((w.clear (p.target c)).base p) front =
      .ok (q.clear (p.target c)) := by
  rw [base_clear]
  apply FileTree.walk_clear hfolder (base_of hcwd p) hwalk
  intro l hl hin
  by_contra hne
  refine hout ⟨l, ?_, hin, hne⟩
  rw [Path.entered, hsegments, Location.entered_append]
  exact List.mem_append_left _ hl

/-- A folder can be taken out once it is empty, unless its path goes down into what was below it. -/
theorem site_clear_ne_missing (hcwd : w.cwd.Of c) (hlocate : w.locate p = .ok (p.target c))
    (hfolder : w.tree.node? (p.target c) = some .folder) (hout : ¬ p.PassesBelow c) :
    (w.clear (p.target c)).site p ≠ .error .missing := by
  obtain ⟨q, hfollow, hthere, hplace⟩ := exists_follow_of_locate hlocate
  obtain ⟨hcheck, hwalk⟩ := follow_eq_ok hfollow
  cases hback : p.segments.reverse.dropWhile (· = "") with
  | nil => simp [site_of_idle hcheck hback]
  | cons last front =>
    obtain ⟨_, idle, hsegments, hempty⟩ := Path.segments_of_dropWhile hback
    rw [hsegments] at hwalk
    obtain ⟨r, hfront, hlast⟩ := FileTree.exists_walk_of_append hwalk
    have hcleared := walk_clear_of_append hcwd hfolder hout hsegments hfront
    by_cases hname : IsName last
    · obtain ⟨_, hstep⟩ := FileTree.walk_cons_eq_ok hlast
      rcases hstep with ⟨hidle, _⟩ | ⟨hup, _⟩ | ⟨_, hthere', hsome, hrest⟩
      · exact absurd hidle hname.isStep.not_idle
      · exact absurd hup hname.isStep.not_up
      · obtain rfl := FileTree.eq_of_walk_idle (fun s hs => Or.inl (hempty s hs)) hrest
        rw [Position.place_child] at hplace
        have houtside : ¬ p.target c <+: r.place := by
          intro hin
          have hlength := hin.length_le
          rw [← hplace, List.length_append, List.length_singleton] at hlength
          omega
        obtain ⟨n, hn⟩ := Option.isSome_iff_exists.1 hsome
        have hparent : (w.clear (p.target c)).tree.node? r.place = some .folder := by
          rw [clear, FileTree.node?_clear, if_neg fun hin => houtside hin.1]
          exact FileTree.node?_of_prefix hn (List.prefix_append _ _) (by simp)
        rw [Position.clear_of_outside houtside] at hcleared
        rw [site_of_walk hcheck hback hcleared hthere' hparent, if_neg, if_neg (not_not.2 hname)]
        · simp
        · exact not_or.2 ⟨hname.isStep.2.1, hname.isStep.2.2⟩
    · rw [site, hcheck]
      simp only [bind, Except.bind, hback]
      rw [clear] at hcleared ⊢
      rw [hcleared]
      simp only [hname, not_false_eq_true, if_true]
      split <;> simp

/-- **What is left of a folder that was removed.** Nothing but an empty folder at its place is left, and
only if its path goes down into something below it. Elsewhere everything stays. -/
theorem node?_of_removeFolder (hcwd : w.cwd.Of c) (h : w.removeFolder p = (w', true))
    (l : Location) : w'.tree.node? l =
      if p.target c <+: l then if l = p.target c ∧ p.PassesBelow c then some .folder else none
      else w.tree.node? l := by
  obtain ⟨_, hlocate, hfolder, hend⟩ := removeFolder_eq_true_iff.1 h
  obtain rfl := locate_eq_ok (base_of hcwd p) hlocate
  have hcleared : ∀ l, (w.clear (p.target c)).tree.node? l =
      if p.target c <+: l ∧ p.target c ≠ l then none else w.tree.node? l := w.tree.node?_clear _
  rcases hend with ⟨parent, name, hfound, rfl⟩ | ⟨hmissing, rfl⟩
  · have hsite := isSite_of_site (base_of (hcwd.clear _) p) hfound
    have hout : ¬ p.PassesBelow c := by
      rintro ⟨m, hm, hin, hne⟩
      obtain ⟨front, hentered, hfront⟩ := hsite.entered
      rw [hentered, List.mem_append, List.mem_singleton] at hm
      have hnode := hfront m (hm.resolve_right hne)
      rw [hcleared, if_pos ⟨hin, Ne.symm hne⟩] at hnode
      cases hnode
    rw [erase, FileTree.node?_erase, ← hsite.target, hcleared]
    by_cases hin : p.target c <+: l
    · rw [if_pos hin, if_pos hin, if_neg fun h => hout h.2]
    · rw [if_neg hin, if_neg hin, if_neg fun h => hin h.1]
  · have hpasses : p.PassesBelow c := by
      by_contra hout
      exact site_clear_ne_missing hcwd hlocate hfolder hout hmissing
    rw [hcleared]
    by_cases hin : p.target c <+: l
    · rw [if_pos hin]
      by_cases heq : l = p.target c
      · rw [if_neg fun h => h.2 heq.symm, if_pos ⟨heq, hpasses⟩, heq, hfolder]
      · rw [if_pos ⟨hin, Ne.symm heq⟩, if_neg fun h => heq h.1]
    · rw [if_neg hin, if_neg fun h => hin h.1]

end Workspace

end ModText
