import ModText.Disk.Workspace
import ModText.Proofs.Disk.Paths

/-!
# Where a walk ends

A disk has no links, so a walk that succeeds ends where the text of the path says, and everything
that the path goes down into on its way is there. This holds although the folder in which the program
runs may be gone: such a folder still knows how deep it lay, and that is all that `..` asks for.

`Position.Of` ties a position to the place that it has, or had until folders were removed. Walking,
clearing and erasing all keep that tie, so the place from which relative paths are followed is the
same for the whole run of a program.
-/

namespace ModText

namespace FileTree

variable {t : FileTree} {l m : Location}

theorem isName_of_mem {n : Node} (h : t.node? l = some n) : ∀ s ∈ l, IsName s := by
  induction hlen : l.length generalizing l n with
  | zero => simp [List.length_eq_zero_iff.1 hlen]
  | succ k ih =>
    have hroot : l ≠ [] := by
      rintro rfl
      cases hlen
    obtain ⟨parent, name, rfl, hname, hparent⟩ := parent_of_node? hroot h
    intro s hs
    rcases List.mem_append.1 hs with hs | hs
    · exact ih hparent (by simpa using hlen) s hs
    · rwa [List.mem_singleton.1 hs]

/-- What lies above something is a folder. -/
theorem node?_of_prefix {n : Node} (h : t.node? m = some n) (hlm : l <+: m) (hne : l ≠ m) :
    t.node? l = some .folder := by
  obtain ⟨k, rfl⟩ := hlm
  induction hlen : k.length generalizing k n with
  | zero => exact absurd (by simp [List.length_eq_zero_iff.1 hlen]) hne
  | succ j ih =>
    have hk : k ≠ [] := by
      rintro rfl
      cases hlen
    obtain ⟨parent, name, hsplit, _, hparent⟩ := parent_of_node? (by simp [hk]) h
    have hshort : parent = l ++ k.dropLast := by
      rw [← List.dropLast_append_of_ne_nil hk, hsplit, List.dropLast_concat]
    rw [hshort] at hparent
    by_cases hnil : k.dropLast = []
    · rwa [hnil, List.append_nil] at hparent
    · exact ih k.dropLast hparent (by simpa using hnil) (by simp [hlen])

theorem node?_dropLast (h : t.node? l = some .folder) : t.node? l.dropLast = some .folder := by
  by_cases hnil : l = []
  · rw [hnil] at h ⊢
    exact h
  · refine node?_of_prefix h (List.dropLast_prefix l) fun heq => ?_
    have hlen := congrArg List.length heq
    rw [List.length_dropLast] at hlen
    have hpos := List.length_pos_iff.2 hnil
    omega

end FileTree

namespace Position

variable {p q : Position} {l : Location}

/-- The position has this place, or had it until folders on the way were removed. -/
def Of (p : Position) (l : Location) : Prop :=
  p.place <+: l ∧ p.depth = l.length

theorem of_ofPlace (l : Location) : (ofPlace l).Of l :=
  ⟨(place_ofPlace l).symm ▸ List.prefix_rfl, by simp [depth, ofPlace]⟩

theorem parent_ofPlace (l : Location) : (ofPlace l).parent = ofPlace l.dropLast := by
  simp [Position.parent, ofPlace, List.tail_reverse]

theorem child_ofPlace (l : Location) (name : String) :
    (ofPlace l).child name = ofPlace (l ++ [name]) := by
  simp [child, ofPlace]

theorem of_root : ({} : Position).Of [] :=
  of_ofPlace []

theorem exists_of (p : Position) : ∃ l, p.Of l ∧ (p.removed = 0 → l = p.place) := by
  refine ⟨p.place ++ List.replicate p.removed "", ⟨List.prefix_append _ _, ?_⟩, fun h => ?_⟩
  · simp [depth, length_place]
  · simp [h]

theorem Of.place_eq (h : p.Of l) (hthere : p.removed = 0) : p.place = l := by
  apply h.1.eq_of_length
  rw [length_place, ← h.2, depth, hthere, Nat.add_zero]

theorem eq_ofPlace (hthere : p.removed = 0) : p = ofPlace p.place := by
  obtain ⟨back, removed⟩ := p
  obtain rfl : removed = 0 := hthere
  simp [ofPlace, place]

theorem Of.parent (h : p.Of l) : p.parent.Of l.dropLast := by
  refine ⟨?_, by rw [depth_parent, h.2, List.length_dropLast]⟩
  cases hremoved : p.removed with
  | zero =>
    have hplace : p.parent.place = l.dropLast := by
      rw [place_parent p hremoved, h.place_eq hremoved]
    exact hplace ▸ List.prefix_rfl
  | succ n =>
    -- the removed part is as long as `l` is longer than the place, so it is what `..` takes off
    have hplace : p.parent.place = p.place := by simp [Position.parent, hremoved, place]
    have hdepth := h.2
    rw [depth, hremoved, ← length_place] at hdepth
    rw [hplace, List.prefix_iff_eq_take.1 h.1, List.dropLast_eq_take]
    exact List.take_prefix_take_left (by omega)

theorem Of.child (h : p.Of l) (hthere : p.removed = 0) (name : String) :
    (p.child name).Of (l ++ [name]) := by
  have hlen := h.2
  rw [depth, hthere] at hlen
  have hplace : (p.child name).place = l ++ [name] := by
    rw [place_child, h.place_eq hthere]
  refine ⟨hplace ▸ List.prefix_rfl, ?_⟩
  simp only [Position.child, depth, List.length_cons, List.length_append, List.length_nil]
  omega

theorem Of.clear (h : p.Of l) (k : Location) : (p.clear k).Of l := by
  refine ⟨?_, by rw [depth_clear, h.2]⟩
  rw [Position.clear]
  split
  · rename_i hin
    rw [place, List.reverse_reverse]
    exact (List.isPrefixOf_iff_prefix.1 hin).trans h.1
  · exact h.1

theorem Of.erase (h : p.Of l) (k : Location) (name : String) : (p.erase k name).Of l := by
  refine ⟨?_, by rw [depth_erase, h.2]⟩
  rw [Position.erase]
  split
  · rename_i hin
    rw [place, List.reverse_reverse]
    exact ((List.prefix_append k [name]).trans (List.isPrefixOf_iff_prefix.1 hin)).trans h.1
  · exact h.1

end Position

namespace FileTree

variable {t : FileTree} {p q : Position} {l : Location} {s : String} {rest segments : List String}

theorem nodeAt?_of_removed_eq_zero (h : p.removed = 0) : t.nodeAt? p = t.node? p.place :=
  if_pos h

/-- What a walk with one segment more has done first. -/
theorem walk_cons_eq_ok (h : t.walk p (s :: rest) = .ok q) :
    (∀ content, t.nodeAt? p ≠ some (.file content)) ∧
      ((s = "" ∨ s = ".") ∧ t.walk p rest = .ok q ∨
        s = ".." ∧ t.walk p.parent rest = .ok q ∨
        IsName s ∧ p.removed = 0 ∧ (t.node? (p.place ++ [s])).isSome ∧
          t.walk (p.child s) rest = .ok q) := by
  rw [walk_cons] at h
  split at h
  · cases h
  · rename_i hfile
    refine ⟨fun content hcontent => hfile content hcontent, ?_⟩
    split at h
    · exact Or.inl ⟨‹_›, h⟩
    · split at h
      · exact Or.inr (Or.inl ⟨‹_›, h⟩)
      · split at h
        · cases h
        · rename_i hname
          split at h
          · rename_i hnext
            exact Or.inr (Or.inr ⟨Decidable.not_not.1 hname, hnext.1, hnext.2, h⟩)
          · cases h

theorem removed_walk (hthere : p.removed = 0) (h : t.walk p segments = .ok q) : q.removed = 0 := by
  induction segments generalizing p with
  | nil =>
    obtain rfl : p = q := Except.ok.inj h
    exact hthere
  | cons s rest ih =>
    rcases (walk_cons_eq_ok h).2 with ⟨_, h⟩ | ⟨_, h⟩ | ⟨_, _, _, h⟩
    · exact ih hthere h
    · exact ih (by simp [Position.parent, hthere]) h
    · exact ih rfl h

/-- A walk ends where its segments lead. -/
theorem of_walk (hp : p.Of l) (h : t.walk p segments = .ok q) : q.Of (l.along segments) := by
  induction segments generalizing p l with
  | nil =>
    obtain rfl : p = q := Except.ok.inj h
    exact hp
  | cons s rest ih =>
    rw [Location.along]
    rcases (walk_cons_eq_ok h).2 with ⟨hidle, h⟩ | ⟨hup, h⟩ | ⟨hname, hthere, _, h⟩
    · rw [if_pos hidle]
      exact ih hp h
    · rw [if_neg (by simp [hup]), if_pos hup]
      exact ih hp.parent h
    · rw [if_neg hname.isStep.not_idle, if_neg hname.isStep.not_up]
      exact ih (hp.child hthere s) h

/-- A walk that does not end at a file has no file on its way. -/
theorem nodeAt?_ne_file (h : t.walk p segments = .ok q) (hq : t.nodeAt? q = some .folder)
    (content : ByteArray) : t.nodeAt? p ≠ some (.file content) := by
  cases segments with
  | nil =>
    obtain rfl : p = q := Except.ok.inj h
    simp [hq]
  | cons s rest => exact (walk_cons_eq_ok h).1 content

/-- What a walk goes down into is there, and if it ends at a folder, all of it are folders. -/
theorem node?_of_mem_entered (hp : p.Of l) (h : t.walk p segments = .ok q) {m : Location}
    (hm : m ∈ l.entered segments) :
    (t.node? m).isSome ∧ (t.nodeAt? q = some .folder → t.node? m = some .folder) := by
  induction segments generalizing p l with
  | nil => cases hm
  | cons s rest ih =>
    rw [Location.entered] at hm
    rcases (walk_cons_eq_ok h).2 with ⟨hidle, h⟩ | ⟨hup, h⟩ | ⟨hname, hthere, hsome, h⟩
    · rw [if_pos hidle] at hm
      exact ih hp h hm
    · rw [if_neg (by simp [hup]), if_pos hup] at hm
      exact ih hp.parent h hm
    · rw [if_neg hname.isStep.not_idle, if_neg hname.isStep.not_up, List.mem_cons] at hm
      rw [hp.place_eq hthere] at hsome
      rcases hm with rfl | hm
      · refine ⟨hsome, fun hq => ?_⟩
        have hfile := nodeAt?_ne_file h hq
        rw [nodeAt?_of_removed_eq_zero rfl, Position.place_child, hp.place_eq hthere] at hfile
        obtain ⟨n, hn⟩ := Option.isSome_iff_exists.1 hsome
        cases n with
        | folder => exact hn
        | file content => exact absurd hn (hfile content)
      · exact ih (hp.child hthere s) h hm

/-- A walk through folders succeeds and ends at one. -/
theorem walk_ofPlace (hl : t.node? l = some .folder)
    (hfolders : ∀ m ∈ l.entered segments, t.node? m = some .folder) :
    t.walk (.ofPlace l) segments = .ok (.ofPlace (l.along segments)) ∧
      t.node? (l.along segments) = some .folder := by
  induction segments generalizing l with
  | nil => exact ⟨rfl, hl⟩
  | cons s rest ih =>
    have hnode : t.nodeAt? (.ofPlace l) = some .folder := by
      rw [nodeAt?_of_removed_eq_zero rfl, Position.place_ofPlace, hl]
    rw [walk_cons, hnode, Location.along]
    rw [Location.entered] at hfolders
    simp only
    split
    · rename_i hidle
      rw [if_pos hidle] at hfolders
      exact ih hl hfolders
    · rename_i hidle
      rw [if_neg hidle] at hfolders
      split
      · rename_i hup
        rw [if_pos hup] at hfolders
        rw [Position.parent_ofPlace]
        exact ih (node?_dropLast hl) hfolders
      · rename_i hup
        rw [if_neg hup, List.forall_mem_cons] at hfolders
        have hname : IsName s := isName_of_mem hfolders.1 s (by simp)
        rw [if_neg (Decidable.not_not.2 hname), Position.place_ofPlace,
          if_pos ⟨rfl, by simp [hfolders.1]⟩, Position.child_ofPlace]
        exact ih hfolders.1 hfolders.2

/-- The first segment of a walk leads to a position from where the rest is followed, whatever the
rest is. -/
theorem exists_step (h : t.walk p (s :: rest) = .ok q) :
    ∃ r, (∀ more, t.walk p (s :: more) = t.walk r more) ∧ t.walk r rest = .ok q := by
  obtain ⟨hfile, ⟨hstay, h⟩ | ⟨hup, h⟩ | ⟨hname, hthere, hsome, h⟩⟩ := walk_cons_eq_ok h
  · refine ⟨p, fun more => ?_, h⟩
    rw [walk_cons]
    split
    · exact absurd ‹_› (hfile _)
    · rw [if_pos hstay]
  · refine ⟨p.parent, fun more => ?_, h⟩
    rw [walk_cons]
    split
    · exact absurd ‹_› (hfile _)
    · rw [if_neg (by simp [hup]), if_pos hup]
  · refine ⟨p.child s, fun more => ?_, h⟩
    rw [walk_cons]
    split
    · exact absurd ‹_› (hfile _)
    · rw [if_neg hname.isStep.not_idle, if_neg hname.isStep.not_up,
        if_neg (Decidable.not_not.2 hname), if_pos ⟨hthere, hsome⟩]

/-- A walk can be continued from where it has ended. -/
theorem walk_append (h : t.walk p segments = .ok q) (more : List String) :
    t.walk p (segments ++ more) = t.walk q more := by
  induction segments generalizing p with
  | nil =>
    obtain rfl : p = q := Except.ok.inj h
    rfl
  | cons s rest ih =>
    obtain ⟨r, hstep, h⟩ := exists_step h
    rw [List.cons_append, hstep, ih h]

/-- A walk can be broken off on its way. -/
theorem exists_walk_of_append {more : List String} (h : t.walk p (segments ++ more) = .ok q) :
    ∃ r, t.walk p segments = .ok r ∧ t.walk r more = .ok q := by
  induction segments generalizing p with
  | nil => exact ⟨p, rfl, h⟩
  | cons s rest ih =>
    obtain ⟨r, hstep, h⟩ := exists_step h
    obtain ⟨r', hrest, hmore⟩ := ih h
    exact ⟨r', (hstep rest).trans hrest, hmore⟩

/-- At a folder, segments that name nothing can be added. -/
theorem walk_append_idle (h : t.walk p segments = .ok q) (hq : t.nodeAt? q = some .folder)
    {idle : List String} (hidle : ∀ s ∈ idle, s = "" ∨ s = ".") :
    t.walk p (segments ++ idle) = .ok q := by
  rw [walk_append h]
  induction idle with
  | nil => rfl
  | cons s rest ih =>
    rw [walk_cons, hq]
    simp only
    rw [if_pos (hidle s List.mem_cons_self)]
    exact ih fun r hr => hidle r (List.mem_cons_of_mem s hr)

/-- Segments that name nothing end where they begin. -/
theorem eq_of_walk_idle {idle : List String} (hidle : ∀ s ∈ idle, s = "" ∨ s = ".")
    (h : t.walk p idle = .ok q) : p = q := by
  induction idle with
  | nil => exact Except.ok.inj h
  | cons s rest ih =>
    have hs := hidle s List.mem_cons_self
    rcases (walk_cons_eq_ok h).2 with ⟨_, h⟩ | ⟨hup, _⟩ | ⟨hname, _⟩
    · exact ih (fun r hr => hidle r (List.mem_cons_of_mem s hr)) h
    · rw [hup] at hs
      exact absurd hs (by decide)
    · exact absurd hs hname.isStep.not_idle

/-- A walk goes from a folder on the disk down to what has a name in it. -/
theorem walk_singleton (hthere : p.removed = 0) (hfolder : t.node? p.place = some .folder)
    {s : String} (hname : IsName s) (hsome : (t.node? (p.place ++ [s])).isSome) :
    t.walk p [s] = .ok (p.child s) := by
  rw [walk_cons, nodeAt?_of_removed_eq_zero hthere, hfolder]
  simp only
  rw [if_neg hname.isStep.not_idle, if_neg hname.isStep.not_up,
    if_neg (Decidable.not_not.2 hname), if_pos ⟨hthere, hsome⟩, walk_nil]

/-- A walk goes down the names that lead to what is there. -/
theorem walk_names {names : List String} {n : Node} (hthere : p.removed = 0)
    (h : t.node? (p.place ++ names) = some n) :
    ∃ q, t.walk p names = .ok q ∧ q.removed = 0 ∧ q.place = p.place ++ names := by
  induction names generalizing p with
  | nil => exact ⟨p, rfl, hthere, (List.append_nil _).symm⟩
  | cons s rest ih =>
    have hfolder : t.node? p.place = some .folder :=
      FileTree.node?_of_prefix h (List.prefix_append _ _) (by simp)
    rw [List.append_cons] at h
    have hname : IsName s := isName_of_mem h s (by simp)
    have hsome : (t.node? (p.place ++ [s])).isSome := by
      by_cases hrest : rest = []
      · rw [hrest, List.append_nil] at h
        simp [h]
      · rw [FileTree.node?_of_prefix h (List.prefix_append _ _) (by simp [hrest])]
        rfl
    obtain ⟨q, hq, hremoved, hplace⟩ :=
      ih (p := p.child s) rfl (by rw [Position.place_child]; exact h)
    refine ⟨q, ?_, hremoved, by rw [hplace, Position.place_child, ← List.append_cons]⟩
    rw [← List.singleton_append, walk_append (walk_singleton hthere hfolder hname hsome), hq]

theorem nodeAt?_of_node? (h : t.node? p.place = some .folder) : t.nodeAt? p = some .folder := by
  rw [nodeAt?]
  split
  · exact h
  · rfl

theorem node?_parent (h : t.node? p.place = some .folder) :
    t.node? p.parent.place = some .folder := by
  cases hremoved : p.removed with
  | zero =>
    rw [Position.place_parent p hremoved]
    exact node?_dropLast h
  | succ n =>
    have hplace : p.parent.place = p.place := by
      simp [Position.parent, hremoved, Position.place]
    rwa [hplace]

/-- A walk depends only on what it goes down into. -/
theorem walk_congr {t' : FileTree} {n : Node} (hl : t.node? l = some n) (hl' : t'.node? l = some n)
    (hsame : ∀ m ∈ l.entered segments, t'.node? m = t.node? m)
    (h : t.walk (.ofPlace l) segments = .ok q) :
    t'.walk (.ofPlace l) segments = .ok q ∧ t'.node? q.place = t.node? q.place := by
  induction segments generalizing l n with
  | nil =>
    obtain rfl : .ofPlace l = q := Except.ok.inj h
    rw [Position.place_ofPlace, hl, hl']
    exact ⟨rfl, rfl⟩
  | cons s rest ih =>
    obtain ⟨hfile, h⟩ := walk_cons_eq_ok h
    rw [nodeAt?_of_removed_eq_zero rfl, Position.place_ofPlace, hl] at hfile
    obtain rfl : n = .folder := by
      cases n with
      | folder => rfl
      | file content => exact absurd rfl (hfile content)
    have hfolder : t'.nodeAt? (.ofPlace l) = some .folder := by
      rw [nodeAt?_of_removed_eq_zero rfl, Position.place_ofPlace, hl']
    rw [Location.entered] at hsame
    rw [walk_cons, hfolder]
    simp only
    rcases h with ⟨hstay, h⟩ | ⟨hup, h⟩ | ⟨hname, _, hsome, h⟩
    · rw [if_pos hstay] at hsame ⊢
      exact ih hl hl' hsame h
    · rw [if_neg (by simp [hup]), if_pos hup] at hsame ⊢
      rw [Position.parent_ofPlace] at h ⊢
      exact ih (node?_dropLast hl) (node?_dropLast hl') hsame h
    · rw [if_neg hname.isStep.not_idle, if_neg hname.isStep.not_up, List.forall_mem_cons] at hsame
      rw [Position.place_ofPlace] at hsome
      rw [Position.child_ofPlace] at h
      obtain ⟨n, hn⟩ := Option.isSome_iff_exists.1 hsome
      rw [if_neg hname.isStep.not_idle, if_neg hname.isStep.not_up,
        if_neg (Decidable.not_not.2 hname), Position.place_ofPlace, Position.child_ofPlace,
        if_pos ⟨rfl, by rw [hsame.1, hsome]⟩]
      exact ih hn (hsame.1.trans hn) hsame.2 h

/-- On the way to a folder, a walk from a folder is at folders. -/
theorem node?_of_walk {more : List String} {r : Position} (hp : t.node? p.place = some .folder)
    (h : t.walk p segments = .ok r) (hmore : t.walk r more = .ok q)
    (hq : t.nodeAt? q = some .folder) : t.node? r.place = some .folder := by
  induction segments generalizing p with
  | nil =>
    obtain rfl : p = r := Except.ok.inj h
    exact hp
  | cons s rest ih =>
    rcases (walk_cons_eq_ok h).2 with ⟨_, h⟩ | ⟨_, h⟩ | ⟨_, _, hsome, h⟩
    · exact ih hp h
    · exact ih (node?_parent hp) h
    · apply ih _ h
      have hfile := nodeAt?_ne_file ((walk_append h more).trans hmore) hq
      rw [nodeAt?_of_removed_eq_zero rfl] at hfile
      rw [← Position.place_child] at hsome
      obtain ⟨n, hn⟩ := Option.isSome_iff_exists.1 hsome
      cases n with
      | folder => exact hn
      | file content => exact absurd hn (hfile content)

/-- A walk from a folder ends where something is, or was until it was removed. -/
theorem isSome_of_walk (hp : (t.node? p.place).isSome) (h : t.walk p segments = .ok q) :
    (t.node? q.place).isSome := by
  induction segments generalizing p with
  | nil =>
    obtain rfl : p = q := Except.ok.inj h
    exact hp
  | cons s rest ih =>
    obtain ⟨hfile, ⟨_, h⟩ | ⟨_, h⟩ | ⟨_, _, hsome, h⟩⟩ := walk_cons_eq_ok h
    · exact ih hp h
    · refine ih ?_ h
      cases hremoved : p.removed with
      | zero =>
        rw [nodeAt?_of_removed_eq_zero hremoved] at hfile
        obtain ⟨n, hn⟩ := Option.isSome_iff_exists.1 hp
        cases n with
        | folder =>
          rw [node?_parent hn]
          rfl
        | file content => exact absurd hn (hfile content)
      | succ k =>
        have hplace : p.parent.place = p.place := by
          simp [Position.parent, hremoved, Position.place]
        rwa [hplace]
    · exact ih (by rwa [Position.place_child]) h

/-- A walk goes the same way on a disk that has at least the same folders and has what is at its
end. -/
theorem walk_mono_of_isSome {t' : FileTree}
    (hfolders : ∀ l, t.node? l = some .folder → t'.node? l = some .folder)
    (hp : t.node? p.place = some .folder) (h : t.walk p segments = .ok q)
    (hq : (t'.node? q.place).isSome) : t'.walk p segments = .ok q := by
  induction segments generalizing p with
  | nil => exact h
  | cons s rest ih =>
    rw [walk_cons, nodeAt?_of_node? (hfolders _ hp)]
    simp only
    obtain ⟨_, ⟨hstay, h⟩ | ⟨hup, h⟩ | ⟨hname, hthere, hsome, h⟩⟩ := walk_cons_eq_ok h
    · rw [if_pos hstay]
      exact ih hp h
    · rw [if_neg (by simp [hup]), if_pos hup]
      exact ih (node?_parent hp) h
    · rw [if_neg hname.isStep.not_idle, if_neg hname.isStep.not_up,
        if_neg (Decidable.not_not.2 hname)]
      rw [← Position.place_child] at hsome ⊢
      cases rest with
      | nil =>
        obtain rfl : p.child s = q := Except.ok.inj h
        rw [if_pos ⟨hthere, hq⟩]
        rfl
      | cons s' rest =>
        -- the walk goes on, so it is at a folder
        have hfolder : t.node? (p.child s).place = some .folder := by
          obtain ⟨n, hn⟩ := Option.isSome_iff_exists.1 hsome
          cases n with
          | folder => exact hn
          | file content => exact absurd hn ((walk_cons_eq_ok h).1 content)
        rw [if_pos ⟨hthere, by rw [hfolders _ hfolder]; rfl⟩]
        exact ih hfolder h

/-- A walk to a folder goes the same way on a disk that has at least the same folders. -/
theorem walk_mono {t' : FileTree}
    (hfolders : ∀ l, t.node? l = some .folder → t'.node? l = some .folder)
    (hp : t.node? p.place = some .folder) (h : t.walk p segments = .ok q)
    (hq : t.nodeAt? q = some .folder) : t'.walk p segments = .ok q := by
  have hend : t.walk q [] = .ok q := rfl
  apply walk_mono_of_isSome hfolders hp h
  rw [hfolders _ (node?_of_walk hp h hend hq)]
  rfl

end FileTree

namespace Workspace

variable {w : Workspace} {c : Location} {p : Path}

/-- The program runs in a folder of the disk, or in one that has been removed from such a folder. -/
def IsGrounded (w : Workspace) : Prop :=
  w.tree.node? w.cwd.place = some .folder

instance (w : Workspace) : Decidable w.IsGrounded :=
  inferInstanceAs (Decidable (_ = _))

/-- The place from which a path is followed, unless it has been removed. -/
theorem base_place (w : Workspace) (p : Path) : (w.base p).place = p.origin w.cwd.place := by
  rw [base, Path.origin]
  split <;> rfl

theorem base_of_removed_eq_zero (hthere : (w.base p).removed = 0) :
    (w.base p).Of (p.origin w.cwd.place) := by
  rw [← base_place, Position.eq_ofPlace hthere, Position.place_ofPlace]
  exact Position.of_ofPlace _

/-- A path that starts at the root whenever another one does can be followed from the disk if that one
can. -/
theorem removed_base {q : Path} (hq : p.isAbsolute → q.isAbsolute)
    (hthere : (w.base p).removed = 0) : (w.base q).removed = 0 := by
  rw [base] at hthere ⊢
  split
  · rfl
  · rename_i hrelative
    rwa [if_neg fun hp => hrelative (hq hp)] at hthere

theorem base_of (hcwd : w.cwd.Of c) (p : Path) : (w.base p).Of (p.origin c) := by
  rw [base, Path.origin]
  split
  · exact Position.of_root
  · exact hcwd

theorem follow_eq_ok {q : Position} (h : w.follow p = .ok q) :
    check p = .ok () ∧ w.tree.walk (w.base p) p.segments = .ok q := by
  rw [follow] at h
  cases hcheck : check p with
  | error o =>
    rw [hcheck] at h
    cases h
  | ok u =>
    rw [hcheck] at h
    exact ⟨rfl, h⟩

theorem exists_follow_of_node? {n : Node} (h : w.node? p = some n) :
    ∃ q, w.follow p = .ok q ∧ w.tree.nodeAt? q = some n := by
  rw [node?] at h
  split at h
  · rename_i q hfollow
    exact ⟨q, hfollow, h⟩
  · cases h

theorem isFolder_iff : w.isFolder p ↔ w.node? p = some .folder := by
  rw [isFolder, beq_iff_eq]

theorem read?_eq_some_iff {content : ByteArray} :
    w.read? p = some content ↔ w.node? p = some (.file content) := by
  rw [read?]
  split
  · rename_i found hnode
    rw [hnode, Option.some.injEq, Option.some.injEq, Node.file.injEq]
  · rename_i hnot
    constructor
    · intro h
      cases h
    · intro h
      exact absurd h (hnot content)

/-- What is found at a path on the disk is at the place that the path leads to. -/
theorem node?_target (hbase : (w.base p).Of (p.origin c)) {q : Position} (h : w.follow p = .ok q)
    (hthere : q.removed = 0) : w.tree.nodeAt? q = w.tree.node? (p.target c) := by
  have hof := FileTree.of_walk hbase (follow_eq_ok h).2
  rw [FileTree.nodeAt?_of_removed_eq_zero hthere, hof.place_eq hthere]
  rfl

theorem exists_follow_of_locate {l : Location} (h : w.locate p = .ok l) :
    ∃ q, w.follow p = .ok q ∧ q.removed = 0 ∧ q.place = l := by
  rw [locate] at h
  cases hfollow : w.follow p with
  | error o =>
    rw [hfollow] at h
    cases h
  | ok q =>
    rw [hfollow] at h
    change (if q.removed = 0 then Except.ok q.place else Except.error Obstacle.missing) = _ at h
    split at h
    · rename_i hthere
      exact ⟨q, rfl, hthere, Except.ok.inj h⟩
    · cases h

theorem locate_eq_ok (hbase : (w.base p).Of (p.origin c)) {l : Location} (h : w.locate p = .ok l) :
    l = p.target c := by
  obtain ⟨q, hfollow, hthere, rfl⟩ := exists_follow_of_locate h
  exact (FileTree.of_walk hbase (follow_eq_ok hfollow).2).place_eq hthere

theorem node?_of_locate {l : Location} (h : w.locate p = .ok l) : w.node? p = w.tree.node? l := by
  obtain ⟨q, hfollow, hthere, rfl⟩ := exists_follow_of_locate h
  rw [node?, hfollow]
  exact FileTree.nodeAt?_of_removed_eq_zero hthere

/-- A file that is read has a place, for nothing but a folder can have been removed. -/
theorem exists_locate_of_read? {content : ByteArray} (h : w.read? p = some content) :
    ∃ l, w.locate p = .ok l ∧ w.tree.node? l = some (.file content) := by
  obtain ⟨q, hfollow, hnode⟩ := exists_follow_of_node? (read?_eq_some_iff.1 h)
  by_cases hthere : q.removed = 0
  · refine ⟨q.place, ?_, by rw [← FileTree.nodeAt?_of_removed_eq_zero hthere, hnode]⟩
    rw [locate, hfollow]
    exact if_pos hthere
  · simp [FileTree.nodeAt?, hthere] at hnode

theorem read?_eq_some (hbase : (w.base p).Of (p.origin c)) {content : ByteArray}
    (h : w.read? p = some content) : w.tree.node? (p.target c) = some (.file content) := by
  obtain ⟨l, hlocate, hfile⟩ := exists_locate_of_read? h
  rwa [← locate_eq_ok hbase hlocate]

/-- The way to a folder goes through folders. -/
theorem folder_of_mem_entered (hbase : (w.base p).Of (p.origin c)) (h : w.isFolder p) :
    ∀ m ∈ p.entered c, w.tree.node? m = some .folder := by
  intro m hm
  obtain ⟨q, hfollow, hnode⟩ := exists_follow_of_node? (isFolder_iff.1 h)
  exact (FileTree.node?_of_mem_entered hbase (follow_eq_ok hfollow).2 hm).2 hnode

/-- A path whose way goes through folders, from a folder, leads to something. -/
theorem holds_of_entered (hthere : (w.base p).removed = 0) (hcheck : check p = .ok ())
    (hbase : w.tree.node? (w.base p).place = some .folder)
    (hfolders : ∀ m ∈ (w.base p).place.entered p.segments, w.tree.node? m = some .folder) :
    w.holds p := by
  obtain ⟨hwalk, hend⟩ := FileTree.walk_ofPlace hbase hfolders
  rw [← Position.eq_ofPlace hthere] at hwalk
  have hfollow : w.follow p = .ok (.ofPlace ((w.base p).place.along p.segments)) := by
    rw [follow, hcheck]
    exact hwalk
  rw [holds, node?, hfollow]
  simp only
  rw [FileTree.nodeAt?_of_removed_eq_zero rfl, Position.place_ofPlace, hend]
  rfl

/-! ## Sites -/

/-- What is known of the place where a file or folder can be put. -/
structure IsSite (w : Workspace) (c : Location) (p : Path) (parent : Location) (name : String) :
    Prop where
  usable : check p = .ok ()
  isName : IsName name
  folder : w.tree.node? parent = some .folder
  target : p.target c = parent ++ [name]
  entered : ∃ front, p.entered c = front ++ [p.target c] ∧
    ∀ m ∈ front, w.tree.node? m = some .folder
  walked : ∃ last front q, p.segments.reverse.dropWhile (· = "") = last :: front ∧
    w.tree.walk (w.base p) front.reverse = .ok q ∧ q.removed = 0 ∧
      w.tree.node? q.place = some .folder

theorem isSite_of_site (hbase : (w.base p).Of (p.origin c)) {parent : Location} {name : String}
    (h : w.site p = .ok (parent, name)) : w.IsSite c p parent name := by
  rw [site] at h
  cases hcheck : check p with
  | error o =>
    rw [hcheck] at h
    cases h
  | ok u =>
    rw [hcheck] at h
    simp only [bind, Except.bind] at h
    split at h
    · cases h
    rename_i last front hdrop
    split at h
    · cases h
    rename_i q hwalk
    split at h
    · cases h
    split at h
    · cases h
    rename_i hname
    split at h
    · cases h
    rename_i hthere
    split at h
    · rename_i hfolder
      obtain ⟨rfl, rfl⟩ := Prod.mk.inj (Except.ok.inj h)
      have hlast := Decidable.not_not.1 hname
      have hplace := (FileTree.of_walk hbase hwalk).place_eq (Decidable.not_not.1 hthere)
      obtain ⟨htarget, hentered⟩ := Path.target_of_last hdrop hlast.isStep c
      refine ⟨hcheck, hlast, hfolder, by rw [hplace, htarget], ⟨_, hentered, fun m hm => ?_⟩,
        last, front, q, hdrop, hwalk, Decidable.not_not.1 hthere, hfolder⟩
      refine (FileTree.node?_of_mem_entered hbase hwalk hm).2 ?_
      rw [FileTree.nodeAt?_of_removed_eq_zero (Decidable.not_not.1 hthere), hfolder]
    · cases h
    · cases h

end Workspace

end ModText
