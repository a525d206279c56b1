import ModText.Proofs.Disk.Resolution
import Mathlib.Data.List.Infix

/-!
# Straight paths

A path that starts at the root and has no dots in it leads to the place that it spells, from name to
name. Its parents, as they are written, are the folders on the way, and something is there at a
straight path exactly if it is in the place that is spelled, unless the path is too long for a disk.
-/

namespace ModText

namespace Path

/-- The path starts at the root and has no dots in it. -/
structure IsStraight (p : Path) : Prop where
  isAbsolute : p.isAbsolute
  not_dots : ∀ s ∈ p.segments, s ≠ "." ∧ s ≠ ".."

variable {p q : Path}

theorem IsStraight.text_ne (h : p.IsStraight) : p.text ≠ "" := by
  intro hempty
  have habsolute := h.isAbsolute
  rw [Path.isAbsolute, hempty] at habsolute
  cases habsolute

theorem IsStraight.isStep (h : p.IsStraight) : ∀ s ∈ p.steps, IsStep s := by
  intro s hs
  obtain ⟨hs, hnamed⟩ := List.mem_filter.1 hs
  simp only [Bool.and_eq_true, bne_iff_ne] at hnamed
  exact ⟨hnamed.1, h.not_dots s hs⟩

/-- The steps of a straight path are the names on the way to its target. -/
theorem IsStraight.target (h : p.IsStraight) (c : Location) : p.target c = p.steps := by
  rw [Path.target, origin_of_isAbsolute h.isAbsolute, ← (Location.along_filter [] p.segments).1]
  exact Location.along_steps [] h.isStep

theorem mem_toList_intercalate {c : Char} {names : List String}
    (hc : c ∈ ("/".intercalate names).toList) : c = '/' ∨ ∃ s ∈ names, c ∈ s.toList := by
  induction names with
  | nil => simp at hc
  | cons s names ih =>
    cases names with
    | nil => exact .inr ⟨s, by simp, by simpa using hc⟩
    | cons r names =>
      rw [String.intercalate_cons_cons] at hc
      simp only [String.toList_append, List.mem_append] at hc
      rcases hc with (hc | hc) | hc
      · exact .inr ⟨s, by simp, hc⟩
      · exact .inl (by simpa using hc)
      · refine (ih hc).imp_right ?_
        rintro ⟨t, ht, hc⟩
        exact ⟨t, List.mem_cons_of_mem s ht, hc⟩

/-- What is written in a straight path are slashes and its steps. -/
theorem IsStraight.mem_text {c : Char} (h : p.IsStraight) (hc : c ∈ p.text.toList) :
    c = '/' ∨ ∃ s ∈ p.steps, c ∈ s.toList := by
  rw [← intercalate_segments] at hc
  refine (mem_toList_intercalate hc).imp_right ?_
  rintro ⟨s, hs, hc⟩
  refine ⟨s, List.mem_filter.2 ⟨hs, ?_⟩, hc⟩
  have hnamed : s ≠ "" := by
    rintro rfl
    simp at hc
  simp [hnamed, (h.not_dots s hs).1]

theorem IsStraight.join {name : String} (h : p.IsStraight) (hname : IsName name) :
    (p.join name).IsStraight := by
  have hrelative := isAbsolute_of_not_mem hname.2.2.2.1
  refine ⟨isAbsolute_join_of_isAbsolute h.isAbsolute name, ?_⟩
  obtain ⟨front, idle, hjoin, hp, -⟩ := segments_join (p := p) hrelative
  intro s hs
  rw [hjoin, segments_of_not_mem hname.2.2.2.1, List.mem_append, List.mem_singleton] at hs
  rcases hs with hs | rfl
  · exact h.not_dots s (hp ▸ List.mem_append_left idle hs)
  · exact ⟨hname.2.1, hname.2.2.1⟩

theorem IsStraight.steps_join {name : String} (h : p.IsStraight) (hname : IsName name) :
    (p.join name).steps = p.steps ++ [name] := by
  rw [← (h.join hname).target [], target_join [] (isAbsolute_of_not_mem hname.2.2.2.1),
    segments_of_not_mem hname.2.2.2.1, Location.along_singleton _ hname.isStep, h.target]

/-- A disk can be asked for a straight path through names exactly if it is short enough. -/
theorem IsStraight.check_eq_ok_iff (h : p.IsStraight) (hnames : ∀ s ∈ p.steps, IsName s) :
    Workspace.check p = .ok () ↔ p.text.utf8ByteSize ≤ 4095 := by
  have hnull : '\x00' ∉ p.text.toList := by
    intro hnull
    rcases h.mem_text hnull with hslash | ⟨s, hs, hnull⟩
    · cases hslash
    · exact (hnames s hs).2.2.2.2.1 hnull
  simp [Workspace.check_eq_ok, Path.isUsable, h.text_ne, hnull]

/-! ### A path with slashes too many -/

/-- A path with slashes behind it that name nothing. -/
def padded : ℕ → String → String
  | 0, text => text
  | n + 1, text => padded n text ++ "/"

variable {n : ℕ} {text : String}

theorem segments_padded :
    (Path.mk (padded n text)).segments = (Path.mk text).segments ++ List.replicate n "" := by
  induction n with
  | zero => simp [padded]
  | succ n ih =>
    have hslash := segments_append_slash (padded n text) ""
    rw [String.append_empty] at hslash
    rw [padded, hslash, ih, List.append_assoc, List.replicate_succ']
    rfl

theorem utf8ByteSize_padded : (padded n text).utf8ByteSize = text.utf8ByteSize + n := by
  induction n with
  | zero => rfl
  | succ n ih =>
    rw [padded, String.utf8ByteSize_append, ih]
    rfl

theorem steps_padded : (Path.mk (padded n text)).steps = (Path.mk text).steps := by
  rw [steps, segments_padded, List.filter_append, List.filter_replicate]
  simp [steps]

theorem isStraight_padded (h : (Path.mk text).IsStraight) :
    (Path.mk (padded n text)).IsStraight := by
  refine ⟨?_, ?_⟩
  · obtain ⟨s, rest, hsegments⟩ := isAbsolute_iff_segments.1 h.isAbsolute
    rw [isAbsolute_iff_segments, segments_padded, hsegments]
    exact ⟨s, rest ++ List.replicate n "", rfl⟩
  · intro s hs
    rw [segments_padded] at hs
    rcases List.mem_append.1 hs with hs | hs
    · exact h.not_dots s hs
    · rw [List.eq_of_mem_replicate hs]
      decide

/-! ## The folders above -/

theorem parentBodies_dropIdle (absolute : Bool) (body : List String) :
    parentBodies absolute (dropIdle absolute body) = parentBodies absolute body := by
  fun_induction dropIdle absolute body with
  | case1 => rfl
  | case2 s hs => rw [parentBodies, parentBodies, if_pos hs]
  | case3 => rfl
  | case4 s rest hrest hs ih =>
    rw [ih, parentBodies, if_pos hs]
    exact hrest
  | case5 => rfl

/-- What is above a path is its parent and what is above that. -/
theorem parentBodies_eq (absolute : Bool) (body : List String) :
    parentBodies absolute body = (parentBodies absolute body).head?.elim [] fun parent =>
      parent :: parentBodies absolute parent := by
  fun_induction parentBodies absolute body with
  | case1 => rfl
  | case2 => rfl
  | case3 => rfl
  | case4 _ _ _ _ ih => exact ih
  | case5 s rest =>
    rw [List.head?_cons, Option.elim_some, parentBodies_dropIdle]

theorem body_ofBody {absolute : Bool} {body : List String} (h : ∀ s ∈ body, '/' ∉ s.toList)
    (habsolute : (ofBody absolute body).isAbsolute = absolute) :
    (ofBody absolute body).body = if body = [] then [""] else body := by
  rw [Path.body, habsolute, segments_ofBody h]
  cases absolute <;> by_cases hnil : body = [] <;> simp [hnil]

/-- **The folders above are met parent by parent.** -/
theorem ancestors_eq_cons (p : Path) : p.ancestors = p :: p.parent?.elim [] ancestors := by
  have hbodies := parentBodies_eq p.isAbsolute p.body
  rw [parent?, ancestors]
  cases hparent : (parentBodies p.isAbsolute p.body).head? with
  | none => rw [List.head?_eq_none_iff.1 hparent]; rfl
  | some parent =>
    have hsuffix := parentBodies_suffix (List.mem_of_mem_head? hparent)
    have habsolute := isAbsolute_ofBody hsuffix
    have hslash : ∀ s ∈ parent, '/' ∉ s.toList := fun s hs =>
      not_mem_of_mem_body (hsuffix.subset hs)
    -- behind the root alone there is an empty segment, and nothing is above it either
    have hempty : parentBodies p.isAbsolute (if parent = [] then [""] else parent) =
        parentBodies p.isAbsolute parent := by
      split
      · simp [parentBodies, *]
      · rfl
    rw [hparent, Option.elim_some] at hbodies
    rw [hbodies, Option.map_some, Option.elim_some, List.map_cons, ancestors.eq_def (ofBody _ _),
      habsolute, body_ofBody hslash habsolute, hempty]

/-- Without dots only empty segments name nothing. -/
theorem filter_dropIdle (absolute : Bool) {body : List String} (h : ∀ s ∈ body, s ≠ ".") :
    (dropIdle absolute body).filter (· != "") = body.filter (· != "") := by
  fun_induction dropIdle absolute body with
  | case1 => rfl
  | case2 s hs =>
    obtain rfl : s = "" := by simpa [h s] using hs
    rfl
  | case3 => rfl
  | case4 s rest _ hs ih =>
    obtain ⟨hdot, hrest⟩ := List.forall_mem_cons.1 h
    obtain rfl : s = "" := by simpa [hdot] using hs
    exact ih hrest
  | case5 => rfl

/-- Without dots every body above another has a name less than that. -/
theorem map_filter_parentBodies (absolute : Bool) {body : List String} (h : ∀ s ∈ body, s ≠ ".") :
    (body :: parentBodies absolute body).map (List.filter (· != "")) =
      (body.filter (· != "")).tails := by
  fun_induction parentBodies absolute body with
  | case1 => rfl
  | case2 s hs =>
    obtain rfl : s = "" := by simpa [h s] using hs
    rfl
  | case3 s hs =>
    have hs : s ≠ "" := by simpa [h s] using hs
    simp [hs]
  | case4 s rest _ hs ih =>
    obtain ⟨hdot, hrest⟩ := List.forall_mem_cons.1 h
    obtain rfl : s = "" := by simpa [hdot] using hs
    exact ih hrest
  | case5 s rest _ hs ih =>
    obtain ⟨hdot, hrest⟩ := List.forall_mem_cons.1 h
    have hs : (s != "") = true := by simpa [hdot] using hs
    have hnext : (s :: rest).filter (· != "") = s :: rest.filter (· != "") :=
      List.filter_cons_of_pos hs
    rw [List.map_cons, List.map_cons, filter_dropIdle absolute hrest, ← List.map_cons, ih hrest,
      hnext, List.tails_cons]

theorem IsStraight.of_mem_ancestors (h : p.IsStraight) (hq : q ∈ p.ancestors) : q.IsStraight := by
  refine ⟨by rw [isAbsolute_ancestors hq, h.isAbsolute], ?_⟩
  rcases List.mem_cons.1 hq with rfl | hq
  · exact h.not_dots
  · obtain ⟨body, hbody, rfl⟩ := List.mem_map.1 hq
    have hsuffix := parentBodies_suffix hbody
    have hslash : ∀ s ∈ body, '/' ∉ s.toList := fun s hs => not_mem_of_mem_body (hsuffix.subset hs)
    intro s hs
    have hs : s = "" ∨ s ∈ body := by
      rw [segments_ofBody hslash] at hs
      split at hs <;> split at hs <;> simp_all
    rcases hs with rfl | hs
    · decide
    · apply h.not_dots s
      rw [segments_eq_body]
      exact List.mem_append_right _ (List.mem_reverse.2 (hsuffix.subset hs))

theorem IsStraight.steps_eq_body (h : p.IsStraight) :
    p.steps = (p.body.filter (· != "")).reverse := by
  have hfilter : p.steps = p.segments.filter (· != "") := by
    apply List.filter_congr
    intro s hs
    simp [(h.not_dots s hs).1]
  rw [hfilter, segments_eq_body, List.filter_append, if_pos h.isAbsolute, List.filter_reverse]
  rfl

/-- The ways to a straight path and its parents are the beginnings of its way, the longest first. -/
theorem IsStraight.map_steps_ancestors (h : p.IsStraight) :
    p.ancestors.map steps = p.steps.inits.reverse := by
  have hdots : ∀ s ∈ p.body, s ≠ "." := by
    intro s hs
    apply (h.not_dots s _).1
    rw [segments_eq_body]
    exact List.mem_append_right _ (List.mem_reverse.2 hs)
  have hparents : ∀ body ∈ parentBodies p.isAbsolute p.body,
      (ofBody p.isAbsolute body).steps = (body.filter (· != "")).reverse := by
    intro body hbody
    have hsuffix := parentBodies_suffix hbody
    have hslash : ∀ s ∈ body, '/' ∉ s.toList := fun s hs => not_mem_of_mem_body (hsuffix.subset hs)
    have hstraight := h.of_mem_ancestors (List.mem_cons_of_mem p (List.mem_map_of_mem hbody))
    rw [hstraight.steps_eq_body, body_ofBody hslash (isAbsolute_ofBody hsuffix)]
    split <;> simp [*]
  have htails := congrArg (List.map List.reverse) (map_filter_parentBodies p.isAbsolute hdots)
  rw [List.map_reverse_tails, ← h.steps_eq_body] at htails
  rw [← htails, ancestors, List.map_cons, List.map_cons, List.map_cons, ← h.steps_eq_body,
    List.map_map, List.map_map]
  exact congrArg _ (List.map_congr_left hparents)

end Path

/-! ## What straight paths lead to -/

namespace Workspace

variable {w : Workspace} {p : Path}

/-- Whether the folder that a path spells holds something of a name, and the path with the name
behind it is short enough for a disk. -/
def HasEntry (w : Workspace) (folder : Path) (name : String) : Prop :=
  (w.tree.node? (folder.steps ++ [name])).isSome ∧ (folder.join name).text.utf8ByteSize ≤ 4095

instance (w : Workspace) (folder : Path) (name : String) : Decidable (w.HasEntry folder name) :=
  inferInstanceAs (Decidable (_ ∧ _))

theorem base_of_isStraight (h : p.IsStraight) : w.base p = {} :=
  if_pos h.isAbsolute

/-- A straight path leads to the place that it spells if that is a folder and a disk can be asked
for the path. -/
theorem locate_of_isStraight (h : p.IsStraight) (hfolder : w.tree.node? p.steps = some .folder)
    (hcheck : check p = .ok ()) : w.locate p = .ok p.steps := by
  have hentered : ∀ m ∈ Location.entered [] p.segments, w.tree.node? m = some .folder := by
    intro m hm
    rw [← (Location.along_filter [] p.segments).2] at hm
    obtain ⟨front, -, hfront, hplace⟩ := (Location.mem_entered_steps h.isStep).1 hm
    rw [hplace, List.nil_append]
    by_cases hall : front = p.steps
    · rw [hall, hfolder]
    · exact FileTree.node?_of_prefix hfolder hfront hall
  obtain ⟨hwalk, -⟩ := FileTree.walk_ofPlace (w.tree.node?_nil) hentered
  have htarget : Location.along [] p.segments = p.steps := by
    rw [← h.target [], Path.target, Path.origin_of_isAbsolute h.isAbsolute]
  have hfollow : w.follow p = .ok (.ofPlace p.steps) := by
    rw [follow, hcheck, base_of_isStraight h, ← htarget]
    exact hwalk
  have hthere : (Position.ofPlace p.steps).removed = 0 := rfl
  rw [locate, hfollow]
  simp only [bind, Except.bind, if_pos hthere, Position.place_ofPlace]

/-- A straight path at which something is leads to the place that it spells. -/
theorem locate_of_holds (h : p.IsStraight) (hholds : w.holds p) :
    w.locate p = .ok p.steps ∧ (w.tree.node? p.steps).isSome := by
  obtain ⟨n, hnode⟩ := Option.isSome_iff_exists.1 hholds
  obtain ⟨q, hfollow, -⟩ := exists_follow_of_node? hnode
  have hbase : (w.base p).removed = 0 := by
    rw [base_of_isStraight h]
  have hthere : q.removed = 0 := FileTree.removed_walk hbase (follow_eq_ok hfollow).2
  have hlocate : w.locate p = .ok q.place := by
    rw [locate, hfollow]
    exact if_pos hthere
  have hplace := locate_eq_ok (base_of_removed_eq_zero hbase) hlocate
  rw [h.target] at hplace
  rw [hplace] at hlocate
  exact ⟨hlocate, by rwa [← node?_of_locate hlocate]⟩

/-- **What is put behind a straight path is looked for in the folder that the path spells**, unless
the path gets too long. -/
theorem holds_join_iff (h : p.IsStraight) {name : String} (hname : IsName name) :
    w.holds (p.join name) ↔ w.HasEntry p name := by
  have hrelative := Path.isAbsolute_of_not_mem hname.2.2.2.1
  have hsteps := h.steps_join hname
  rw [HasEntry, ← hsteps]
  constructor
  · intro hholds
    obtain ⟨-, hsome⟩ := locate_of_holds (h.join hname) hholds
    obtain ⟨n, hnode⟩ := Option.isSome_iff_exists.1 hsome
    obtain ⟨_, hfound⟩ := Option.isSome_iff_exists.1 hholds
    obtain ⟨_, hfollow, _⟩ := exists_follow_of_node? hfound
    exact ⟨hsome, ((h.join hname).check_eq_ok_iff (FileTree.isName_of_mem hnode)).1
      (follow_eq_ok hfollow).1⟩
  · rintro ⟨hsome, hshort⟩
    obtain ⟨n, hnode⟩ := Option.isSome_iff_exists.1 hsome
    have hcheck := ((h.join hname).check_eq_ok_iff (FileTree.isName_of_mem hnode)).2 hshort
    rw [hsteps] at hnode
    have hfolder : w.tree.node? p.steps = some .folder :=
      FileTree.node?_of_prefix hnode (List.prefix_append _ _) (by simp)
    have hlocate := locate_of_isStraight h hfolder (check_of_join h.text_ne hrelative hcheck)
    have hfound := node?_join_names hlocate (List.cons_ne_nil name []) hnode
    rw [String.intercalate_singleton, if_pos (check_eq_ok.1 hcheck).2] at hfound
    rw [holds, hfound]
    rfl

end Workspace

end ModText
