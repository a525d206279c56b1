import ModText.Proofs.Disk.Again
import ModText.Proofs.Disk.Straight

/-!
# Creating what a path resolves to

A path is resolved before anything is created at it: the part of its way that is there is followed, and the
missing names behind it are appended. Where the part that is followed ends is told here for every path
(`FileTree.Parts`). What comes out is a place without dots, and it is the one that the path spells, so
nothing that happens on the disk in the meantime can turn the path away from it. Once the path has been
created it leads to that place.

The place cannot always be told from the path that was created. A program that runs far from the root
can create folders that have no absolute path any more.
-/

namespace ModText

namespace Location

/-- Segments lead on by names of their own. -/
theorem mem_along {l : Location} {segments : List String} {s : String} (h : s ∈ l.along segments) :
    s ∈ l ∨ s ∈ segments ∧ IsStep s := by
  induction segments generalizing l with
  | nil => exact .inl h
  | cons r rest ih =>
    rw [along] at h
    split at h
    · exact (ih h).imp_right fun hs => ⟨List.mem_cons_of_mem r hs.1, hs.2⟩
    · rename_i hidle
      split at h
      · exact (ih h).imp List.mem_of_mem_dropLast fun hs => ⟨List.mem_cons_of_mem r hs.1, hs.2⟩
      · rename_i hup
        rcases ih h with hs | hs
        · rcases List.mem_append.1 hs with hs | hs
          · exact .inl hs
          · rw [List.mem_singleton.1 hs]
            exact .inr ⟨List.mem_cons_self, (not_or.1 hidle).1, (not_or.1 hidle).2, hup⟩
        · exact .inr ⟨List.mem_cons_of_mem r hs.1, hs.2⟩

/-- The absolute path of a place spells it without dots. -/
theorem isStraight_text {l : Location} (h : ∀ s ∈ l, IsStep s ∧ '/' ∉ s.toList) :
    (Path.mk l.text).IsStraight ∧ (Path.mk l.text).steps = l := by
  have hsegments : ∃ idle, (∀ s ∈ idle, s = "") ∧ (Path.mk l.text).segments = "" :: (idle ++ l) := by
    have hslash := Path.segments_append_slash "" ("/".intercalate l)
    rw [String.empty_append] at hslash
    rw [text, hslash]
    by_cases hroot : l = []
    · exact ⟨[""], by simp, by rw [hroot]; rfl⟩
    · rw [Path.segments_intercalate hroot fun s hs => (h s hs).2]
      exact ⟨[], by simp, rfl⟩
  obtain ⟨idle, hidle, hsegments⟩ := hsegments
  have hkept : l.filter (fun s => s != "" && s != ".") = l := by
    rw [List.filter_eq_self]
    intro s hs
    simp [(h s hs).1.1, (h s hs).1.2.1]
  refine ⟨⟨?_, fun s hs => ?_⟩, ?_⟩
  · simp [Path.isAbsolute, text]
  · rw [hsegments, List.mem_cons, List.mem_append] at hs
    rcases hs with rfl | hs | hs
    · decide
    · rw [hidle s hs]
      decide
    · exact (h s hs).1.2
  · rw [Path.steps, hsegments, List.filter_cons_of_neg (by simp), List.filter_append, hkept,
      List.filter_eq_nil_iff.2 fun s hs => by simp [hidle s hs], List.nil_append]

end Location

namespace Workspace

variable {w v v' : Workspace} {p : Path} {c out : Location}

/-- Once a folder has been created with its parents, its path leads to it, by a way that has absolute
paths unless it leads too far from the root. -/
theorem leads_of_makeFolders (hcwd : v.cwd.Of c) (hground : v.IsGrounded)
    (hthere : (v.base p).removed = 0) (h : v.makeFolders p = (v', true)) :
    v'.tree.node? (p.target c) = some .folder ∧
      (check p = .ok () → v'.locate p = .ok (p.target c)) ∧
      v'.canonical? p = if (p.origin c).fitsAlong p.segments then some (p.target c) else none := by
  obtain ⟨hgrows, hfolders⟩ := makeFolders_spec hcwd h
  have hcwd' : v'.cwd.Of c := hgrows.cwd ▸ hcwd
  have hthere' : (v'.base p).removed = 0 := by
    rw [base, hgrows.cwd, ← base]
    exact hthere
  have hbase := base_eq_ofPlace hcwd' hthere'
  have horigin := node?_base (hgrows.isGrounded hground) p
  rw [hbase, Position.place_ofPlace] at horigin
  obtain ⟨hwalk, hend⟩ := FileTree.walk_ofPlace horigin (hfolders rfl)
  refine ⟨hend, fun hcheck => ?_, ?_⟩
  · apply locate_of_isFolder hcwd' hthere'
    apply isFolder_of_walk hcheck (hbase ▸ hwalk)
    rw [Position.place_ofPlace, hend]
  · have hdisk : (Position.ofPlace (p.origin c)).removed = 0 := rfl
    rw [canonical?, hbase]
    simp only [if_pos hdisk, Position.place_ofPlace, FileTree.canonical?, hwalk, Except.toOption,
      Option.map_some]
    rfl

/-- A path resolves to names without slashes, none of which is a dot or leads back. -/
theorem isStep_of_mem_resolved (hground : w.IsGrounded) (h : w.resolve? p = some out) :
    ∀ s ∈ out, IsStep s ∧ '/' ∉ s.toList := by
  intro s hs
  have horigin := node?_base hground p
  rw [base_place] at horigin
  rw [(resolves_of_resolve? hground h).target, Path.target] at hs
  rcases Location.mem_along hs with hs | ⟨hs, hstep⟩
  · have hname := FileTree.isName_of_mem horigin s hs
    exact ⟨hname.isStep, hname.2.2.2.1⟩
  · exact ⟨hstep, Path.not_mem_of_mem_segments hs⟩

/-- **Folders are created where their path resolves to.** The longest part that is there is found for
every path. If that part leads somewhere, the path resolves to a place that is spelled without dots. When
the folders of the path are created, then or later, the last of them is at that place, and that is also
the absolute path of the folder, unless something on the way to it is too far from the root to have one. -/
theorem makeFolders_resolved (hground : w.IsGrounded) (hp : p.text ≠ "") :
    (∃ front rest, w.tree.Parts ((w.base p).place ++ p.steps) front rest ∧
      w.resolve? p = if (w.base p).removed = 0 then (w.tree.canonical? [] front).map (· ++ rest)
        else none) ∧
    ∀ out, w.resolve? p = some out →
      (Path.mk out.text).IsStraight ∧ (Path.mk out.text).steps = out ∧
      ∀ v v' : Workspace, v.IsGrounded → v.cwd = w.cwd → v.makeFolders p = (v', true) →
        v'.tree.node? out = some .folder ∧ (p.isUsable → v'.locate p = .ok out) ∧
        v'.canonical? p = if (w.base p).place.fitsAlong p.segments then some out else none := by
  refine ⟨?_, fun out hresolve => ?_⟩
  · obtain ⟨front, rest, hparts, hresolved⟩ :=
      w.tree.exists_parts ((w.base p).place ++ p.steps).reverse
    rw [List.reverse_reverse] at hparts
    refine ⟨front, rest, hparts, ?_⟩
    rw [resolve?, ← hresolved]
  · obtain ⟨hstraight, hsteps⟩ := Location.isStraight_text (isStep_of_mem_resolved hground hresolve)
    refine ⟨hstraight, hsteps, fun v v' hgroundv hcwd hmade => ?_⟩
    have hresolves := resolves_of_resolve? hground hresolve
    have hthere : (v.base p).removed = 0 := by
      rw [base, hcwd, ← base]
      exact hresolves.there
    obtain ⟨c, hc, _⟩ := Position.exists_of w.cwd
    have horigin : (w.base p).place = p.origin c :=
      (base_place w p).trans (origin_eq hresolves.there hc id).symm
    have htarget : out = p.target c := by
      rw [hresolves.target, Path.target, Path.target, ← base_place, horigin]
    obtain ⟨hend, hlocate, hcanonical⟩ := leads_of_makeFolders (hcwd ▸ hc) hgroundv hthere hmade
    rw [htarget, horigin]
    exact ⟨hend, fun husable => hlocate (check_eq_ok.2 ⟨hp, husable⟩), hcanonical⟩

/-! ### A path that leads back through a folder -/

/-- A program that runs in a folder with a folder and a file in it. -/
def yardWorkspace : Workspace :=
  let w := ((⟨.empty, {}⟩ : Workspace).makeFolders ⟨"srv/out"⟩).1
  { (w.write? ⟨"srv/log"⟩ "".toUTF8).getD w with cwd := .ofPlace ["srv"] }

theorem makeFolders_resolved_yard :
    yardWorkspace.IsGrounded ∧
      yardWorkspace.resolve? ⟨"./out/..//new/Mod/"⟩ = some ["srv", "new", "Mod"] ∧
      (Path.mk (Location.text ["srv", "new", "Mod"])).IsStraight ∧
      ∃ w', yardWorkspace.makeFolders ⟨"./out/..//new/Mod/"⟩ = (w', true) ∧
        w'.locate ⟨"./out/..//new/Mod/"⟩ = .ok ["srv", "new", "Mod"] ∧
        w'.canonical? ⟨"./out/..//new/Mod/"⟩ = some ["srv", "new", "Mod"] := by
  have hground : yardWorkspace.IsGrounded := by decide +kernel
  have hresolve : yardWorkspace.resolve? ⟨"./out/..//new/Mod/"⟩ = some ["srv", "new", "Mod"] := by
    decide +kernel
  have hmade : (yardWorkspace.makeFolders ⟨"./out/..//new/Mod/"⟩).2 = true := by decide +kernel
  obtain ⟨hstraight, _, hcreated⟩ := (makeFolders_resolved hground (by decide)).2 _ hresolve
  obtain ⟨_, hlocate, hcanonical⟩ := hcreated _ _ hground rfl (Prod.ext rfl hmade)
  refine ⟨hground, hresolve, hstraight, _, Prod.ext rfl hmade, hlocate (by decide +kernel), ?_⟩
  rw [hcanonical, if_pos (by decide +kernel)]

end Workspace

/-! ### A folder too far from the root -/

namespace FileTree

variable {t : FileTree}

/-- Where names lead to something and are short enough, they resolve to its place. -/
theorem resolveBack_of_node? {l : Location} {n : Node} (h : t.node? l = some n)
    (hfits : Location.fits l) : t.resolveBack l.reverse = some l := by
  obtain ⟨q, hwalk, -, -⟩ := walk_names (p := {}) rfl h
  have hreaches : t.reaches l := by
    rw [reaches, hfits, hwalk]
    rfl
  have hcanonical : t.canonical? [] l = some l := by
    rw [canonical?_of_walk hwalk, if_pos (Location.fitsAlong_of_fits (l := []) hfits),
      Location.along_steps [] fun s hs => (isName_of_mem h s hs).isStep, List.nil_append]
  cases hback : l.reverse with
  | nil => rw [List.reverse_eq_nil_iff.1 hback, resolveBack]
  | cons s back =>
    rw [resolveBack, ← hback, List.reverse_reverse, hreaches, Bool.or_true, if_pos rfl, hcanonical]

/-- A folder in a folder in a folder, and so on. -/
def corridor : ℕ → FileTree
  | 0 => .empty
  | n + 1 => (corridor n).put (List.replicate n "d") "d" .folder (by decide)

theorem node?_corridor (n : ℕ) (l : Location) :
    (corridor n).node? l = if l <+: List.replicate n "d" then some .folder else none := by
  induction n generalizing l with
  | zero =>
    rw [corridor, node?_empty, List.replicate_zero]
    simp only [List.prefix_nil]
  | succ n ih =>
    have hparent : (corridor n).node? (List.replicate n "d") = some .folder := by
      rw [ih, if_pos List.prefix_rfl]
    have hfree : (corridor n).node? (List.replicate n "d" ++ ["d"]) = none := by
      rw [ih, if_neg fun hprefix => absurd hprefix.length_le (by simp)]
    rw [corridor, node?_put _ _ _ _ _ hparent (by simp [hfree]), ih, List.replicate_succ']
    simp only [List.prefix_concat_iff]
    by_cases hend : l = List.replicate n "d" ++ ["d"] <;> simp [hend]

theorem node?_corridor_end (n : ℕ) : (corridor n).node? (List.replicate n "d") = some .folder := by
  rw [node?_corridor, if_pos List.prefix_rfl]

end FileTree

namespace Workspace

open FileTree

/-- A program that runs at the end of a corridor. -/
def deepWorkspace (n : ℕ) : Workspace :=
  ⟨corridor n, .ofPlace (List.replicate n "d")⟩

theorem fits_replicate {n : ℕ} : Location.fits (List.replicate n "d") ↔ 2 * n ≤ 4095 := by
  have hsize : "d".utf8ByteSize + 1 = 2 := rfl
  rw [Location.fits_iff, List.map_replicate, List.sum_replicate_nat, hsize, Nat.mul_comm]

variable {n : ℕ}

theorem isGrounded_deepWorkspace : (deepWorkspace n).IsGrounded := by
  rw [IsGrounded, deepWorkspace, Position.place_ofPlace, node?_corridor_end]

theorem site_deepWorkspace :
    (deepWorkspace n).site ⟨"d"⟩ = .ok (List.replicate n "d", "d") := by
  have hcheck : check ⟨"d"⟩ = .ok () := by decide
  have hback : (Path.mk "d").segments.reverse.dropWhile (· = "") = ["d"] := by decide
  have hbase : (deepWorkspace n).base ⟨"d"⟩ = (deepWorkspace n).cwd := rfl
  rw [site_of_walk hcheck hback (FileTree.walk_nil _ _) rfl isGrounded_deepWorkspace,
    if_neg (by decide), if_neg (by decide), hbase, deepWorkspace, Position.place_ofPlace]

/-- The corridor can be made longer from its end, however long it is. -/
theorem makeFolders_deepWorkspace :
    (deepWorkspace n).makeFolders ⟨"d"⟩ =
      (⟨corridor (n + 1), .ofPlace (List.replicate n "d")⟩, true) := by
  have hancestors : (Path.mk "d").ancestors = [⟨"d"⟩, ⟨""⟩] := by decide
  have hname : IsName "d" := by decide
  have hfree : (corridor n).node? (List.replicate n "d" ++ ["d"]) = none := by
    rw [node?_corridor, if_neg fun hprefix => absurd hprefix.length_le (by simp)]
  have hput : (deepWorkspace n).put? (List.replicate n "d") "d" .folder =
      some ⟨corridor (n + 1), .ofPlace (List.replicate n "d")⟩ := by
    rw [put?, deepWorkspace, dif_pos ⟨hname, node?_corridor_end n, by simp [hfree]⟩]
    rfl
  have hmake : (deepWorkspace n).makeFolder ⟨"d"⟩ =
      .ok ⟨corridor (n + 1), .ofPlace (List.replicate n "d")⟩ := by
    rw [makeFolder, site_deepWorkspace]
    simp only [bind, Except.bind]
    rw [hput, deepWorkspace, hfree]
    rfl
  rw [makeFolders, hancestors, makeLineage_of_ready (by simp [site_deepWorkspace]), ensureFolder, hmake]

theorem resolve?_deepWorkspace (hfits : Location.fits (List.replicate n "d"))
    (hlong : ¬ Location.fits (List.replicate (n + 1) "d")) :
    (deepWorkspace n).resolve? ⟨"d"⟩ = some (List.replicate (n + 1) "d") := by
  have hsteps : (Path.mk "d").steps = ["d"] := by decide
  have hbase : (deepWorkspace n).base ⟨"d"⟩ = .ofPlace (List.replicate n "d") := rfl
  have hthere : (Position.ofPlace (List.replicate n "d")).removed = 0 := rfl
  have hback : (List.replicate n "d" ++ ["d"]).reverse = "d" :: (List.replicate n "d").reverse := by simp
  have hunreached : (corridor n).reaches ("d" :: (List.replicate n "d").reverse).reverse = false := by
    rw [← hback, List.reverse_reverse, ← List.replicate_succ', reaches,
      Bool.eq_false_iff.2 hlong, Bool.false_and]
  rw [resolve?, hbase, if_pos hthere, Position.place_ofPlace, hsteps, hback, resolveBack,
    deepWorkspace, hunreached, if_neg (by decide), resolveBack_of_node? (node?_corridor_end n) hfits,
    List.replicate_succ']
  rfl

theorem canonical?_far (t : FileTree) (hlong : ¬ Location.fits (List.replicate (n + 1) "d")) :
    (⟨t, .ofPlace (List.replicate n "d")⟩ : Workspace).canonical? ⟨"d"⟩ = none := by
  have hsegments : (Path.mk "d").segments = ["d"] := by decide
  have hbase : (⟨t, .ofPlace (List.replicate n "d")⟩ : Workspace).base ⟨"d"⟩ =
      .ofPlace (List.replicate n "d") := rfl
  have hfar : ¬ Location.fitsAlong (List.replicate n "d") ["d"] := by
    have hstep : IsStep "d" := by decide
    rw [Location.fitsAlong, if_neg hstep.not_idle, if_neg hstep.not_up, ← List.replicate_succ',
      Bool.and_eq_true]
    exact fun h => hlong h.1
  rw [canonical?, hbase, Position.place_ofPlace, hsegments, FileTree.canonical?, if_neg hfar]
  exact ite_self _

/-- At the end of the longest corridor that has an absolute path a folder can be created, but the place
that its path resolved to before cannot be told from it. -/
theorem canonical?_eq_none_of_deepWorkspace :
    (deepWorkspace 2047).IsGrounded ∧
      (deepWorkspace 2047).resolve? ⟨"d"⟩ = some (List.replicate 2048 "d") ∧
      ∃ w', (deepWorkspace 2047).makeFolders ⟨"d"⟩ = (w', true) ∧ w'.canonical? ⟨"d"⟩ = none := by
  have hfits : Location.fits (List.replicate 2047 "d") := fits_replicate.2 (by decide)
  have hlong : ¬ Location.fits (List.replicate (2047 + 1) "d") := fun h =>
    absurd (fits_replicate.1 h) (by decide)
  exact ⟨isGrounded_deepWorkspace, resolve?_deepWorkspace hfits hlong, _, makeFolders_deepWorkspace,
    canonical?_far _ hlong⟩

end Workspace

end ModText
