import ModText.Mod.Bundle
import ModText.Proofs.Disk.Removal
import ModText.Proofs.Output.Tree

/-!
# Where a dump stops

A dump does one thing after the other, and the first that fails is the last that is tried. So a dump
that fails in writing has completed some of its steps, the first ones in their order, has tried the
next one, and has not begun any other. `Mod.Prepared.sequence` spells these steps out.

A step can fail on the disk as it is, or for a reason that the disk does not show, such as a lack of
space or of rights. `Write.Faults` tells of the second kind, by the position of the step, and leaves
open what such a step does to the disk. `performUnder_eq_some_iff` says that nothing but one failing step
behind completed ones comes of it.

What completed steps have done is told from the disk before them: what clearing has left, and then the
folders and files of each step. A step that fails on the disk as it is may have created folders by then,
but it has written nothing.
-/

namespace ModText

namespace Write

variable {m : Mod} {faults : Nat → Option (Workspace × Failure)} {w v w' : Workspace} {c : Location}
  {f : Failure} {step : Write} {steps done : List Write}

/-! ## Steps in a row -/

/-- Steps that are performed one after the other, none of which fails. -/
inductive Completes (m : Mod) : Workspace → List Write → Workspace → Prop
  | nil {w : Workspace} : Completes m w [] w
  | cons {w v w' : Workspace} {step : Write} {rest : List Write} :
      step.perform m w = (v, none) → Completes m v rest w' → Completes m w (step :: rest) w'

theorem performAll_eq_none_iff : performAll m w steps = (w', none) ↔ Completes m w steps w' := by
  constructor
  · intro h
    induction steps generalizing w with
    | nil =>
      obtain ⟨rfl, _⟩ := Prod.mk.inj h
      exact .nil
    | cons step rest ih =>
      obtain ⟨v, s, hperform, ⟨rfl, hrest⟩ | ⟨hsome, rfl, _⟩⟩ := performAll_cons h
      · exact .cons hperform (ih hrest)
      · cases hsome
  · intro h
    induction h with
    | nil => rfl
    | cons hperform _ ih => rw [performAll, hperform]; exact ih

/-- What goes wrong from outside: whether a step fails, told from the number of steps in front of it, and
how it then leaves the disk and why. -/
abbrev Faults := Nat → Option (Workspace × Failure)

/-- Performs steps up to the first that fails, on the disk as it is or from outside. -/
def performUnder (m : Mod) : Faults → Workspace → List Write → Workspace × Option Failure
  | _, w, [] => (w, none)
  | faults, w, step :: rest =>
    match faults 0 with
    | some (v, f) => (v, some f)
    | none =>
      match step.perform m w with
      | (v, none) => performUnder m (fun n => faults (n + 1)) v rest
      | (v, some f) => (v, some f)

theorem performUnder_of_none (hnone : ∀ n, faults n = none) (w : Workspace) (steps : List Write) :
    performUnder m faults w steps = performAll m w steps := by
  induction steps generalizing faults w with
  | nil => rfl
  | cons step rest ih =>
    rcases hperform : step.perform m w with ⟨v, _ | f⟩
    · simp only [performUnder, performAll, hnone 0, hperform]
      exact ih (fun n => hnone (n + 1)) v
    · simp only [performUnder, performAll, hnone 0, hperform]

/-- A step fails: from outside if there is a fault, and otherwise on the disk as it is. -/
def Fails (m : Mod) (fault : Option (Workspace × Failure)) (v : Workspace) (step : Write)
    (w' : Workspace) (f : Failure) : Prop :=
  fault = some (w', f) ∨ fault = none ∧ step.perform m v = (w', some f)

/-- **A failure is that of one step, after all steps in front of it have been completed.** -/
theorem performUnder_eq_some_iff : performUnder m faults w steps = (w', some f) ↔
    ∃ done step rest v, steps = done ++ step :: rest ∧ (∀ n < done.length, faults n = none) ∧
      Completes m w done v ∧ Fails m (faults done.length) v step w' f := by
  constructor
  · intro h
    induction steps generalizing faults w with
    | nil => cases h
    | cons step rest ih =>
      rw [performUnder] at h
      split at h
      · rename_i hfault
        obtain ⟨rfl, hf⟩ := Prod.mk.inj h
        obtain rfl := Option.some.inj hf
        exact ⟨[], step, rest, w, rfl, fun n hn => absurd hn (Nat.not_lt_zero n), .nil, .inl hfault⟩
      · rename_i hquiet
        split at h
        · rename_i v hperform
          obtain ⟨done, failed, behind, x, rfl, hspared, hdone, hfailed⟩ := ih h
          refine ⟨step :: done, failed, behind, x, rfl, ?_, .cons hperform hdone, hfailed⟩
          intro n hn
          cases n with
          | zero => exact hquiet
          | succ n => exact hspared n (Nat.lt_of_succ_lt_succ hn)
        · rename_i hperform
          obtain ⟨rfl, hf⟩ := Prod.mk.inj h
          obtain rfl := Option.some.inj hf
          exact ⟨[], step, rest, w, rfl, fun n hn => absurd hn (Nat.not_lt_zero n), .nil,
            .inr ⟨hquiet, hperform⟩⟩
  · rintro ⟨done, step, rest, v, rfl, hspared, hdone, hfailed⟩
    induction hdone generalizing faults with
    | nil =>
      rw [List.nil_append, performUnder]
      rcases hfailed with hfault | ⟨hquiet, hperform⟩
      · rw [List.length_nil] at hfault
        rw [hfault]
      · rw [List.length_nil] at hquiet
        rw [hquiet]
        simp only
        rw [hperform]
    | cons hperform _ ih =>
      rw [List.cons_append, performUnder, hspared 0 (Nat.succ_pos _)]
      simp only
      rw [hperform]
      exact ih (fun n hn => hspared (n + 1) (Nat.succ_lt_succ hn)) hfailed

/-- Everything in front of a point has been completed, or nothing behind it has been tried. -/
def Respects (before done : List Write) (step : Write) : Prop :=
  before <+: done ∨ done ++ [step] <+: before

theorem respects_of_append {before after rest : List Write}
    (h : before ++ after = done ++ step :: rest) : Respects before done step := by
  have hbefore : before <+: done ++ step :: rest := h ▸ List.prefix_append before after
  have htried : done ++ [step] <+: done ++ step :: rest :=
    (List.prefix_append_right_inj done).2 (by simp)
  rcases List.prefix_or_prefix_of_prefix hbefore htried with hin | hin
  · rcases List.prefix_concat_iff.1 hin with rfl | hin
    · exact Or.inr List.prefix_rfl
    · exact Or.inl hin
  · exact Or.inr hin

/-! ## What completed steps leave -/

/-- What clearing a folder leaves: all that there was if nothing is at its path, and otherwise nothing of
the folder. Only if the path goes down into something below the folder does the folder itself stay. -/
structure Cleared (c : Location) (w : Workspace) (folder : Path) (v : Workspace) : Prop where
  cwd : v.cwd.Of c
  idle : w.node? folder = none → v = w
  node? : w.node? folder ≠ none → ∀ l, v.tree.node? l =
    if folder.target c <+: l then if l = folder.target c ∧ folder.PassesBelow c then some .folder else none
    else w.tree.node? l

theorem cleared_of_clearFolder (hcwd : w.cwd.Of c) {folder : Path}
    (h : clearFolder w folder = (v, none)) : Cleared c w folder v := by
  refine ⟨(clearFolder_spec hcwd h).1, fun hnone => ?_, fun hsome => ?_⟩
  · have hfree : w.holds folder = false := by rw [Workspace.holds, hnone, Option.isSome_none]
    rw [clearFolder, hfree] at h
    exact (Prod.mk.inj h).1.symm
  · rcases clearFolder_cases h with ⟨hfree, _⟩ | hremove
    · rw [Workspace.holds, Option.isSome_eq_false_iff, Option.isNone_iff_eq_none] at hfree
      exact absurd hfree hsome
    · exact Workspace.node?_of_removeFolder hcwd hremove

/-- What completed steps that remove nothing leave. -/
structure Added (m : Mod) (c : Location) (w : Workspace) (steps : List Write) (v : Workspace) :
    Prop where
  /-- Nothing is new but folders on the way of a step and files that were written. -/
  grows : w.Grows (Enter c steps) (Leave m c (fun _ => True) steps) v
  /-- A file is as the last step for it has written it. -/
  file : ∀ front s back, steps = front ++ s :: back → ∀ l, s.WritesAt c l →
    (∀ r ∈ back, ¬ r.WritesAt c l) → ∃ u content, Completes m w front u ∧
      s.content? m u = some content ∧ v.tree.node? l = some (.file content)
  /-- The folders on the way of a step are there. -/
  folder : ∀ s ∈ steps, ∀ l ∈ s.entered c, ¬ s.WritesAt c l → v.tree.node? l = some .folder

theorem added_of_completes (hcwd : w.cwd.Of c) (hadd : ∀ s ∈ steps, s.removes = false)
    (h : Completes m w steps v) : Added m c w steps v := by
  have hperform := performAll_eq_none_iff.2 h
  refine ⟨performAll_adds hcwd hadd hperform, ?_, ?_⟩
  · intro front s back hsplit l hwrites hlast
    rw [hsplit] at hadd hperform
    obtain ⟨u, content, hfront, hcontent, hnode⟩ := performAll_last hcwd hadd hperform hwrites hlast
    exact ⟨u, content, performAll_eq_none_iff.1 hfront, hcontent, hnode⟩
  · intro s hs
    exact (performAll_nodes (I := fun _ => True) hcwd trivial hadd (fun _ _ _ _ _ => trivial) hperform
      hs).2

/-! ## What a failing step leaves -/

theorem put_of_failure (hcwd : w.cwd.Of c) {file : Path} {content : ByteArray}
    (h : put w file content = (w', some f)) : w.GrowsFolders (file.entered c) w' := by
  have hparent := createParent_grows hcwd file
  rw [put] at h
  split at h
  · rename_i hcreate
    rw [hcreate] at hparent
    exact (Prod.mk.inj h).1 ▸ hparent
  · rename_i hcreate
    rw [hcreate] at hparent
    split at h
    · cases h
    · exact (Prod.mk.inj h).1 ▸ hparent

/-- A step that fails on the disk as it is has written nothing, and all that it has created are folders
on its way. -/
theorem perform_of_failure (hcwd : w.cwd.Of c) (hstep : step.removes = false)
    (h : step.perform m w = (w', some f)) : w.GrowsFolders (step.entered c) w' := by
  cases step with
  | clear folder => cases hstep
  | create folder => exact (createFolder_spec hcwd h).1
  | save file text => exact put_of_failure hcwd h
  | copy resource file =>
    rw [perform] at h
    split at h
    · exact put_of_failure hcwd h
    · exact (Prod.mk.inj h).1 ▸ .refl w

end Write

/-- The selected categories, in their fixed order. -/
def DumpOptions.selected (o : DumpOptions) : List Category :=
  [.items, .npcs, .buffs, .misc, .tiles, .customs].filter (· ∈ o.categories)

theorem DumpOptions.selected_eq (o : DumpOptions) : o.selected = Category.select o.categories := by
  simp only [selected, Category.select, Category.all, List.contains_eq_mem]

namespace Mod

variable {m : Mod} {faults : Write.Faults} {w v w' : Workspace} {o : DumpOptions} {done : List Write}
  {step : Write} {f : Failure}

/-! ## The sequence of a dump -/

/-- What a dump does before it comes to the texts. -/
def opening (m : Mod) (o : DumpOptions) (properties : Properties) : List Write :=
  let root := o.outputRoot.join m.name
  let identity := ModIdentity.ofProperties m.name properties
  .clear root :: (o.selected.map fun k => .create (root.join k.folder)) ++
    [.save (root.join "Info.json") (properties.toJson.toPretty ++ "\n"),
      .save (root.join "Mod.json") (identity.toJson.toPretty ++ "\n")]

/-- The files of a category: one for each namespace, in the order in which the namespaces are first met,
and none if a record has no namespace. -/
def categoryTexts (folder : Path) (records : List Record) : List Write :=
  if ∃ r ∈ records, namespaceOf r = "" then []
  else (namespacesOf records).map fun n =>
    let group := Json.ofList Record.toJson (records.filter (namespaceOf · = n))
    .save (folder.join (n ++ ".json")) (group.toPretty ++ "\n")

/-- The files of these categories, one category after the other. -/
def texts (m : Mod) (o : DumpOptions) (marked : Module) (categories : List Category) :
    List Write :=
  categories.flatMap fun k =>
    categoryTexts ((o.outputRoot.join m.name).join k.folder) ((marked.extract o.selected).records k)

/-- The copies of the resources, in the order of the list. -/
def resourceCopies (m : Mod) (o : DumpOptions) (resources : List String) : List Write :=
  (if o.copyResources then resources else []).map fun file =>
    .copy file ((o.outputRoot.join m.name).join file)

theorem texts_append (m : Mod) (o : DumpOptions) (marked : Module)
    (earlier later : List Category) :
    m.texts o marked (earlier ++ later) = m.texts o marked earlier ++ m.texts o marked later :=
  List.flatMap_append

theorem categoryWrites_eq (l : Layout) (e : Extraction) (k : Category) :
    l.categoryWrites e k = categoryTexts (l.root.join k.folder) (e.records k) := by
  rw [Layout.categoryWrites, Extraction.groups, categoryTexts]
  by_cases hnamed : ∀ r ∈ e.records k, namespaceOf r ≠ ""
  · have hgroups := groupByNamespace_eq_ok.2 ⟨hnamed, rfl⟩
    rw [hgroups, if_neg (by simpa using hnamed)]
    exact List.map_map
  · rw [if_pos (by simpa using hnamed)]
    split
    · rename_i hgroups
      exact absurd (groupByNamespace_eq_ok.1 hgroups).1 hnamed
    · rfl

namespace Prepared

/-- All that a dump does, in its order: it clears the output folder, creates the folders of the
categories, writes `Info.json` and `Mod.json` and the texts of one category after the other, and copies
the resources. -/
def sequence (d : Prepared m w o) : List Write :=
  m.opening o d.properties ++ m.texts o d.marked o.selected ++ m.resourceCopies o d.resources

theorem sequence_eq (d : Prepared m w o) :
    d.sequence = .clear (Layout.ofMod o.outputRoot m.name).root :: d.steps := by
  have htexts : (Layout.ofMod o.outputRoot m.name).categoryWrites (extracted o d.marked) = fun k =>
      categoryTexts ((o.outputRoot.join m.name).join k.folder)
        ((d.marked.extract (Category.select o.categories)).records k) :=
    funext (categoryWrites_eq _ _)
  simp only [sequence, opening, texts, resourceCopies, steps, generated, copies, o.selected_eq, htexts,
    List.cons_append, List.append_assoc]
  rfl

theorem resources_sublist (d : Prepared m w o) : d.resources.Sublist m.resources := by
  have houtside := d.outside
  rw [resourcesOutside] at houtside
  split at houtside
  · exact Except.ok.inj houtside ▸ .refl _
  · split at houtside
    · cases houtside
    · split at houtside
      · cases houtside
      · exact Except.ok.inj houtside ▸ List.filter_sublist

/-- How a dump stops: the steps that it has completed, the first of its sequence, the disk `v` that they
leave, and the step behind them, which fails. -/
structure StopsAt (d : Prepared m w o) (faults : Write.Faults) (done : List Write) (step : Write)
    (v w' : Workspace) (f : Failure) : Prop where
  sequence : ∃ rest, d.sequence = done ++ step :: rest
  spared : ∀ n < done.length, faults n = none
  completed : Write.Completes m w done v
  fails : Write.Fails m (faults done.length) v step w' f

namespace StopsAt

variable {d : Prepared m w o} (h : d.StopsAt faults done step v w' f)

include h

/-- The texts of a category are not begun before those of the categories in front of it are
completed, nor the resources before all texts are. -/
theorem respects {earlier later : List Category} (hselect : o.selected = earlier ++ later) :
    Write.Respects (m.opening o d.properties ++ m.texts o d.marked earlier) done step := by
  obtain ⟨rest, hsequence⟩ := h.sequence
  have hsplit : (m.opening o d.properties ++ m.texts o d.marked earlier) ++
      (m.texts o d.marked later ++ m.resourceCopies o d.resources) = done ++ step :: rest := by
    rw [← hsequence, Prepared.sequence, hselect, texts_append]
    simp only [List.append_assoc]
  exact Write.respects_of_append hsplit

theorem removes_of_mem {behind : List Write}
    (hdone : done = .clear (o.outputRoot.join m.name) :: behind) :
    ∀ s ∈ behind ++ [step], s.removes = false := by
  obtain ⟨rest, hsequence⟩ := h.sequence
  rw [sequence_eq, hdone, List.cons_append] at hsequence
  have hsteps := (List.cons.inj hsequence).2
  intro s hs
  apply d.removes_of_mem_steps
  rw [hsteps, List.append_cons]
  exact List.mem_append_left _ hs

/-- What is known of the disk at that point: nothing has changed before the first step, and behind it are
what clearing has left and what the other steps have added to that. -/
theorem reaches {c : Location} (hcwd : w.cwd.Of c) :
    (done = [] → v = w) ∧ ∀ behind, done = .clear (o.outputRoot.join m.name) :: behind →
      ∃ u, Write.Cleared c w (o.outputRoot.join m.name) u ∧ Write.Added m c u behind v := by
  refine ⟨?_, ?_⟩
  · rintro rfl
    cases h.completed
    rfl
  · rintro behind rfl
    cases h.completed with
    | @cons _ u _ _ _ hclear hbehind =>
      have hcleared := Write.cleared_of_clearFolder hcwd hclear
      refine ⟨u, hcleared, Write.added_of_completes hcleared.cwd ?_ hbehind⟩
      exact fun s hs => h.removes_of_mem rfl s (List.mem_append_left _ hs)

theorem exists_behind (hne : done ≠ []) :
    ∃ behind, done = .clear (o.outputRoot.join m.name) :: behind := by
  obtain ⟨first, behind, rfl⟩ := List.exists_cons_of_ne_nil hne
  obtain ⟨rest, hsequence⟩ := h.sequence
  rw [sequence_eq, List.cons_append] at hsequence
  exact ⟨behind, congrArg (· :: behind) (List.cons.inj hsequence).1.symm⟩

/-- What the failing step has changed if nothing went wrong from outside. -/
theorem leaves {c : Location} (hcwd : w.cwd.Of c) (hquiet : faults done.length = none) :
    if done = [] then
      ∀ l, ¬ (o.outputRoot.join m.name).target c <+: l → w'.tree.node? l = v.tree.node? l
    else v.GrowsFolders (step.entered c) w' := by
  obtain ⟨hstart, hbehind⟩ := h.reaches hcwd
  have hperform : step.perform m v = (w', some f) := by
    rcases h.fails with hfault | ⟨_, hperform⟩
    · rw [hquiet] at hfault
      cases hfault
    · exact hperform
  split
  · rename_i hnil
    obtain ⟨rest, hsequence⟩ := h.sequence
    rw [sequence_eq, hnil, List.nil_append] at hsequence
    obtain rfl := hstart hnil
    rw [← (List.cons.inj hsequence).1] at hperform
    exact (Write.clearFolder_spec hcwd hperform).2.1
  · rename_i hne
    obtain ⟨behind, hdone⟩ := h.exists_behind hne
    obtain ⟨u, hcleared, hadded⟩ := hbehind behind hdone
    exact Write.perform_of_failure (hadded.grows.cwd ▸ hcleared.cwd)
      (h.removes_of_mem hdone step (by simp)) hperform

end StopsAt

end Prepared

/-- Dumps a mod where things go wrong from outside. -/
def dumpUnder (m : Mod) (faults : Write.Faults) (w : Workspace) (o : DumpOptions) :
    Workspace × Except Failure DumpSummary :=
  match m.plan w o with
  | .error f => (w, .error f)
  | .ok p =>
    if o.dryRun then (w, .ok p.summary)
    else
      match Write.performUnder m faults w p.writes with
      | (w, none) => (w, .ok p.summary)
      | (w, some f) => (w, .error f)

theorem dumpUnder_of_none (hnone : ∀ n, faults n = none) : m.dumpUnder faults w o = m.dump w o := by
  have hperform : Write.performUnder m faults = Write.performAll m :=
    funext fun w => funext (Write.performUnder_of_none hnone w)
  rw [dumpUnder, hperform]
  rfl

theorem dumpUnder_eq_error_iff : m.dumpUnder faults w o = (w', .error f) ↔
    (m.plan w o = .error f ∧ w' = w) ∨
      o.dryRun = false ∧ ∃ (d : Prepared m w o) (done : List Write) (step : Write) (v : Workspace),
        d.StopsAt faults done step v w' f := by
  constructor
  · intro h
    rw [dumpUnder] at h
    split at h
    · rename_i hplan
      cases h
      exact Or.inl ⟨hplan, rfl⟩
    · rename_i p hplan
      obtain ⟨d, hwrites⟩ := plan_eq_ok hplan
      split at h
      · cases h
      · rename_i hdry
        split at h
        · cases h
        · rename_i hperform
          cases h
          rw [hwrites, ← d.sequence_eq, Write.performUnder_eq_some_iff] at hperform
          obtain ⟨done, step, rest, v, hsequence, hspared, hdone, hfailed⟩ := hperform
          exact Or.inr ⟨by simpa using hdry, d, done, step, v, ⟨rest, hsequence⟩, hspared, hdone, hfailed⟩
  · rintro (⟨hplan, rfl⟩ | ⟨hdry, d, done, step, v, ⟨rest, hsequence⟩, hspared, hdone, hfailed⟩)
    · rw [dumpUnder, hplan]
    · have hperform :=
        Write.performUnder_eq_some_iff.2 ⟨done, step, rest, v, hsequence, hspared, hdone, hfailed⟩
      rw [d.sequence_eq] at hperform
      rw [dumpUnder, d.plan_eq]
      simp only [hdry, Bool.false_eq_true, if_false, hperform]

/-- A mod whose second resource would go below a file that is written before. -/
def blockedBundle : ModBundle where
  name := "Mod"
  code := some chattyCode
  resources := [("art", "a".toUTF8), ("Info.json/x", "b".toUTF8), ("late", "c".toUTF8)]

/-- A disk that is full when the fourth step is tried, and left as it was before all of them. -/
def fullDisk : Write.Faults := fun n =>
  if n = 3 then some (chattyWorkspace, .disk (.writing ⟨"out/Mod/Mod.json"⟩)) else none

end Mod

end ModText
