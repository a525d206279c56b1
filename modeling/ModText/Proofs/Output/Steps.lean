import ModText.Output.Write
import ModText.Proofs.Disk.Growth

/-!
# What the steps of writing change

Every step but clearing lets the workspace grow by the folders that its path goes down into and the
file at its end. From one step follows what any number of them do, with the first failure or
without: all that is new are such folders, and all that is written is the content of a step for that
place. If none of them fails, then all of it is there in the end.

What a step copies is read when its turn comes. So the contents are told with a property `I` that
the steps before do not break.
-/

namespace ModText

namespace Write

/-- The file that a step writes. -/
def file? : Write → Option Path
  | save file _ => some file
  | copy _ file => some file
  | _ => none

/-- Whether a step writes at a place. -/
def WritesAt (c : Location) (step : Write) (l : Location) : Prop :=
  ∃ file, step.file? = some file ∧ file.target c = l

/-- What a step writes. -/
def content? (m : Mod) (w : Workspace) : Write → Option ByteArray
  | save _ text => some text.toUTF8
  | copy resource _ => (m.read resource w).toOption
  | _ => none

/-- The places that a step goes down into. -/
def entered (c : Location) : Write → List Location
  | clear _ => []
  | create folder => folder.entered c
  | save file _ => file.entered c
  | copy _ file => file.entered c

/-- The path of a step. -/
def path : Write → Path
  | clear folder => folder
  | create folder => folder
  | save file _ => file
  | copy _ file => file

/-- Whether a step is there to remove something. -/
def removes : Write → Bool
  | clear _ => true
  | _ => false

variable {m : Mod} {w w' : Workspace} {c : Location} {r : Option Failure}

theorem path_document (file : Path) (j : Json) : (document file j).path = file :=
  rfl

theorem content?_document (file : Path) (j : Json) :
    (document file j).content? m w = some (j.toPretty ++ "\n").toUTF8 :=
  rfl

theorem WritesAt.target {step : Write} {l : Location} (h : step.WritesAt c l) :
    step.path.target c = l := by
  obtain ⟨file, hfile, htarget⟩ := h
  cases step with
  | clear => cases hfile
  | create => cases hfile
  | save => rwa [← Option.some.inj hfile] at htarget
  | copy => rwa [← Option.some.inj hfile] at htarget

theorem writesAt_iff {step : Write} {file : Path} (h : step.file? = some file) {l : Location} :
    step.WritesAt c l ↔ file.target c = l := by
  simp [WritesAt, h]

theorem mem_entered_path {step : Write} {l : Location} (h : l ∈ step.entered c) :
    l ∈ step.path.entered c := by
  cases step with
  | clear => cases h
  | create => exact h
  | save => exact h
  | copy => exact h

/-! ## Single steps -/

theorem createFolder_spec (hcwd : w.cwd.Of c) {folder : Path}
    (h : createFolder w folder = (w', r)) :
    w.GrowsFolders (folder.entered c) w' ∧
      (r = none → ∀ l ∈ folder.entered c, w'.tree.node? l = some .folder) := by
  rw [createFolder] at h
  split at h
  · rename_i hmake
    obtain ⟨rfl, rfl⟩ := Prod.mk.inj h
    obtain ⟨hgrows, hfolders⟩ := Workspace.makeFolders_spec hcwd hmake
    exact ⟨hgrows, fun _ => hfolders rfl⟩
  · rename_i hmake
    obtain ⟨rfl, rfl⟩ := Prod.mk.inj h
    exact ⟨(Workspace.makeFolders_spec hcwd hmake).1, fun h => nomatch h⟩

theorem createParent_grows (hcwd : w.cwd.Of c) (file : Path) :
    w.GrowsFolders (file.entered c) (createParent w file).1 := by
  rw [createParent]
  split
  · rename_i folder hparent
    refine (createFolder_spec hcwd rfl).1.mono (fun l hl => ?_) fun _ _ => id
    -- a path that ends by going up enters no more than its parent does
    rcases Path.entered_of_parent?_eq_some hparent c with heq | heq
    · rwa [heq]
    · rw [heq]
      exact List.mem_append_left _ hl
  · exact .refl w

theorem put_spec (hcwd : w.cwd.Of c) {file : Path} {content : ByteArray}
    (h : put w file content = (w', r)) :
    w.Grows (· ∈ file.entered c) (fun l written => l = file.target c ∧ written = content) w' ∧
      (r = none → (∃ v parent name, w.GrowsFolders (file.entered c) v ∧
          v.IsSite c file parent name ∧
            v.Grows (fun _ => False) (fun l written => l = file.target c ∧ written = content) w') ∧
        file.target c ∈ file.entered c ∧ ∀ l ∈ file.entered c,
          w'.tree.node? l = if l = file.target c then some (.file content) else some .folder) := by
  have hparent := createParent_grows hcwd file
  have hfolders : w.Grows (· ∈ file.entered c)
      (fun l written => l = file.target c ∧ written = content) (createParent w file).1 :=
    hparent.mono (fun _ => id) fun _ _ h => h.elim
  rw [put] at h
  split at h
  · rename_i hcreate
    rw [hcreate] at hfolders
    obtain ⟨rfl, rfl⟩ := Prod.mk.inj h
    exact ⟨hfolders, fun h => nomatch h⟩
  · rename_i hcreate
    rw [hcreate] at hparent hfolders
    split at h
    · rename_i hwrite
      obtain ⟨rfl, rfl⟩ := Prod.mk.inj h
      obtain ⟨⟨parent, name, site⟩, hmem, hfile, hnodes⟩ :=
        Workspace.write?_eq_some (Workspace.base_of (hparent.cwd ▸ hcwd) file) hwrite
      exact ⟨hfolders.trans (hfile.mono (fun _ h => h.elim) fun _ _ => id),
        fun _ => ⟨⟨_, parent, name, hparent, site, hfile⟩, hmem, hnodes⟩⟩
    · obtain ⟨rfl, rfl⟩ := Prod.mk.inj h
      exact ⟨hfolders, fun h => nomatch h⟩

/-- A step that puts its content into its file. -/
theorem perform_spec_of_put (hcwd : w.cwd.Of c) {step : Write} {file : Path} {content : ByteArray}
    (hfile : step.file? = some file) (hentered : step.entered c = file.entered c)
    (hcontent : step.content? m w = some content) (h : put w file content = (w', r)) :
    w.Grows (· ∈ step.entered c)
        (fun l content => step.WritesAt c l ∧ step.content? m w = some content) w' ∧
      (r = none →
        (∀ l, step.WritesAt c l →
          ∃ content, step.content? m w = some content ∧ w'.tree.node? l = some (.file content)) ∧
        ∀ l ∈ step.entered c, ¬ step.WritesAt c l → w'.tree.node? l = some .folder) := by
  obtain ⟨hgrows, hnodes⟩ := put_spec hcwd h
  constructor
  · apply hgrows.mono (fun l hl => hentered ▸ hl)
    intro l written hl
    rw [writesAt_iff hfile, hcontent, hl.1, hl.2]
    exact ⟨rfl, rfl⟩
  · intro hr
    obtain ⟨_, hmem, hnodes⟩ := hnodes hr
    constructor
    · intro l hl
      rw [writesAt_iff hfile] at hl
      exact ⟨content, hcontent, by rw [← hl, hnodes _ hmem, if_pos rfl]⟩
    · intro l hl hnot
      rw [writesAt_iff hfile] at hnot
      rw [hnodes l (hentered ▸ hl), if_neg (Ne.symm hnot)]

/-- A step that removes nothing lets the workspace grow, and if it succeeds, then its file is there
and all that it went down into are folders. -/
theorem perform_spec (hcwd : w.cwd.Of c) {step : Write} (hstep : step.removes = false)
    (h : step.perform m w = (w', r)) :
    w.Grows (· ∈ step.entered c)
        (fun l content => step.WritesAt c l ∧ step.content? m w = some content) w' ∧
      (r = none →
        (∀ l, step.WritesAt c l →
          ∃ content, step.content? m w = some content ∧ w'.tree.node? l = some (.file content)) ∧
        ∀ l ∈ step.entered c, ¬ step.WritesAt c l → w'.tree.node? l = some .folder) := by
  cases step with
  | clear folder => cases hstep
  | create folder =>
    obtain ⟨hgrows, hfolders⟩ := createFolder_spec hcwd h
    refine ⟨hgrows.mono (fun _ => id) fun _ _ h => h.elim, fun hr => ⟨?_, ?_⟩⟩
    · rintro l ⟨file, hfile, _⟩
      cases hfile
    · exact fun l hl _ => hfolders hr l hl
  | save file text => exact perform_spec_of_put hcwd rfl rfl rfl h
  | copy resource file =>
    rw [perform] at h
    split at h
    · rename_i content hread
      have hcontent : (copy resource file).content? m w = some content := by
        rw [content?, hread]
        rfl
      exact perform_spec_of_put hcwd rfl rfl hcontent h
    · obtain ⟨rfl, rfl⟩ := Prod.mk.inj h
      exact ⟨.refl w, fun h => nomatch h⟩

/-- Clearing changes nothing but what is at the place of the folder or below. If it succeeds, then
nothing is left below a folder that was there. -/
theorem clearFolder_spec (hcwd : w.cwd.Of c) {folder : Path}
    (h : clearFolder w folder = (w', r)) :
    w'.cwd.Of c ∧
      (∀ l, ¬ folder.target c <+: l → w'.tree.node? l = w.tree.node? l) ∧
      (r = none → w.holds folder = false ∧ w' = w ∨
        ∀ l, folder.target c <+: l → l ≠ folder.target c → w'.tree.node? l = none) := by
  rw [clearFolder] at h
  split at h
  · split at h
    · rename_i hremove
      obtain ⟨rfl, rfl⟩ := Prod.mk.inj h
      obtain ⟨hcwd', hframe, hgone⟩ := Workspace.removeFolder_spec hcwd hremove
      exact ⟨hcwd', hframe, fun _ => Or.inr (hgone rfl)⟩
    · rename_i hremove
      obtain ⟨rfl, rfl⟩ := Prod.mk.inj h
      obtain ⟨hcwd', hframe, _⟩ := Workspace.removeFolder_spec hcwd hremove
      exact ⟨hcwd', hframe, fun h => nomatch h⟩
  · rename_i hholds
    obtain ⟨rfl, rfl⟩ := Prod.mk.inj h
    exact ⟨hcwd, fun _ _ => rfl, fun _ => Or.inl ⟨by simpa using hholds, rfl⟩⟩

theorem clearFolder_cases {folder : Path} (h : clearFolder w folder = (w', none)) :
    w.holds folder = false ∧ w' = w ∨ w.removeFolder folder = (w', true) := by
  rw [clearFolder] at h
  split at h
  · split at h
    · rename_i hremove
      obtain ⟨rfl, _⟩ := Prod.mk.inj h
      exact Or.inr hremove
    · cases h
  · rename_i hholds
    obtain ⟨rfl, _⟩ := Prod.mk.inj h
    exact Or.inl ⟨by simpa using hholds, rfl⟩

/-- What is no folder stays as it is unless it lies below the folder that is cleared. -/
theorem node?_of_clearFolder (hcwd : w.cwd.Of c) {folder : Path}
    (h : clearFolder w folder = (w', none)) {l : Location}
    (hbelow : folder.target c <+: l → folder.target c = l) (hl : w.tree.node? l ≠ some .folder) :
    w'.tree.node? l = w.tree.node? l := by
  by_cases hin : folder.target c <+: l
  · rcases clearFolder_cases h with ⟨_, rfl⟩ | hremove
    · rfl
    · exact absurd (hbelow hin ▸ Workspace.folder_of_removeFolder hcwd hremove) hl
  · exact (clearFolder_spec hcwd h).2.1 l hin

theorem clearFolder_isGrounded (hcwd : w.cwd.Of c) (hground : w.IsGrounded) {folder : Path}
    (h : clearFolder w folder = (w', r)) : w'.IsGrounded := by
  rw [clearFolder] at h
  have hremoved := Workspace.removeFolder_isGrounded hcwd hground folder
  split at h
  · split at h
    · rename_i hremove
      obtain ⟨rfl, rfl⟩ := Prod.mk.inj h
      rwa [hremove] at hremoved
    · rename_i hremove
      obtain ⟨rfl, rfl⟩ := Prod.mk.inj h
      rwa [hremove] at hremoved
  · obtain ⟨rfl, rfl⟩ := Prod.mk.inj h
    exact hground

/-! ## Many steps -/

/-- Whether one of these steps goes down into a place. -/
def Enter (c : Location) (steps : List Write) (l : Location) : Prop :=
  ∃ step ∈ steps, l ∈ step.entered c

/-- Whether one of these steps writes this content at a place, in some workspace with `I`. -/
def Leave (m : Mod) (c : Location) (I : Workspace → Prop) (steps : List Write) (l : Location)
    (content : ByteArray) : Prop :=
  ∃ step ∈ steps, step.WritesAt c l ∧ ∃ w, I w ∧ step.content? m w = some content

variable {I : Workspace → Prop} {steps : List Write}

theorem performAll_cons {step : Write} {rest : List Write}
    (h : performAll m w (step :: rest) = (w', r)) :
    ∃ v s, step.perform m w = (v, s) ∧
      (s = none ∧ performAll m v rest = (w', r) ∨ s.isSome ∧ r = s ∧ w' = v) := by
  rw [performAll] at h
  split at h
  · rename_i v hperform
    exact ⟨v, none, hperform, Or.inl ⟨rfl, h⟩⟩
  · rename_i v f hperform
    obtain ⟨rfl, rfl⟩ := Prod.mk.inj h
    exact ⟨v, some f, hperform, Or.inr ⟨rfl, rfl, rfl⟩⟩

theorem performAll_append {front back : List Write}
    (h : performAll m w (front ++ back) = (w', none)) :
    ∃ v, performAll m w front = (v, none) ∧ performAll m v back = (w', none) := by
  induction front generalizing w with
  | nil => exact ⟨w, rfl, h⟩
  | cons step front ih =>
    obtain ⟨v, s, hperform, ⟨rfl, hrest⟩ | ⟨hsome, rfl, _⟩⟩ := performAll_cons h
    · obtain ⟨u, hfront, hback⟩ := ih hrest
      exact ⟨u, by rw [performAll, hperform]; exact hfront, hback⟩
    · cases hsome

theorem performAll_grows (hcwd : w.cwd.Of c) (hw : I w)
    (hadd : ∀ step ∈ steps, step.removes = false)
    (hI : ∀ step ∈ steps, ∀ v, v.cwd.Of c → I v → I (step.perform m v).1)
    (h : performAll m w steps = (w', r)) :
    w.Grows (Enter c steps) (Leave m c I steps) w' ∧ I w' := by
  induction steps generalizing w with
  | nil =>
    obtain ⟨rfl, _⟩ := Prod.mk.inj h
    exact ⟨.refl w, hw⟩
  | cons step rest ih =>
    obtain ⟨v, s, hperform, hrest⟩ := performAll_cons h
    have hstep : w.Grows (Enter c (step :: rest)) (Leave m c I (step :: rest)) v :=
      (perform_spec hcwd (hadd step List.mem_cons_self) hperform).1.mono
        (fun l hl => ⟨step, List.mem_cons_self, hl⟩)
        fun l content hl => ⟨step, List.mem_cons_self, hl.1, w, hw, hl.2⟩
    have hv := hI step List.mem_cons_self w hcwd hw
    rw [hperform] at hv
    rcases hrest with ⟨_, hrest⟩ | ⟨_, _, rfl⟩
    · obtain ⟨hgrows, hw'⟩ := ih (hstep.cwd ▸ hcwd) hv
        (fun r hr => hadd r (List.mem_cons_of_mem step hr))
        (fun r hr => hI r (List.mem_cons_of_mem step hr)) hrest
      refine ⟨hstep.trans (hgrows.mono ?_ ?_), hw'⟩
      · rintro l ⟨r, hr, hl⟩
        exact ⟨r, List.mem_cons_of_mem step hr, hl⟩
      · rintro l content ⟨r, hr, hl⟩
        exact ⟨r, List.mem_cons_of_mem step hr, hl⟩
    · exact ⟨hstep, hv⟩

/-- Steps that remove nothing add to a disk, and no more. -/
theorem performAll_adds (hcwd : w.cwd.Of c) (hadd : ∀ step ∈ steps, step.removes = false)
    (h : performAll m w steps = (w', r)) :
    w.Grows (Enter c steps) (Leave m c (fun _ => True) steps) w' :=
  (performAll_grows hcwd trivial hadd (fun _ _ _ _ _ => trivial) h).1

/-- A step among steps of which none failed has been performed in its turn. -/
theorem performAll_mem {step : Write} (hstep : step ∈ steps)
    (h : performAll m w steps = (w', none)) :
    ∃ front back u v, steps = front ++ step :: back ∧ performAll m w front = (u, none) ∧
      step.perform m u = (v, none) ∧ performAll m v back = (w', none) := by
  obtain ⟨front, back, rfl⟩ := List.append_of_mem hstep
  obtain ⟨u, hfront, hback⟩ := performAll_append h
  obtain ⟨v, s, hperform, ⟨rfl, hrest⟩ | ⟨hsome, rfl, _⟩⟩ := performAll_cons hback
  · exact ⟨front, back, u, v, rfl, hfront, hperform, hrest⟩
  · cases hsome

/-- After steps of which none failed, every file is there and all that they went down into are
folders. -/
theorem performAll_nodes (hcwd : w.cwd.Of c) (hw : I w)
    (hadd : ∀ step ∈ steps, step.removes = false)
    (hI : ∀ step ∈ steps, ∀ v, v.cwd.Of c → I v → I (step.perform m v).1)
    (h : performAll m w steps = (w', none)) {step : Write} (hstep : step ∈ steps) :
    (∀ l, step.WritesAt c l →
      ∃ content, Leave m c I steps l content ∧ w'.tree.node? l = some (.file content)) ∧
      ∀ l ∈ step.entered c, ¬ step.WritesAt c l → w'.tree.node? l = some .folder := by
  obtain ⟨front, back, u, v, rfl, hfront, hperform, hback⟩ := performAll_mem hstep h
  obtain ⟨hu, hIu⟩ := performAll_grows hcwd hw (fun r hr => hadd r (List.mem_append_left _ hr))
    (fun r hr => hI r (List.mem_append_left _ hr)) hfront
  have hucwd := hu.cwd ▸ hcwd
  obtain ⟨hv, hnodes⟩ := perform_spec hucwd (hadd step hstep) hperform
  have hIv := hI step hstep u hucwd hIu
  rw [hperform] at hIv
  obtain ⟨hw', _⟩ := performAll_grows (hv.cwd ▸ hucwd) hIv
    (fun r hr => hadd r (List.mem_append_right _ (List.mem_cons_of_mem step hr)))
    (fun r hr => hI r (List.mem_append_right _ (List.mem_cons_of_mem step hr))) hback
  obtain ⟨hfile, hfolder⟩ := hnodes rfl
  refine ⟨fun l hl => ?_, fun l hl hnot => hw'.folder (hfolder l hl hnot)⟩
  obtain ⟨content, hcontent, hnode⟩ := hfile l hl
  -- a later step may write the file again, but nothing turns it into a folder
  rcases hw'.file hnode with hkept | ⟨again, ⟨r, hr, hl'⟩, hnode'⟩
  · exact ⟨content, ⟨step, hstep, hl, u, hIu, hcontent⟩, hkept⟩
  · exact ⟨again, ⟨r, List.mem_append_right _ (List.mem_cons_of_mem step hr), hl'⟩, hnode'⟩

/-- After steps of which none failed, a file is as the last step for its place has left it. -/
theorem performAll_last (hcwd : w.cwd.Of c) {front back : List Write} {step : Write}
    (hadd : ∀ r ∈ front ++ step :: back, r.removes = false)
    (h : performAll m w (front ++ step :: back) = (w', none)) {l : Location}
    (hwrites : step.WritesAt c l) (hlast : ∀ r ∈ back, ¬ r.WritesAt c l) :
    ∃ u content, performAll m w front = (u, none) ∧ step.content? m u = some content ∧
      w'.tree.node? l = some (.file content) := by
  have hstep := hadd step (by simp)
  obtain ⟨u, hfront, hrest⟩ := performAll_append h
  obtain ⟨v, s, hperform, ⟨rfl, hback⟩ | ⟨hsome, rfl, _⟩⟩ := performAll_cons hrest
  · have hu := performAll_adds hcwd (fun r hr => hadd r (List.mem_append_left _ hr)) hfront
    obtain ⟨hv, hfile⟩ := perform_spec (hu.cwd ▸ hcwd) hstep hperform
    have hw' := performAll_adds (hv.cwd ▸ hu.cwd ▸ hcwd)
      (fun r hr => hadd r (List.mem_append_right _ (List.mem_cons_of_mem step hr))) hback
    obtain ⟨content, hcontent, hnode⟩ := (hfile rfl).1 l hwrites
    refine ⟨u, content, hfront, hcontent, ?_⟩
    rcases hw'.file hnode with hkept | ⟨_, ⟨r, hr, hwrites', _⟩, _⟩
    · exact hkept
    · exact absurd hwrites' (hlast r hr)
  · cases hsome

/-- When a document was written by steps of which none failed, there was a place for it, and since
then the workspace has only grown. -/
theorem exists_site_of_performAll (hcwd : w.cwd.Of c) (hground : w.IsGrounded)
    (hadd : ∀ step ∈ steps, step.removes = false) (h : performAll m w steps = (w', none))
    {file : Path} {j : Json} (hstep : document file j ∈ steps) :
    ∃ (v : Workspace) (parent : Location) (name : String), v.cwd.Of c ∧ v.IsGrounded ∧
      v.IsSite c file parent name ∧ v.Grows (fun _ => True) (fun _ _ => True) w' := by
  obtain ⟨front, back, u, x, rfl, hfront, hperform, hback⟩ := performAll_mem hstep h
  have hu := performAll_adds hcwd (fun r hr => hadd r (List.mem_append_left _ hr)) hfront
  rw [document, perform] at hperform
  obtain ⟨hput, hsite⟩ := put_spec (hu.cwd ▸ hcwd) hperform
  obtain ⟨⟨v, parent, name, hv, site, hx⟩, _⟩ := hsite rfl
  have hw' := performAll_adds (hput.cwd ▸ hu.cwd ▸ hcwd)
    (fun r hr => hadd r (List.mem_append_right _ (List.mem_cons_of_mem _ hr))) hback
  exact ⟨v, parent, name, hv.cwd ▸ hu.cwd ▸ hcwd, hv.isGrounded (hu.isGrounded hground), site,
    (hx.mono (fun _ _ => trivial) fun _ _ _ => trivial).trans
      (hw'.mono (fun _ _ => trivial) fun _ _ _ => trivial)⟩

/-- Where nothing was, there is a folder after steps of which none failed exactly if one of them went
down into it, and every file is as one of them left it. -/
theorem performAll_node_of_free (hcwd : w.cwd.Of c) (hw : I w)
    (hadd : ∀ step ∈ steps, step.removes = false)
    (hI : ∀ step ∈ steps, ∀ v, v.cwd.Of c → I v → I (step.perform m v).1)
    (h : performAll m w steps = (w', none)) {l : Location} (hfree : w.tree.node? l = none) :
    (w'.tree.node? l = some .folder ↔ ∃ step ∈ steps, l ∈ step.entered c ∧ ¬ step.WritesAt c l) ∧
      ∀ content, w'.tree.node? l = some (.file content) → Leave m c I steps l content := by
  have hnodes := fun step (hstep : step ∈ steps) => performAll_nodes hcwd hw hadd hI h hstep
  have hgrows := (performAll_grows hcwd hw hadd hI h).1.node? l
  rw [hfree] at hgrows
  refine ⟨⟨fun hfolder => ?_, fun ⟨step, hstep, hl, hnot⟩ => (hnodes step hstep).2 l hl hnot⟩,
    fun content hfile => ?_⟩
  · rcases hgrows with hnone | ⟨⟨step, hstep, hl⟩, _, _⟩ | ⟨_, _, _, hfile⟩
    · rw [hfolder] at hnone
      cases hnone
    · refine ⟨step, hstep, hl, fun hwrites => ?_⟩
      obtain ⟨_, _, hfile⟩ := (hnodes step hstep).1 l hwrites
      rw [hfolder] at hfile
      cases hfile
    · rw [hfolder] at hfile
      cases hfile
  · rcases hgrows with hnone | ⟨_, _, hfolder⟩ | ⟨_, written, hleave, hwritten⟩
    · rw [hfile] at hnone
      cases hnone
    · rw [hfile] at hfolder
      cases hfolder
    · rw [hfile] at hwritten
      cases hwritten
      exact hleave

end Write

end ModText
