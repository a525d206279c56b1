import ModText.Proofs.Output.Plan

/-!
# A dump spares the mod it reads

Writing begins with clearing the output folder, so it must not be the folder of the mod or one around
it. The check for this is made before anything is written, on the place that the path of the output
resolves to, and that is the place which clearing finds when its turn comes: both are where the text of
the path leads.

No other step of a dump removes anything, so the folder of the mod is there afterwards, whatever has
come of the dump.
-/

namespace ModText

namespace Mod

variable {w w' : Workspace} {o : DumpOptions} {m : ModFolder}

namespace Prepared

variable {d : Prepared m.toMod w o} {c out : Location}

/-- The output is not in the way of the mod. -/
theorem HasOutput.not_over (h : d.HasOutput c out) : ¬ out <+: m.location := by
  have houtside := d.outside
  have hlocation : m.toMod.location = some m.location := rfl
  have hresolve : w.resolve? (Layout.ofMod o.outputRoot m.toMod.name).root = some out := h.resolve
  rw [resourcesOutside, hlocation, hresolve] at houtside
  simp only at houtside
  split at houtside
  · cases houtside
  · rename_i hnot
    rwa [List.isPrefixOf_iff_prefix] at hnot

/-- Only the first step of a dump clears a folder. -/
theorem eq_root_of_clear (d : Prepared m.toMod w o) {front back : List Write} {folder : Path}
    (h : .clear (m.outputPath o) :: d.steps = front ++ .clear folder :: back) :
    front = [] ∧ folder = m.outputPath o := by
  cases front with
  | nil =>
    obtain ⟨hclear, _⟩ := List.cons.inj h
    exact ⟨rfl, (Write.clear.inj hclear).symm⟩
  | cons step front =>
    have hmem : .clear folder ∈ d.steps := by
      rw [(List.cons.inj h).2]
      exact List.mem_append_right _ List.mem_cons_self
    have hremoves := d.removes_of_mem_steps hmem
    cases hremoves

/-- The folder of the mod stays, with the first failure or without. -/
theorem HasOutput.folder_of_performAll (h : d.HasOutput c out) {f : Option Failure}
    (hperform : Write.performAll m.toMod w (.clear (m.outputPath o) :: d.steps) = (w', f)) :
    w'.tree.node? m.location = some .folder := by
  obtain ⟨v, s, hclear, hrest⟩ := Write.performAll_cons hperform
  obtain ⟨hcwd, hframe, _⟩ := h.clear hclear
  have hfolder : v.tree.node? m.location = some .folder := by
    rw [hframe _ h.not_over, h.opened.folder]
  rcases hrest with ⟨_, hrest⟩ | ⟨_, _, rfl⟩
  · have hgrows := Write.performAll_adds hcwd (fun step => d.removes_of_mem_steps) hrest
    exact hgrows.folder hfolder
  · exact hfolder

end Prepared

/-- A dump whose output would be in the way of the mod is refused, if it can be told where the output
would go. -/
theorem dump_of_over (hground : w.IsGrounded) {l : Location} (hover : l <+: m.location)
    (hl : w.locate (m.outputPath o) = .ok l ∨ (m.outputPath o).target w.cwd.place = l) :
    ∃ f, m.toMod.dump w o = (w, .error f) ∧
      (f = .refusal (.outputOverMod l m.location) ∨
        f = .disk (.resolvingOutput (m.outputPath o))) := by
  have houtside : ∃ f, m.toMod.resourcesOutside w (m.outputPath o) = .error f ∧
      (f = .refusal (.outputOverMod l m.location) ∨
        f = .disk (.resolvingOutput (m.outputPath o))) := by
    have hlocation : m.toMod.location = some m.location := rfl
    rw [resourcesOutside, hlocation]
    cases hresolve : w.resolve? (m.outputPath o) with
    | none => exact ⟨_, rfl, Or.inr rfl⟩
    | some out =>
      have hresolves := Workspace.resolves_of_resolve? hground hresolve
      have hout : out = l := by
        rw [hresolves.target]
        rcases hl with hlocate | htarget
        · exact (Workspace.locate_eq_ok (Workspace.base_of_removed_eq_zero hresolves.there)
            hlocate).symm
        · exact htarget
      rw [hout]
      simp only
      rw [if_pos (List.isPrefixOf_iff_prefix.2 hover)]
      exact ⟨_, rfl, Or.inl rfl⟩
  obtain ⟨f, hf, hkind⟩ := houtside
  refine ⟨f, ?_, hkind⟩
  have hplan : m.toMod.plan w o = .error f := by
    rw [plan]
    change (m.toMod.resourcesOutside w (m.outputPath o)).bind _ = _
    rw [hf]
    rfl
  rw [dump, hplan]

/-- **A dump never clears the mod it reads.** If the path of the output leads to the folder of the mod
or to one around it, be all of it there or not, then the dump fails and changes nothing. Whenever a
folder is cleared in a dump, it is neither the folder of the mod nor one around it, and these are as
they were before. And the folder of the mod is there after every dump. -/
theorem dump_spares_mod (hground : w.IsGrounded) {root : Path} {codeFile : String}
    {ignores : List String} (hopen : ModFolder.openAt w root codeFile ignores = .ok m) :
    (∀ l, l <+: m.location →
      (w.locate (m.outputPath o) = .ok l ∨ (m.outputPath o).target w.cwd.place = l) →
        ∃ f, m.toMod.dump w o = (w, .error f) ∧
          (f = .refusal (.outputOverMod l m.location) ∨
            f = .disk (.resolvingOutput (m.outputPath o)))) ∧
      (∀ p, m.toMod.plan w o = .ok p →
        ∀ front folder back v, p.writes = front ++ .clear folder :: back →
          Write.performAll m.toMod w front = (v, none) → ∀ l, l <+: m.location →
            v.locate folder ≠ .ok l ∧
              ((Write.clear folder).perform m.toMod v).1.tree.node? l = v.tree.node? l) ∧
      (m.toMod.dump w o).1.tree.node? m.location = some .folder := by
  have hopened := ModFolder.isOpened_of_openAt hopen
  refine ⟨fun l hover hl => dump_of_over hground hover hl, ?_, ?_⟩
  · intro p hplan front folder back v hwrites hperform l hover
    obtain ⟨d, hd⟩ := plan_eq_ok hplan
    obtain ⟨c, out, h⟩ := d.exists_hasOutput hground hopened
    obtain ⟨rfl, rfl⟩ := d.eq_root_of_clear (hd.symm.trans hwrites)
    obtain ⟨rfl, _⟩ := Prod.mk.inj hperform
    have hout : ¬ out <+: l := fun hin => h.not_over (hin.trans hover)
    constructor
    · intro hlocate
      rw [Workspace.locate_eq_ok (Workspace.base_of h.cwd _) hlocate, h.target] at hout
      exact hout List.prefix_rfl
    · exact (h.clear rfl).2.1 l hout
  · obtain ⟨w', r, hdump⟩ : ∃ w' r, m.toMod.dump w o = (w', r) := ⟨_, _, rfl⟩
    rw [hdump]
    rcases dump_cases hdump with ⟨rfl, _⟩ | ⟨_, d, f, hperform, _⟩
    · exact hopened.folder
    · obtain ⟨c, out, h⟩ := d.exists_hasOutput hground hopened
      exact h.folder_of_performAll hperform

/-! ### A mod and its surroundings as output -/

/-- A disk with a mod without types. -/
def nestedWorkspace : Workspace :=
  let w := ((⟨.empty, {}⟩ : Workspace).makeFolders ⟨"in/Mod"⟩).1
  (w.write? ⟨"in/Mod/module.json"⟩ "\x7b\x7d".toUTF8).getD w

/-- The mod as it is opened. -/
def nestedMod : ModFolder :=
  ⟨⟨"in/Mod"⟩, ["in", "Mod"], "Mod", "module.json", []⟩

theorem dump_spares_nestedMod :
    (∃ f, nestedMod.toMod.dump nestedWorkspace { outputRoot := ⟨"./in//Mod/../"⟩ } =
        (nestedWorkspace, .error f) ∧
      (f = .refusal (.outputOverMod ["in", "Mod"] ["in", "Mod"]) ∨
        f = .disk (.resolvingOutput (nestedMod.outputPath { outputRoot := ⟨"./in//Mod/../"⟩ })))) ∧
      (∃ p, nestedMod.toMod.plan nestedWorkspace { outputRoot := ⟨"in/Mod/new"⟩ } = .ok p ∧
        ∃ back, p.writes = .clear ⟨"in/Mod/new/Mod"⟩ :: back ∧
          nestedWorkspace.locate ⟨"in/Mod/new/Mod"⟩ ≠ .ok ["in", "Mod"]) ∧
      (nestedMod.toMod.dump nestedWorkspace
        { outputRoot := ⟨"in/Mod/new"⟩ }).1.tree.node? ["in", "Mod"] = some .folder := by
  have hopen : ModFolder.openAt nestedWorkspace ⟨"in/Mod"⟩ "module.json" [] = .ok nestedMod :=
    eq_ok_of_toOption (by decide +kernel)
  have hground : nestedWorkspace.IsGrounded := by decide +kernel
  refine ⟨?_, ?_, ?_⟩
  · exact (dump_spares_mod hground hopen).1 _ List.prefix_rfl (Or.inr (by decide +kernel))
  · obtain ⟨p, hplan⟩ : ∃ p, nestedMod.toMod.plan nestedWorkspace
        { outputRoot := ⟨"in/Mod/new"⟩ } = .ok p := exists_eq_ok (by decide +kernel)
    obtain ⟨d, hwrites⟩ := plan_eq_ok hplan
    refine ⟨p, hplan, d.steps, hwrites, ?_⟩
    exact ((dump_spares_mod hground hopen).2.1 p hplan [] _ _ _ hwrites rfl _ List.prefix_rfl).1
  · exact (dump_spares_mod hground hopen).2.2

end Mod

end ModText
