import ModText.Cli.Command
import ModText.Proofs.Config.Validation
import ModText.Proofs.Output.Checks

/-!
# What a dump command needs before it writes

A dump command reads a configuration, opens a mod and plans the dump. Each of these can fail, and
`DumpArguments.Unloadable` lists how. It is about the workspace as the command finds it, and not about
the order in which the command finds things out. If any of it is the case, then the command fails, nothing
is changed, and the status is that of an error; otherwise only a step of writing can fail.
-/

namespace ModText

variable {w : Workspace} {f : Failure}

/-! ## Configurations -/

namespace Config

/-- What keeps a configuration file from being used. -/
inductive Unusable (w : Workspace) (file : Path) : Prop where
  | unread (hread : w.read? file = none) : Unusable w file
  | noText {bytes : ByteArray} (hread : w.read? file = some bytes)
    (htext : String.fromUTF8? bytes = none) : Unusable w file
  | malformed {text : String} {e : Json.DecodeError} (hread : readText w file = .ok text)
    (hdecode : ofText text = .error e) : Unusable w file
  | invalid {text : String} {c : Config} {f : Failure} (hread : readText w file = .ok text)
    (hdecode : ofText text = .ok c) (hcheck : c.validate = .error f) : Unusable w file

theorem exists_readText_eq_error {file : Path} :
    (∃ f, readText w file = .error f) ↔ w.read? file = none ∨
      ∃ bytes, w.read? file = some bytes ∧ String.fromUTF8? bytes = none := by
  rw [readText]
  cases hread : w.read? file with
  | none => simp
  | some bytes =>
    cases htext : String.fromUTF8? bytes with
    | none => simp [htext]
    | some text => simp [htext]

theorem exists_ofFile_eq_error {file : Path} : (∃ f, ofFile w file = .error f) ↔ Unusable w file := by
  have hunread := @exists_readText_eq_error w file
  rw [ofFile]
  cases hread : readText w file with
  | error f =>
    refine iff_of_true ⟨f, rfl⟩ ?_
    rcases hunread.1 ⟨f, hread⟩ with hnone | ⟨bytes, hbytes, htext⟩
    · exact .unread hnone
    · exact .noText hbytes htext
  | ok text =>
    have hread' : ¬∃ f, readText w file = .error f := by simp [hread]
    rw [hunread, not_or] at hread'
    constructor
    · rintro ⟨f, hf⟩
      simp only [bind, Except.bind] at hf
      split at hf
      · exact .malformed hread ‹_›
      · split at hf
        · exact .invalid hread ‹_› ‹_›
        · cases hf
    · intro h
      cases h with
      | unread hnone => exact absurd hnone hread'.1
      | noText hbytes htext => exact absurd ⟨_, hbytes, htext⟩ hread'.2
      | malformed htext hdecode =>
        obtain rfl := Except.ok.inj (hread.symm.trans htext)
        simp only [bind, Except.bind, hdecode]
        exact ⟨_, rfl⟩
      | invalid htext hdecode hcheck =>
        obtain rfl := Except.ok.inj (hread.symm.trans htext)
        simp only [bind, Except.bind, hdecode, hcheck]
        exact ⟨_, rfl⟩

theorem exists_loadHere_eq_error :
    (∃ f, loadHere w = .error f) ↔ w.cwd? = none ∨
      ∃ folder file, w.cwd? = some folder ∧ findFile w folder = some file ∧ Unusable w file := by
  rw [loadHere]
  cases hcwd : w.cwd? with
  | none => simp
  | some folder =>
    cases hfile : findFile w folder with
    | none => simp [load, hfile]
    | some file => simp [load, hfile, exists_ofFile_eq_error]

theorem isOfWriting_of_validate {c : Config} (h : c.validate = .error f) :
    f.isOfWriting = false := by
  cases validate_eq_error_iff.1 h <;> rfl

theorem isOfWriting_of_readText {file : Path} (h : readText w file = .error f) :
    f.isOfWriting = false := by
  rw [readText] at h
  split at h
  · cases h
  · cases h
    rfl

theorem isOfWriting_of_ofFile {file : Path} (h : ofFile w file = .error f) :
    f.isOfWriting = false := by
  rw [ofFile] at h
  rcases bind_eq_error h with hread | ⟨text, _, h⟩
  · exact isOfWriting_of_readText hread
  split at h
  · cases h
    rfl
  · rcases bind_eq_error h with hcheck | ⟨_, _, h⟩
    · exact isOfWriting_of_validate hcheck
    · cases h

theorem isOfWriting_of_loadHere (h : loadHere w = .error f) : f.isOfWriting = false := by
  rw [loadHere] at h
  split at h
  · rw [load] at h
    split at h
    · exact isOfWriting_of_ofFile h
    · cases h
  · cases h
    rfl

end Config

/-! ## Mods in folders -/

namespace ModFolder

theorem isOfWriting_of_findFolder {root : Path} (h : findFolder w root = .error f) :
    f.isOfWriting = false := by
  rw [findFolder] at h
  split at h
  · split at h
    · cases h
    · cases h
      rfl
  · cases h
    rfl

theorem isOfWriting_of_nameAt {root : Path} {l : Location} (h : nameAt root l = .error f) :
    f.isOfWriting = false := by
  rw [nameAt] at h
  split at h
  · cases h
  · cases h
    rfl

theorem isOfWriting_of_mapM_parseIgnore {patterns : List String}
    (h : patterns.mapM parseIgnore = .error f) : f.isOfWriting = false := by
  induction patterns with
  | nil => cases h
  | cons p rest ih =>
    rw [List.mapM_cons] at h
    rcases bind_eq_error h with hparse | ⟨_, _, h⟩
    · rw [parseIgnore] at hparse
      split at hparse
      · cases hparse
      · cases hparse
        rfl
    · rcases bind_eq_error h with hrest | ⟨_, _, h⟩
      · exact ih hrest
      · cases h

theorem isOfWriting_of_listFiles {root : Path} {l : Location} (h : listFiles w root l = .error f) :
    f.isOfWriting = false := by
  rw [listFiles] at h
  split at h
  · cases h
    rfl
  · cases h

theorem isOfWriting_of_openAt {root : Path} {codeFile : String} {ignores : List String}
    (h : openAt w root codeFile ignores = .error f) : f.isOfWriting = false := by
  rw [openAt] at h
  rcases bind_eq_error h with hfind | ⟨location, _, h⟩
  · exact isOfWriting_of_findFolder hfind
  rcases bind_eq_error h with hname | ⟨name, _, h⟩
  · exact isOfWriting_of_nameAt hname
  rcases bind_eq_error h with hparse | ⟨patterns, _, h⟩
  · exact isOfWriting_of_mapM_parseIgnore hparse
  rcases bind_eq_error h with hlist | ⟨files, _, h⟩
  · exact isOfWriting_of_listFiles hlist
  · cases h

variable {m : ModFolder}

/-- What a mod in a folder says if one of its files cannot be read. -/
theorem readFile_eq_error {circumstance : Path → Circumstance} {file : String}
    (h : m.readFile circumstance file w = .error f) :
    f = .disk (circumstance (m.root.join file)) := by
  delta readFile at h
  split at h
  · cases h
  · exact (Except.error.inj h).symm

theorem isOfWriting_of_read (file : String) (v : Workspace) (g : Failure)
    (h : m.toMod.read file v = .error g) : g.isOfWriting := by
  rw [readFile_eq_error h]
  rfl

theorem isOfWriting_of_resourcesOutside {output : Path}
    (h : m.toMod.resourcesOutside w output = .error f) : f.isOfWriting = false := by
  have hlocation : m.toMod.location = some m.location := rfl
  rw [Mod.resourcesOutside, hlocation] at h
  simp only at h
  split at h
  · cases h
    rfl
  · split at h
    · cases h
      rfl
    · cases h

theorem isOfWriting_of_load {names : MarkerNames} (h : m.toMod.load w names = .error f) :
    f.isOfWriting = false := by
  rw [Mod.load] at h
  rcases bind_eq_error h with hcode | ⟨payload, _, h⟩
  · rw [readFile_eq_error hcode]
    rfl
  · split at h
    · cases h
    · cases h
      rfl

theorem isOfWriting_of_properties (h : m.toMod.properties w = .error f) :
    f.isOfWriting = false := by
  rw [Mod.properties] at h
  rcases bind_eq_error h with hread | ⟨info, _, h⟩
  · cases hread
  · split at h
    · cases h
    · split at h
      · cases h
      · cases h
        rfl

theorem isOfWriting_of_plan {o : DumpOptions} (h : m.toMod.plan w o = .error f) :
    f.isOfWriting = false := by
  rw [Mod.plan] at h
  rcases bind_eq_error h with houtside | ⟨resources, _, h⟩
  · exact isOfWriting_of_resourcesOutside houtside
  rcases bind_eq_error h with hload | ⟨marked, _, h⟩
  · exact isOfWriting_of_load hload
  rcases bind_eq_error h with hproperties | ⟨properties, _, h⟩
  · exact isOfWriting_of_properties hproperties
  · cases h

end ModFolder

/-! ## Commands -/

namespace Cli

namespace DumpArguments

variable {a : DumpArguments}

/-- What keeps a dump command from being loaded. -/
inductive Unloadable (a : DumpArguments) (w : Workspace) : Prop where
  /-- The folder in which the program runs has been removed. -/
  | cwdRemoved (hcwd : w.cwd? = none) : Unloadable a w
  | configUnusable {folder file : Path} (hcwd : w.cwd? = some folder)
    (hfile : Config.findFile w folder = some file) (hconfig : Config.Unusable w file) :
    Unloadable a w
  | modUnopened {c : Config} {f : Failure} (hconfig : Config.loadHere w = .ok c)
    (hopen : ModFolder.openAt w a.mod c.codeFile c.resourceIgnores = .error f) : Unloadable a w
  | modUnloadable {c : Config} {m : ModFolder} (hconfig : Config.loadHere w = .ok c)
    (hopen : ModFolder.openAt w a.mod c.codeFile c.resourceIgnores = .ok m)
    (hmod : m.toMod.Unloadable w (a.options c)) : Unloadable a w

/-- A command is not loaded, or it dumps a mod that was opened. -/
theorem dump_cases (a : DumpArguments) (w : Workspace) :
    (∃ f, a.dump w = (w, .error f) ∧ f.isOfWriting = false ∧ a.Unloadable w) ∨
      ∃ c m, Config.loadHere w = .ok c ∧
        ModFolder.openAt w a.mod c.codeFile c.resourceIgnores = .ok m ∧
        a.dump w = m.toMod.dump w (a.options c) := by
  have hcases := @Config.exists_loadHere_eq_error w
  rw [dump, prepare]
  cases hconfig : Config.loadHere w with
  | error f =>
    rw [hconfig] at hcases
    refine Or.inl ⟨f, rfl, Config.isOfWriting_of_loadHere hconfig, ?_⟩
    rcases hcases.1 ⟨f, rfl⟩ with hcwd | ⟨_, _, hcwd, hfile, hunusable⟩
    · exact .cwdRemoved hcwd
    · exact .configUnusable hcwd hfile hunusable
  | ok c =>
    cases hopen : ModFolder.openAt w a.mod c.codeFile c.resourceIgnores with
    | error f =>
      refine Or.inl ⟨f, ?_, ModFolder.isOfWriting_of_openAt hopen, .modUnopened hconfig hopen⟩
      simp only [bind, Except.bind, hopen]
    | ok m =>
      refine Or.inr ⟨c, m, rfl, hopen, ?_⟩
      simp only [bind, Except.bind, hopen, pure, Except.pure]

/-- What a dump command does is decided by whether it is loaded. -/
theorem dump_of_unloadable (h : a.Unloadable w) :
    ∃ f, a.dump w = (w, .error f) ∧ f.isOfWriting = false := by
  rcases a.dump_cases w with ⟨f, hdump, hf, _⟩ | ⟨c, m, hconfig, hopen, hdump⟩
  · exact ⟨f, hdump, hf⟩
  cases h with
  | cwdRemoved hcwd =>
    obtain ⟨f, hf⟩ := Config.exists_loadHere_eq_error.2 (Or.inl hcwd)
    rw [hconfig] at hf
    cases hf
  | configUnusable hcwd hfile hunusable =>
    obtain ⟨f, hf⟩ := Config.exists_loadHere_eq_error.2 (Or.inr ⟨_, _, hcwd, hfile, hunusable⟩)
    rw [hconfig] at hf
    cases hf
  | modUnopened hconfig' hopen' =>
    obtain rfl := Except.ok.inj (hconfig.symm.trans hconfig')
    rw [hopen] at hopen'
    cases hopen'
  | modUnloadable hconfig' hopen' hmod =>
    obtain rfl := Except.ok.inj (hconfig.symm.trans hconfig')
    obtain rfl := Except.ok.inj (hopen.symm.trans hopen')
    obtain ⟨f, hplan⟩ := Mod.exists_plan_eq_error_iff_unloadable.2 hmod
    exact ⟨f, hdump.trans (Mod.dump_of_plan_eq_error hplan), ModFolder.isOfWriting_of_plan hplan⟩

/-- A dump command that fails is not loaded, or it fails in a step of writing. -/
theorem unloadable_of_dump {w' : Workspace} (h : a.dump w = (w', .error f))
    (hf : f.isOfWriting = false) : a.Unloadable w := by
  rcases a.dump_cases w with ⟨_, _, _, hunloadable⟩ | ⟨c, m, hconfig, hopen, hdump⟩
  · exact hunloadable
  · rw [hdump] at h
    exact .modUnloadable hconfig hopen (Mod.unloadable_of_dump ModFolder.isOfWriting_of_read h hf)

end DumpArguments

/-- A disk with a mod whose code is no module, and with an earlier output of it. -/
def garbledWorkspace : Workspace :=
  let w := ((⟨.empty, {}⟩ : Workspace).makeFolders ⟨"in/Mod"⟩).1
  let w := (w.write? ⟨"in/Mod/module.json"⟩ "x".toUTF8).getD w
  let w := (w.makeFolders ⟨"dump/Mod"⟩).1
  (w.write? ⟨"dump/Mod/Info.json"⟩ "old".toUTF8).getD w

/-- The mod as it is opened. -/
def garbledMod : ModFolder :=
  ⟨⟨"in/Mod"⟩, ["in", "Mod"], "Mod", "module.json", []⟩

end Cli

end ModText
