import ModText.Mod.Bundle
import ModText.Proofs.Output.Plan

/-!
# What a dump checks before it writes

All that can be wrong with a mod or with the place of its output turns up while the dump is planned,
and planning changes nothing. `Mod.Unloadable` lists what can be wrong: there is a plan exactly if
none of it is the case. What fails after that is a step of writing, and its failure says so.

Whether a run is dry has no part in its plan. So a dry run tells in advance what the dump is going to
tell, unless a step of writing fails, and it fails as the dump does if there is no plan.
-/

namespace ModText

/-- What fails in two parts fails in the first or, after that, in the second. -/
theorem bind_eq_error {ε α β : Type} {x : Except ε α} {f : α → Except ε β} {e : ε}
    (h : x >>= f = .error e) : x = .error e ∨ ∃ a, x = .ok a ∧ f a = .error e := by
  cases x with
  | error _ => exact Or.inl (congrArg _ (Except.error.inj h))
  | ok a => exact Or.inr ⟨a, rfl, h⟩

/-! ## Failures of writing -/

/-- Whether a step of writing was going on. -/
def Circumstance.isOfWriting : Circumstance → Bool
  | .clearing _ => true
  | .creating _ => true
  | .writing _ => true
  | .reading _ => true
  | _ => false

/-- Whether a failure arose in a step of writing. -/
def Failure.isOfWriting (f : Failure) : Bool :=
  f.circumstances.any Circumstance.isOfWriting

namespace Write

variable {m : Mod} {w w' : Workspace} {f : Failure}

theorem isOfWriting_of_createFolder {folder : Path} (h : createFolder w folder = (w', some f)) :
    f.isOfWriting := by
  rw [createFolder] at h
  split at h
  · cases h
  · cases h
    rfl

theorem isOfWriting_of_put {file : Path} {content : ByteArray}
    (h : put w file content = (w', some f)) : f.isOfWriting := by
  rw [put, createParent] at h
  split at h
  · rename_i hparent
    cases h
    split at hparent
    · exact isOfWriting_of_createFolder hparent
    · cases hparent
  · split at h
    · cases h
    · cases h
      rfl

theorem isOfWriting_of_clearFolder {folder : Path} (h : clearFolder w folder = (w', some f)) :
    f.isOfWriting := by
  rw [clearFolder] at h
  split at h
  · split at h
    · cases h
    · cases h
      rfl
  · cases h

/-- A step fails with a failure of writing, if attempts to read a resource do. -/
theorem isOfWriting_of_perform
    (hread : ∀ resource v g, m.read resource v = .error g → g.isOfWriting) {step : Write}
    (h : step.perform m w = (w', some f)) : f.isOfWriting := by
  cases step with
  | clear folder => exact isOfWriting_of_clearFolder h
  | create folder => exact isOfWriting_of_createFolder h
  | save file text => exact isOfWriting_of_put h
  | copy resource file =>
    rw [perform] at h
    split at h
    · exact isOfWriting_of_put h
    · rename_i g hg
      cases h
      exact hread resource w _ hg

theorem isOfWriting_of_performAll
    (hread : ∀ resource v g, m.read resource v = .error g → g.isOfWriting) {steps : List Write}
    (h : performAll m w steps = (w', some f)) : f.isOfWriting := by
  induction steps generalizing w with
  | nil => cases h
  | cons step rest ih =>
    obtain ⟨v, s, hperform, ⟨_, hrest⟩ | ⟨_, hs, _⟩⟩ := performAll_cons h
    · exact ih hrest
    · rw [← hs] at hperform
      exact isOfWriting_of_perform hread hperform

end Write

namespace Mod

variable {m : Mod} {w : Workspace} {o : DumpOptions}

/-! ## Plans -/

/-- What keeps a mod from being loaded, or its output from having a place. -/
inductive Unloadable (m : Mod) (w : Workspace) (o : DumpOptions) : Prop where
  /-- It cannot be told where the output would go. -/
  | unresolved {location : Location} (hlocation : m.location = some location)
    (hresolve : w.resolve? (Layout.ofMod o.outputRoot m.name).root = none) : Unloadable m w o
  /-- The output would take the place of the mod or of a folder around it. -/
  | refused {location out : Location} (hlocation : m.location = some location)
    (hresolve : w.resolve? (Layout.ofMod o.outputRoot m.name).root = some out)
    (hover : out <+: location) : Unloadable m w o
  | codeMissing {f : Failure} (hcode : m.code w = .error f) : Unloadable m w o
  | codeMalformed {payload : ByteArray} {e : Json.DecodeError} (hcode : m.code w = .ok payload)
    (hdecode : Module.ofPayload payload = .error e) : Unloadable m w o
  | propertiesUnread {f : Failure} (hread : m.buildInfo w = .error f) : Unloadable m w o
  | propertiesNoText {bytes : ByteArray} (hread : m.buildInfo w = .ok (some bytes))
    (htext : String.fromUTF8? bytes = none) : Unloadable m w o

theorem exists_resourcesOutside_eq_error {output : Path} :
    (∃ f, m.resourcesOutside w output = .error f) ↔
      ∃ location, m.location = some location ∧ (w.resolve? output = none ∨
        ∃ out, w.resolve? output = some out ∧ out <+: location) := by
  rw [resourcesOutside]
  cases hlocation : m.location with
  | none => simp
  | some location =>
    cases hresolve : w.resolve? output with
    | none => simp
    | some out =>
      by_cases hover : out <+: location
      · simp [hover]
      · simp [hover]

theorem exists_load_eq_error {names : MarkerNames} :
    (∃ f, m.load w names = .error f) ↔ (∃ f, m.code w = .error f) ∨
      ∃ payload e, m.code w = .ok payload ∧ Module.ofPayload payload = .error e := by
  rw [load]
  cases hcode : m.code w with
  | error f => simp [bind, Except.bind]
  | ok payload =>
    cases hdecode : Module.ofPayload payload with
    | error e => simp [bind, Except.bind, hdecode]
    | ok decoded => simp [bind, Except.bind, hdecode, pure, Except.pure]

theorem exists_properties_eq_error :
    (∃ f, m.properties w = .error f) ↔ (∃ f, m.buildInfo w = .error f) ∨
      ∃ bytes, m.buildInfo w = .ok (some bytes) ∧ String.fromUTF8? bytes = none := by
  rw [properties]
  cases hread : m.buildInfo w with
  | error f => simp [bind, Except.bind]
  | ok info =>
    cases info with
    | none => simp [bind, Except.bind, pure, Except.pure]
    | some bytes =>
      cases htext : String.fromUTF8? bytes with
      | none => simp [bind, Except.bind, Properties.ofBytes?, htext]
      | some text => simp [bind, Except.bind, Properties.ofBytes?, htext, pure, Except.pure]

/-- There is no plan if one of three questions is answered by a failure. -/
theorem exists_plan_eq_error :
    (∃ f, m.plan w o = .error f) ↔
      (∃ f, m.resourcesOutside w (Layout.ofMod o.outputRoot m.name).root = .error f) ∨
        (∃ f, m.load w o.markers = .error f) ∨ ∃ f, m.properties w = .error f := by
  rw [plan]
  cases m.resourcesOutside w (Layout.ofMod o.outputRoot m.name).root with
  | error f => simp [bind, Except.bind]
  | ok resources =>
    cases m.load w o.markers with
    | error f => simp [bind, Except.bind]
    | ok marked =>
      cases m.properties w with
      | error f => simp [bind, Except.bind]
      | ok properties => simp [bind, Except.bind, pure, Except.pure]

/-- There is a plan exactly if nothing keeps the mod from being loaded. -/
theorem exists_plan_eq_error_iff_unloadable :
    (∃ f, m.plan w o = .error f) ↔ m.Unloadable w o := by
  rw [exists_plan_eq_error, exists_resourcesOutside_eq_error, exists_load_eq_error,
    exists_properties_eq_error]
  constructor
  · rintro (⟨_, hlocation, hnone | ⟨_, hsome, hover⟩⟩ | (⟨_, hcode⟩ | ⟨_, _, hcode, hdecode⟩) |
      ⟨_, hread⟩ | ⟨_, hread, htext⟩)
    · exact .unresolved hlocation hnone
    · exact .refused hlocation hsome hover
    · exact .codeMissing hcode
    · exact .codeMalformed hcode hdecode
    · exact .propertiesUnread hread
    · exact .propertiesNoText hread htext
  · intro h
    cases h with
    | unresolved hlocation hnone => exact Or.inl ⟨_, hlocation, Or.inl hnone⟩
    | refused hlocation hsome hover => exact Or.inl ⟨_, hlocation, Or.inr ⟨_, hsome, hover⟩⟩
    | codeMissing hcode => exact Or.inr (Or.inl (Or.inl ⟨_, hcode⟩))
    | codeMalformed hcode hdecode => exact Or.inr (Or.inl (Or.inr ⟨_, _, hcode, hdecode⟩))
    | propertiesUnread hread => exact Or.inr (Or.inr (Or.inl ⟨_, hread⟩))
    | propertiesNoText hread htext => exact Or.inr (Or.inr (Or.inr ⟨_, hread, htext⟩))

theorem dump_of_plan_eq_error {f : Failure} (h : m.plan w o = .error f) :
    m.dump w o = (w, .error f) := by
  rw [dump, h]

/-- A dump that fails otherwise than in a step of writing has no plan. -/
theorem unloadable_of_dump {w' : Workspace} {f : Failure}
    (hread : ∀ resource v g, m.read resource v = .error g → g.isOfWriting)
    (h : m.dump w o = (w', .error f)) (hf : f.isOfWriting = false) : m.Unloadable w o := by
  rw [dump] at h
  split at h
  · exact exists_plan_eq_error_iff_unloadable.1 ⟨_, ‹_›⟩
  · split at h
    · cases h
    · split at h
      · cases h
      · cases h
        rw [Write.isOfWriting_of_performAll hread ‹_›] at hf
        cases hf

/-! ## Dry runs -/

/-- Whether a run is dry shows in what it tells, and nowhere else in its plan. -/
theorem plan_dryRun (m : Mod) (w : Workspace) (o : DumpOptions) (dry : Bool) :
    m.plan w { o with dryRun := dry } =
      (m.plan w o).map fun p => { p with summary := { p.summary with dryRun := dry } } := by
  rw [plan, plan]
  cases m.resourcesOutside w (Layout.ofMod o.outputRoot m.name).root with
  | error f => rfl
  | ok resources =>
    cases m.load w o.markers with
    | error f => rfl
    | ok marked =>
      cases m.properties w with
      | error f => rfl
      | ok properties => rfl

/-- **A dry run foretells the dump.** It changes nothing, whatever comes of it. If it fails, then the
dump fails in the same way and changes nothing either. And what a dump tells that succeeds, the dry
run tells as well, but for its being dry. -/
theorem dryRun_foretells_dump (m : Mod) (w : Workspace) (o : DumpOptions) :
    (m.dump w { o with dryRun := true }).1 = w ∧
      (∀ f, (m.dump w { o with dryRun := true }).2 = .error f →
        m.dump w { o with dryRun := false } = (w, .error f)) ∧
      ∀ w' s, m.dump w { o with dryRun := false } = (w', .ok s) →
        s.dryRun = false ∧
          m.dump w { o with dryRun := true } = (w, .ok { s with dryRun := true }) := by
  have hdry := m.plan_dryRun w o true
  have hreal := m.plan_dryRun w o false
  cases hplan : m.plan w o with
  | error f =>
    rw [hplan] at hdry hreal
    rw [dump_of_plan_eq_error hdry, dump_of_plan_eq_error hreal]
    refine ⟨rfl, fun g hg => ?_, fun w' s hs => ?_⟩
    · rw [Except.error.inj hg]
    · cases hs
  | ok p =>
    rw [hplan] at hdry hreal
    have htold : m.dump w { o with dryRun := true } =
        (w, .ok { p.summary with dryRun := true }) := by
      rw [dump, hdry]
      rfl
    rw [htold]
    refine ⟨rfl, fun g hg => ?_, fun w' s hs => ?_⟩
    · cases hg
    · rw [dump, hreal] at hs
      simp only [Except.map, Bool.false_eq_true, if_false] at hs
      split at hs
      · cases hs
        exact ⟨rfl, rfl⟩
      · cases hs

/-- A mod without types, which is held as a value and has one resource. -/
def plainBundle : ModBundle where
  name := "Mod"
  code := some "\x7b\x7d".toUTF8
  resources := [("icon", "i".toUTF8)]

theorem dryRun_foretells_dump_of_plainBundle :
    ∃ w' s, plainBundle.toMod.dump ⟨.empty, {}⟩ { outputRoot := ⟨"out"⟩, dryRun := false } =
        (w', .ok s) ∧
      w'.tree.node? ["out", "Mod", "icon"] = some (.file "i".toUTF8) ∧ s.resourcesCopied = 1 ∧
      s.dryRun = false ∧
      plainBundle.toMod.dump ⟨.empty, {}⟩ { outputRoot := ⟨"out"⟩, dryRun := true } =
        (⟨.empty, {}⟩, .ok { s with dryRun := true }) := by
  have hdone :
      let result := plainBundle.toMod.dump ⟨.empty, {}⟩ { outputRoot := ⟨"out"⟩, dryRun := false }
      result.1.tree.node? ["out", "Mod", "icon"] = some (.file "i".toUTF8) ∧
        result.2.toOption.map DumpSummary.resourcesCopied = some 1 := by
    decide +kernel
  generalize hdump : plainBundle.toMod.dump ⟨.empty, {}⟩
    { outputRoot := ⟨"out"⟩, dryRun := false } = result at hdone
  obtain ⟨w', r⟩ := result
  obtain ⟨hfile, hcopied⟩ := hdone
  cases r with
  | error f => cases hcopied
  | ok s =>
    obtain ⟨hflag, hdry⟩ := (dryRun_foretells_dump plainBundle.toMod ⟨.empty, {}⟩
      { outputRoot := ⟨"out"⟩ }).2.2 w' s hdump
    exact ⟨w', s, rfl, hfile, Option.some.inj hcopied, hflag, hdry⟩

end Mod

end ModText
