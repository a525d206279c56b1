import ModText.Proofs.Code.Chains
import ModText.Proofs.Idiom.Lines

/-!
# How code refers to members

Compilers do not agree on how a member is called: one makes a call virtual where another does not, and
one writes the whole name of a type where another writes the end of it only. No scan can tell. What is
asked of an instruction is answered alike by its plain form, which has plain calls only and no more than
the simple name of a type, so code can be replaced by plain code without a change to what is found
(`findsAlike_map_plain`). And two codes that differ in the spelling of references have one plain form.
-/

namespace ModText

/-! ## References -/

namespace MemberRef

/-- What may stand in front of the simple name of a type: nothing, or a text that ends in a
separator. -/
def IsQualifier (text : String) : Prop :=
  ∀ c, text.toList.getLast? = some c → isSeparator c

/-- The second reference differs from the first one at most in what stands in front of the simple name
of the type. -/
def Requalified (m n : MemberRef) : Prop :=
  ∃ qualifier qualifier' simple, IsQualifier qualifier ∧ IsQualifier qualifier' ∧
    (∀ c ∈ simple.toList, isSeparator c = false) ∧ m.declaringType = qualifier ++ simple ∧
    n = { m with declaringType := qualifier' ++ simple }

/-- The reference with no more than the simple name of the type. -/
def unqualified (m : MemberRef) : MemberRef :=
  { m with declaringType := m.simpleTypeName }

@[simp] theorem name_unqualified (m : MemberRef) : m.unqualified.name = m.name :=
  rfl

@[simp] theorem parameterCount_unqualified (m : MemberRef) :
    m.unqualified.parameterCount = m.parameterCount :=
  rfl

theorem simpleTypeName_of_append {m : MemberRef} {qualifier simple : String}
    (hqualifier : IsQualifier qualifier) (hsimple : ∀ c ∈ simple.toList, isSeparator c = false)
    (h : m.declaringType = qualifier ++ simple) : m.simpleTypeName = simple := by
  have hnone : qualifier.toList.reverse.takeWhile (!isSeparator ·) = [] := by
    rw [IsQualifier, ← List.head?_reverse] at hqualifier
    cases hback : qualifier.toList.reverse with
    | nil => rfl
    | cons c cs => simp [hqualifier c (by rw [hback]; rfl)]
  rw [simpleTypeName, h, String.toList_append, List.reverse_append,
    List.takeWhile_append_of_pos (by simpa using hsimple), hnone, List.append_nil,
    List.reverse_reverse, String.ofList_toList]

theorem isSeparator_of_mem_simpleTypeName {m : MemberRef} {c : Char}
    (h : c ∈ m.simpleTypeName.toList) : isSeparator c = false := by
  rw [simpleTypeName, String.toList_ofList, List.mem_reverse] at h
  simpa using List.mem_takeWhile_imp h

@[simp] theorem simpleTypeName_unqualified (m : MemberRef) :
    m.unqualified.simpleTypeName = m.simpleTypeName := by
  have hnone : IsQualifier "" := by simp [IsQualifier]
  exact simpleTypeName_of_append hnone (fun _ hc => isSeparator_of_mem_simpleTypeName hc)
    String.empty_append.symm

@[simp] theorem denotes_unqualified (m : MemberRef) (type member : String) :
    m.unqualified.denotes type member = m.denotes type member := by
  rw [denotes, denotes, name_unqualified, simpleTypeName_unqualified]

theorem Requalified.unqualified_eq {m n : MemberRef} (h : m.Requalified n) :
    n.unqualified = m.unqualified := by
  obtain ⟨qualifier, qualifier', simple, hqualifier, hqualifier', hsimple, hm, rfl⟩ := h
  rw [unqualified, unqualified, simpleTypeName_of_append hqualifier hsimple hm,
    simpleTypeName_of_append hqualifier' hsimple rfl]

end MemberRef

/-! ## Instructions -/

namespace Instruction

/-- The second instruction differs from the first one at most in whether a call is virtual and in the
qualifiers of references. -/
inductive Respelled : Instruction → Instruction → Prop
  | same (i : Instruction) : Respelled i i
  | call {i j : Instruction} {m n : MemberRef} :
      i.call? = some m → j.call? = some n → m.Requalified n → Respelled i j
  | newObject {m n : MemberRef} : m.Requalified n → Respelled (.newObject m) (.newObject n)
  | storeField {m n : MemberRef} : m.Requalified n → Respelled (.storeField m) (.storeField n)

/-- The instruction with a plain call for a virtual one and with no qualifiers. -/
def plain : Instruction → Instruction
  | .call method => .call method.unqualified
  | .callVirtual method => .call method.unqualified
  | .newObject constructor => .newObject constructor.unqualified
  | .storeField field => .storeField field.unqualified
  | i => i

variable (i : Instruction)

theorem plain_of_call? {m : MemberRef} (h : i.call? = some m) : i.plain = .call m.unqualified := by
  rcases call?_eq_some.1 h with rfl | rfl <;> rfl

theorem Respelled.plain_eq {i j : Instruction} (h : i.Respelled j) : j.plain = i.plain := by
  cases h with
  | same => rfl
  | call hi hj hmn => rw [plain_of_call? _ hi, plain_of_call? _ hj, hmn.unqualified_eq]
  | newObject hmn => rw [plain, plain, hmn.unqualified_eq]
  | storeField hmn => rw [plain, plain, hmn.unqualified_eq]

@[simp] theorem string?_plain : i.plain.string? = i.string? := by
  cases i <;> rfl

@[simp] theorem call?_plain : i.plain.call? = i.call?.map (·.unqualified) := by
  cases i <;> rfl

@[simp] theorem newObject?_plain : i.plain.newObject? = i.newObject?.map (·.unqualified) := by
  cases i <;> rfl

@[simp] theorem fieldStore?_plain : i.plain.fieldStore? = i.fieldStore?.map (·.unqualified) := by
  cases i <;> rfl

@[simp] theorem localStore?_plain : i.plain.localStore? = i.localStore? := by
  cases i <;> rfl

@[simp] theorem localLoad?_plain : i.plain.localLoad? = i.localLoad? := by
  cases i <;> rfl

@[simp] theorem loadsArgument_plain (n : UInt16) :
    i.plain.loadsArgument n = i.loadsArgument n := by
  cases i <;> rfl

@[simp] theorem isElementLoad_plain : i.plain.isElementLoad = i.isElementLoad := by
  cases i <;> rfl

theorem bind_string?_map_plain (o : Option Instruction) :
    (o.map plain).bind (·.string?) = o.bind (·.string?) := by
  cases o <;> simp

theorem bind_call?_map_plain (o : Option Instruction) :
    (o.map plain).bind (·.call?) = (o.bind (·.call?)).map (·.unqualified) := by
  cases o <;> simp

theorem bind_fieldStore?_map_plain (o : Option Instruction) :
    (o.map plain).bind (·.fieldStore?) = (o.bind (·.fieldStore?)).map (·.unqualified) := by
  cases o <;> simp

@[simp] theorem calls_plain (type member : String) :
    i.plain.calls type member = i.calls type member := by
  simp [calls, Option.any_map]

@[simp] theorem callsNamed_plain (member : String) :
    i.plain.callsNamed member = i.callsNamed member := by
  simp [callsNamed, Option.any_map]

end Instruction

/-! ## Scans -/

theorem operandTexts_map_plain (found : List String) (code : List Instruction) (operands : Nat) :
    operandTexts found (code.map Instruction.plain) operands = operandTexts found code operands := by
  induction code generalizing found operands with
  | nil => rfl
  | cons i rest ih =>
    cases operands with
    | zero => rfl
    | succ n => simp only [List.map_cons, operandTexts, Instruction.string?_plain,
        Instruction.isElementLoad_plain, ih]

theorem firstLoad?_map_plain (slot : UInt16) (code : List Instruction) :
    firstLoad? slot (code.map Instruction.plain) =
      (firstLoad? slot code).map (·.map Instruction.plain) := by
  induction code with
  | nil => rfl
  | cons i rest ih =>
    rw [List.map_cons, firstLoad?, firstLoad?, Instruction.localLoad?_plain, ih]
    split <;> rfl

namespace Site

/-- The site in plain code. -/
def plain (s : Site) : Site where
  before := s.before.map Instruction.plain
  here := s.here.plain
  after := s.after.map Instruction.plain

theorem sitesFrom_map_plain (before code : List Instruction) :
    sitesFrom (before.map Instruction.plain) (code.map Instruction.plain) =
      (sitesFrom before code).map plain := by
  induction code generalizing before with
  | nil => rfl
  | cons i rest ih => exact congrArg _ (ih (i :: before))

/-- What sites show is the same in plain code if each site shows the same there. -/
theorem flatMap_sites_map_plain {β : Type} {shown : Site → List β}
    (h : ∀ s : Site, shown s.plain = shown s) (code : List Instruction) :
    (sites (code.map Instruction.plain)).flatMap shown = (sites code).flatMap shown := by
  have hsites : sites (code.map Instruction.plain) = (sites code).map plain :=
    sitesFrom_map_plain [] code
  simp only [hsites, List.flatMap_map, h]

theorem filterMap_sites_map_plain {β : Type} {find : Site → Option β}
    (h : ∀ s : Site, find s.plain = find s) (code : List Instruction) :
    (sites (code.map Instruction.plain)).filterMap find = (sites code).filterMap find := by
  rw [List.filterMap_eq_flatMap_toList, List.filterMap_eq_flatMap_toList]
  exact flatMap_sites_map_plain (fun s => by rw [h]) code

variable (s : Site)

@[simp] theorem here_plain : s.plain.here = s.here.plain :=
  rfl

@[simp] theorem previous?_plain : s.plain.previous? = s.previous?.map Instruction.plain :=
  List.head?_map

@[simp] theorem next?_plain : s.plain.next? = s.next?.map Instruction.plain :=
  List.head?_map

@[simp] theorem getElem?_before_plain (k : Nat) :
    s.plain.before[k]? = s.before[k]?.map Instruction.plain :=
  List.getElem?_map

theorem defaultText?_plain : s.plain.defaultText? = s.defaultText? := by
  simp [defaultText?, Option.any_map, Instruction.bind_call?_map_plain, Function.comp_def]

theorem setBonus?_plain : s.plain.setBonus? = s.setBonus? := by
  rw [setBonus?, setBonus?, here_plain, Instruction.string?_plain, next?_plain,
    Instruction.bind_fieldStore?_map_plain, Option.any_map]
  rfl

theorem argumentText?_plain (argument : UInt16) :
    s.plain.argumentText? argument = s.argumentText? argument := by
  simp [argumentText?, Option.any_map]

theorem message?_plain : s.plain.message? = s.message? := by
  simp [message?, Instruction.bind_string?_map_plain]

theorem concatPieces_plain (operands : Nat) :
    s.plain.concatPieces operands = s.concatPieces operands :=
  operandTexts_map_plain [] s.before operands

theorem any_newObject?_plain : s.plain.here.newObject?.any (·.simpleTypeName == "TooltipLine") =
    s.here.newObject?.any (·.simpleTypeName == "TooltipLine") := by
  simp [Option.any_map]

theorem tooltipLine_plain : s.plain.tooltipLine = s.tooltipLine := by
  have hstring : ∀ k : Nat, s.plain.before[k]?.bind (·.string?) = s.before[k]?.bind (·.string?) := by
    simp [Instruction.bind_string?_map_plain]
  have hcall : s.plain.before[0]?.bind (·.call?) =
      (s.before[0]?.bind (·.call?)).map (·.unqualified) := by
    rw [getElem?_before_plain, Instruction.bind_call?_map_plain]
  simp only [tooltipLine_eq, any_newObject?_plain, hstring, hcall, concatPieces_plain]
  cases s.before[0]?.bind (·.call?) <;> rfl

theorem overflow?_plain : s.plain.overflow? = s.overflow? := by
  rw [overflow?, overflow?, any_newObject?_plain, previous?_plain, Instruction.bind_call?_map_plain]
  cases s.previous?.bind (·.call?) <;> rfl

theorem registration?_plain : s.plain.registration? = s.registration? := by
  rw [registration?, registration?, here_plain, Instruction.callsNamed_plain, previous?_plain, plain]
  congr 1
  cases s.after with
  | nil => rfl
  | cons store rest =>
    simp only [List.map_cons, List.head?_map, Instruction.localStore?_plain, Instruction.string?_plain,
      firstLoad?_map_plain, Option.bind_eq_bind, Option.bind_map, Function.comp_def]

end Site

/-! ## Code and modules -/

/-- All scans find the same in plain code. -/
theorem findsAlike_map_plain (code : List Instruction) :
    FindsAlike code (code.map Instruction.plain) where
  defaults := Site.filterMap_sites_map_plain Site.defaultText?_plain code
  literals := by simp [stringLiterals, List.filterMap_map]
  lines := Site.flatMap_sites_map_plain Site.tooltipLine_plain code
  overflow := by
    rw [tooltipOverflow?, tooltipOverflow?, ← List.head?_filterMap, ← List.head?_filterMap,
      Site.filterMap_sites_map_plain Site.overflow?_plain]
  bonus := congrArg List.getLast? (Site.filterMap_sites_map_plain Site.setBonus?_plain code)
  arguments n := congrArg List.getLast?
    (Site.filterMap_sites_map_plain (fun s => s.argumentText?_plain n) code)
  messages := Site.filterMap_sites_map_plain Site.message?_plain code
  registrations := Site.filterMap_sites_map_plain Site.registration?_plain code

/-- All scans find the same in codes that differ in the spelling of references and in which calls are
virtual. -/
theorem findsAlike_of_respelled {code other : List Instruction}
    (h : List.Forall₂ Instruction.Respelled code other) : FindsAlike code other := by
  have hplain : other.map Instruction.plain = code.map Instruction.plain :=
    map_eq_iff_forall₂.2 (h.imp fun _ _ hij => hij.plain_eq)
  exact (findsAlike_map_plain code).trans (hplain ▸ (findsAlike_map_plain other).symm)

/-- **Code is seen through its shape only.** If two modules have the same types with the same methods,
and their codes differ at most in which calls are virtual, in what stands in front of the simple names
of the types of members, and in the numbers of locals, then the same records are extracted from both,
and a program that checks its sums stops at the same ones. So it is after the types of both are marked,
if they have the same base types. -/
theorem Module.extract_of_respelled {m n : Module}
    (h : m.Alike (List.Forall₂ Instruction.Respelled) n) (selection : List Category) :
    n.extract selection = m.extract selection ∧
      n.extractChecked selection = m.extractChecked selection ∧
      (n.types.map (·.baseTypes) = m.types.map (·.baseTypes) → ∀ names,
        (n.mark names).extract selection = (m.mark names).extract selection ∧
          (n.mark names).extractChecked selection = (m.mark names).extractChecked selection) := by
  refine ⟨Module.extract_alike findsAlike_of_respelled h selection,
    Module.extractChecked_alike findsAlike_of_respelled h selection, fun hbases names => ?_⟩
  have hfills : List.Forall₂ m.Fills m.types n.types := by
    refine List.Forall₂.mp ?_ h (map_eq_iff_forall₂.1 hbases)
    intro t u htu hbases
    have hname : u.fullName = t.fullName := by
      rw [TypeDef.fullName, TypeDef.fullName, htu.name, htu.namespaceName]
    exact Module.fills_of_baseTypes_eq hname hbases
  have hmarked := h.mark hfills names
  exact ⟨Module.extract_alike findsAlike_of_respelled hmarked selection,
    Module.extractChecked_alike findsAlike_of_respelled hmarked selection⟩

/-- A blade with an idiom in each of its methods, in the spelling of a compiler: how it calls members,
what it puts in front of the names of types, and how many locals it declares. -/
def sabre (call : MemberRef → Instruction) (outer : String) (locals : UInt16) : TypeDef where
  name := "Sabre"
  marks := { item := true }
  methods := [
    { name := "SetStaticDefaults", body := some ⟨locals, [
        call ⟨outer ++ "ModItem", "get_DisplayName", 0⟩, .pushString "Sabre",
        call ⟨outer ++ "ModTranslation", "SetDefault", 1⟩]⟩ },
    { name := "ModifyTooltips", body := some ⟨locals, [
        .pushString "Sharp", call ⟨outer ++ "String", "Concat", 1⟩,
        .newObject ⟨outer ++ "TooltipLine", ".ctor", 3⟩]⟩ },
    { name := "UpdateArmorSet", body := some ⟨locals, [
        .pushString "Swift", .storeField ⟨outer ++ "Player", "setBonus", 0⟩]⟩ },
    { name := "Load", body := some ⟨locals, [
        .pushString "key", call ⟨outer ++ "Mod", "CreateTranslation", 1⟩, .storeLocal 0,
        .loadLocal 0, .pushString "value"]⟩ },
    { name := "Greet", body := some ⟨locals, [
        .pushString "Hail", .other, .other, .other, .other,
        call ⟨outer ++ "Main", "NewText", 5⟩]⟩ }]

theorem Module.extract_of_respelled_sabre :
    let m : Module := ⟨[sabre .call "" 0]⟩
    let n : Module := ⟨[sabre .callVirtual "Terraria.Outer/" 7]⟩
    m.Alike (List.Forall₂ Instruction.Respelled) n ∧
      n.types.map (·.baseTypes) = m.types.map (·.baseTypes) ∧
      n.extract Category.all = m.extract Category.all ∧
      (n.mark {}).extract Category.all = (m.mark {}).extract Category.all ∧
      m.extract Category.all =
        { items := [⟨"Sabre", "", some "Sabre", none, ["Sharp"], some "Swift"⟩]
          misc := [⟨"Sabre", "", "Greet", ["Hail"]⟩]
          customs := [⟨"key", "", "value"⟩] } := by
  intro m n
  have href : ∀ simple name count, simple.toList.all (!MemberRef.isSeparator ·) →
      MemberRef.Requalified ⟨"" ++ simple, name, count⟩ ⟨"Terraria.Outer/" ++ simple, name, count⟩ := by
    intro simple name count hsimple
    refine ⟨"", "Terraria.Outer/", simple, by simp [MemberRef.IsQualifier], ?_,
      by simpa using hsimple, rfl, rfl⟩
    intro c hc
    obtain rfl : '/' = c := by simpa using hc
    rfl
  have hcall : ∀ simple name count, simple.toList.all (!MemberRef.isSeparator ·) →
      Instruction.Respelled (.call ⟨"" ++ simple, name, count⟩)
        (.callVirtual ⟨"Terraria.Outer/" ++ simple, name, count⟩) :=
    fun simple name count hsimple => .call rfl rfl (href simple name count hsimple)
  have halike : m.Alike (List.Forall₂ Instruction.Respelled) n := by
    refine .cons ⟨rfl, rfl, rfl, .cons ?_ (.cons ?_ (.cons ?_ (.cons ?_ (.cons ?_ .nil))))⟩ .nil
    · exact ⟨rfl, rfl, rfl, rfl, .some (.cons (hcall _ _ _ (by decide)) (.cons (.same _)
        (.cons (hcall _ _ _ (by decide)) .nil)))⟩
    · exact ⟨rfl, rfl, rfl, rfl, .some (.cons (.same _) (.cons (hcall _ _ _ (by decide))
        (.cons (.newObject (href _ _ _ (by decide))) .nil)))⟩
    · exact ⟨rfl, rfl, rfl, rfl, .some (.cons (.same _)
        (.cons (.storeField (href _ _ _ (by decide))) .nil))⟩
    · exact ⟨rfl, rfl, rfl, rfl, .some (.cons (.same _) (.cons (hcall _ _ _ (by decide))
        (List.forall₂_same.2 fun i _ => .same i)))⟩
    · exact ⟨rfl, rfl, rfl, rfl, .some (.cons (.same _) (.cons (.same _) (.cons (.same _)
        (.cons (.same _) (.cons (.same _) (.cons (hcall _ _ _ (by decide)) .nil))))))⟩
  obtain ⟨hextract, _, hmarked⟩ := Module.extract_of_respelled halike Category.all
  exact ⟨halike, rfl, hextract, (hmarked rfl {}).1, by decide +kernel⟩

end ModText
