import ModText.Extraction

/-!
# Code that carries a record

How mods are written by the book: the code in which each kind of record is put when nothing else is
going on. `Carries r t` says that the type `t` is such code for the record `r`. It leaves open what
authors and compilers choose: which type declares a getter, whether a call is virtual, in which
order the methods stand, whether a method without anything to do is there at all, into which lines
a list of tooltip texts is cut, and what stands between the registration of a text and its use.

Two calls are looked for in every method of every type. Instructions that are neither are `Quiet`,
and the filler that an idiom leaves open has to be.
-/

namespace ModText

/-- Neither sends a message nor registers a text. -/
def Instruction.Quiet (i : Instruction) : Prop :=
  i.callsNamed "NewText" = false ∧ i.callsNamed registeringMethod = false

namespace IdiomCode

/-- Hands a text to the object of a getter, if there is a text. -/
inductive SetsText (getter : String) : Option String → List Instruction → Prop
  | absent : SetsText getter none []
  | present {value : String} {get set : Instruction} :
      get.callsNamed getter → set.calls textObject "SetDefault" →
      SetsText getter (some value) [get, .pushString value, set]

/-- Hands a text to any object, if there is a text. How the object is got at is left open. -/
inductive SetsAnyText : Option String → List Instruction → Prop
  | absent : SetsAnyText none []
  | present {value : String} {front : List Instruction} {set : Instruction} :
      (∀ i ∈ front, i.Quiet ∧ i.string? = none) → set.calls textObject "SetDefault" →
      SetsAnyText (some value) (front ++ [.pushString value, set])

/-- The operands of a concatenation behind the first one, with their texts and their number. An
element of an array has no text. -/
inductive Operands : List String → Nat → List Instruction → Prop
  | nil : Operands [] 0 []
  | text {value : String} {texts : List String} {n : Nat} {code : List Instruction} :
      Operands texts n code → Operands (value :: texts) (n + 1) (.pushString value :: code)
  | element {slot : UInt16} {texts : List String} {n : Nat} {code : List Instruction} :
      Operands texts n code → Operands texts (n + 1) (.loadLocal slot :: .loadElement :: code)

/-- Makes one line of a tooltip, from two texts or from a concatenation. The operands of a concatenation
stand in the code, so with the first one they are no more than a machine word can count. -/
inductive TooltipLine : List String → List Instruction → Prop
  | pair {name text : String} {line : MemberRef} : line.simpleTypeName = "TooltipLine" →
      TooltipLine [name, text] [.pushString name, .pushString text, .newObject line]
  | concat {first : String} {texts : List String} {n : Nat} {operands : List Instruction}
      {join : Instruction} {method line : MemberRef} :
      Operands texts n operands → join.call? = some method → method.name = "Concat" →
      method.parameterCount.toNat = n → n + 1 < UInt64.size → line.simpleTypeName = "TooltipLine" →
      TooltipLine (first :: texts) (.pushString first :: (operands ++ [join, .newObject line]))

/-- Makes lines of a tooltip, one after the other. -/
inductive TooltipLines : List String → List Instruction → Prop
  | nil : TooltipLines [] []
  | cons {texts rest : List String} {line code : List Instruction} :
      TooltipLine texts line → TooltipLines rest code → TooltipLines (texts ++ rest) (line ++ code)

/-- Stores the bonus of a set, if there is one. -/
inductive SetsBonus : Option String → List Instruction → Prop
  | absent : SetsBonus none []
  | present {value : String} {field : MemberRef} : field.name = "setBonus" →
      SetsBonus (some value) [.pushString value, .storeField field]

/-- Names a button through an argument, if it has a name. -/
inductive NamesButton (argument : UInt16) : Option String → List Instruction → Prop
  | absent : NamesButton argument none []
  | present {value : String} : NamesButton argument (some value) [.loadArgument argument, .pushString value]

/-- Sends messages. Four more arguments stand between a text and the call. -/
inductive SendsMessages : List String → List Instruction → Prop
  | nil : SendsMessages [] []
  | cons {text : String} {texts : List String} {arguments code : List Instruction} {send : Instruction} :
      arguments.length = 4 → (∀ i ∈ arguments, i.Quiet) → send.callsNamed "NewText" →
      SendsMessages texts code →
      SendsMessages (text :: texts) (.pushString text :: (arguments ++ send :: code))

/-- Registers a text under a key: the object goes to a local, and the text follows the first load of
that local. -/
inductive Registers (key value : String) : List Instruction → Prop
  | intro {register : Instruction} {slot : UInt16} {between behind : List Instruction} :
      register.callsNamed registeringMethod →
      (∀ i ∈ between, i.Quiet ∧ i.localLoad? ≠ some slot) → (∀ i ∈ behind, i.Quiet) →
      Registers key value (.pushString key :: register :: .storeLocal slot ::
        (between ++ .loadLocal slot :: .pushString value :: behind))

/-- A method of the given kind with this code. It may be left out if there is no code. -/
inductive Offers (kind : Method → Bool) (code : List Instruction) : List Method → Prop
  | method {m : Method} : kind m → m.instructions? = some code → Offers kind code [m]
  | nothing : code = [] → Offers kind code []

/-- The type of an item. -/
def OfItem (r : ItemText) (t : TypeDef) : Prop :=
  t.marks = { item := true } ∧ t.name = r.typeName ∧ t.namespaceName = r.namespaceName ∧
    ∃ nameCode tipCode lineCode bonusCode statics lines armor,
      SetsText "get_DisplayName" r.name nameCode ∧ SetsText "get_Tooltip" r.toolTip tipCode ∧
      Offers (·.isHook "SetStaticDefaults") (nameCode ++ tipCode) statics ∧
      TooltipLines r.modifyTooltips lineCode ∧ Offers (·.isNamed "ModifyTooltips") lineCode lines ∧
      SetsBonus r.setBonus bonusCode ∧ Offers (·.isNamed "UpdateArmorSet") bonusCode armor ∧
      t.methods.Perm (statics ++ lines ++ armor)

/-- The type of a character. -/
def OfNpc (r : NpcText) (t : TypeDef) : Prop :=
  t.marks = { npc := true } ∧ t.name = r.typeName ∧ t.namespaceName = r.namespaceName ∧
    ∃ nameCode firstCode secondCode statics chat buttons names,
      SetsText "get_DisplayName" r.name nameCode ∧
      Offers (·.isHook "SetStaticDefaults") nameCode statics ∧
      Offers (·.isNamed "GetChat") (r.chatTexts.map .pushString) chat ∧
      NamesButton 1 r.shopButton1 firstCode ∧ NamesButton 2 r.shopButton2 secondCode ∧
      Offers (·.isNamed "SetChatButtons") (firstCode ++ secondCode) buttons ∧
      Offers (·.isNamed "TownNPCName") (r.townNpcNames.map .pushString) names ∧
      t.methods.Perm (statics ++ chat ++ buttons ++ names)

/-- The type of a buff. Its method has to be there. -/
def OfBuff (r : BuffText) (t : TypeDef) : Prop :=
  t.marks = { buff := true } ∧ t.name = r.typeName ∧ t.namespaceName = r.namespaceName ∧
    ∃ nameCode tipCode m,
      SetsText "get_DisplayName" r.name nameCode ∧ SetsText "get_Description" r.tip tipCode ∧
      m.isHook "SetDefaults" ∧ m.instructions? = some (nameCode ++ tipCode) ∧ t.methods = [m]

/-- The type of a tile. Its method has to be there. -/
def OfTile (r : TileText) (t : TypeDef) : Prop :=
  t.marks = { tile := true } ∧ t.name = r.typeName ∧ t.namespaceName = r.namespaceName ∧
    ∃ code m, SetsAnyText r.name code ∧ m.isHook "SetDefaults" ∧ m.instructions? = some code ∧
      t.methods = [m]

/-- A type with a method that sends messages. -/
def OfChat (r : ChatText) (t : TypeDef) : Prop :=
  t.marks = {} ∧ t.name = r.typeName ∧ t.namespaceName = r.namespaceName ∧
    ∃ code m, SendsMessages r.contents code ∧ m.name = r.method ∧ m.instructions? = some code ∧
      t.methods = [m]

/-- A type with a method that registers a text. -/
def OfCustom (r : CustomText) (t : TypeDef) : Prop :=
  t.marks = {} ∧ t.namespaceName = r.namespaceName ∧
    ∃ code m, Registers r.key r.value code ∧ m.instructions? = some code ∧ t.methods = [m]

/-- The type is the plain code for the record. -/
def Carries : Record → TypeDef → Prop
  | .item r => OfItem r
  | .npc r => OfNpc r
  | .buff r => OfBuff r
  | .chat r => OfChat r
  | .tile r => OfTile r
  | .custom r => OfCustom r

/-! ## Every record is carried by some code -/

theorem exists_setsText (getter : String) (value : Option String) :
    ∃ code, SetsText getter value code := by
  cases value with
  | none => exact ⟨_, .absent⟩
  | some value =>
    exact ⟨_, @SetsText.present getter value (.call ⟨"", getter, 0⟩)
      (.callVirtual ⟨textObject, "SetDefault", 1⟩) (beq_self_eq_true getter) (by decide)⟩

theorem exists_setsAnyText (value : Option String) : ∃ code, SetsAnyText value code := by
  cases value with
  | none => exact ⟨_, .absent⟩
  | some value =>
    exact ⟨_, @SetsAnyText.present value [] (.callVirtual ⟨textObject, "SetDefault", 1⟩) (by simp)
      (by decide)⟩

theorem exists_tooltipLines (texts : List String) : ∃ code, TooltipLines texts code := by
  induction texts with
  | nil => exact ⟨_, .nil⟩
  | cons text texts ih =>
    obtain ⟨code, hcode⟩ := ih
    have hline : TooltipLine [text] (.pushString text ::
        ([] ++ [.call ⟨"String", "Concat", 0⟩, .newObject ⟨"TooltipLine", ".ctor", 2⟩])) :=
      .concat .nil rfl rfl rfl (by decide) (by decide)
    exact ⟨_, .cons hline hcode⟩

theorem exists_setsBonus (value : Option String) : ∃ code, SetsBonus value code := by
  cases value with
  | none => exact ⟨_, .absent⟩
  | some value => exact ⟨_, @SetsBonus.present value ⟨"Player", "setBonus", 0⟩ rfl⟩

theorem exists_namesButton (argument : UInt16) (value : Option String) :
    ∃ code, NamesButton argument value code := by
  cases value with
  | none => exact ⟨_, .absent⟩
  | some value => exact ⟨_, .present⟩

theorem exists_sendsMessages (texts : List String) : ∃ code, SendsMessages texts code := by
  induction texts with
  | nil => exact ⟨_, .nil⟩
  | cons text texts ih =>
    obtain ⟨code, hcode⟩ := ih
    exact ⟨_, @SendsMessages.cons text texts (List.replicate 4 .other) code
      (.call ⟨"Main", "NewText", 5⟩) rfl (fun i hi => List.eq_of_mem_replicate hi ▸ ⟨rfl, rfl⟩) (by decide) hcode⟩

theorem exists_registers (key value : String) : ∃ code, Registers key value code :=
  ⟨_, @Registers.intro key value (.callVirtual ⟨"Mod", registeringMethod, 1⟩) 0 [] [] (by decide)
    (by simp) (by simp)⟩

/-- A hook of that name with that code. -/
def hook (name : String) (code : List Instruction) : Method where
  name := name
  body := some { instructions := code }

theorem isHook_hook (name : String) (code : List Instruction) : (hook name code).isHook name := by
  simp [Method.isHook, hook]

theorem isNamed_hook (name : String) (code : List Instruction) : (hook name code).isNamed name :=
  beq_self_eq_true name

theorem exists_carries (r : Record) : ∃ t, Carries r t := by
  cases r with
  | item r =>
    obtain ⟨nameCode, hname⟩ := exists_setsText "get_DisplayName" r.name
    obtain ⟨tipCode, htip⟩ := exists_setsText "get_Tooltip" r.toolTip
    obtain ⟨lineCode, hline⟩ := exists_tooltipLines r.modifyTooltips
    obtain ⟨bonusCode, hbonus⟩ := exists_setsBonus r.setBonus
    exact ⟨⟨r.typeName, r.namespaceName, [], _, { item := true }⟩, rfl, rfl, rfl, nameCode, tipCode,
      lineCode, bonusCode, _, _, _, hname, htip, .method (isHook_hook _ _) rfl, hline,
      .method (isNamed_hook _ _) rfl, hbonus, .method (isNamed_hook _ _) rfl, .refl _⟩
  | npc r =>
    obtain ⟨nameCode, hname⟩ := exists_setsText "get_DisplayName" r.name
    obtain ⟨firstCode, hfirst⟩ := exists_namesButton 1 r.shopButton1
    obtain ⟨secondCode, hsecond⟩ := exists_namesButton 2 r.shopButton2
    exact ⟨⟨r.typeName, r.namespaceName, [], _, { npc := true }⟩, rfl, rfl, rfl, nameCode, firstCode,
      secondCode, _, _, _, _, hname, .method (isHook_hook _ _) rfl, .method (isNamed_hook _ _) rfl,
      hfirst, hsecond, .method (isNamed_hook _ _) rfl, .method (isNamed_hook _ _) rfl, .refl _⟩
  | buff r =>
    obtain ⟨nameCode, hname⟩ := exists_setsText "get_DisplayName" r.name
    obtain ⟨tipCode, htip⟩ := exists_setsText "get_Description" r.tip
    exact ⟨⟨r.typeName, r.namespaceName, [], [_], { buff := true }⟩, rfl, rfl, rfl, nameCode, tipCode,
      _, hname, htip, isHook_hook _ _, rfl, rfl⟩
  | chat r =>
    obtain ⟨code, hcode⟩ := exists_sendsMessages r.contents
    exact ⟨⟨r.typeName, r.namespaceName, [], [hook r.method code], {}⟩, rfl, rfl, rfl, code, _, hcode,
      rfl, rfl, rfl⟩
  | tile r =>
    obtain ⟨code, hcode⟩ := exists_setsAnyText r.name
    exact ⟨⟨r.typeName, r.namespaceName, [], [_], { tile := true }⟩, rfl, rfl, rfl, code, _, hcode,
      isHook_hook _ _, rfl, rfl⟩
  | custom r =>
    obtain ⟨code, hcode⟩ := exists_registers r.key r.value
    exact ⟨⟨"", r.namespaceName, [], [hook "" code], {}⟩, rfl, rfl, code, _, hcode, rfl, rfl⟩

end IdiomCode

end ModText
