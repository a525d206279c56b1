import ModText.Extraction

/-!
# The code that is looked into

A record whose type has at most one of it takes its texts from methods that are looked up by name. If
there is no such method, or if it has no body, then there is no code to take a text from, and it is as
if the code were empty. So every field of such a record is what one scan finds in one stream.
-/

namespace ModText

/-- The code of the first method of that name, whatever its signature; none without such a method or
without its body. -/
def TypeDef.methodCode (t : TypeDef) (name : String) : List Instruction :=
  ((t.methods.find? fun m => m.name = name).bind (·.body)).elim [] (·.instructions)

/-- The code of the first instance method of that name that has neither parameters nor a result; none
without such a method or without its body. -/
def TypeDef.hookCode (t : TypeDef) (name : String) : List Instruction :=
  ((t.methods.find? fun m => m.name = name ∧ m.isInstance ∧ m.parameterCount = 0 ∧
    m.returnsVoid).bind (·.body)).elim [] (·.instructions)

theorem getD_map_nil {α : Type} (find : List Instruction → List α) (hfind : find [] = [])
    (code : Option (List Instruction)) : (code.map find).getD [] = find (code.getD []) := by
  cases code with
  | none => exact hfind.symm
  | some => rfl

theorem bind_nil {α : Type} (find : List Instruction → Option α) (hfind : find [] = none)
    (code : Option (List Instruction)) : code.bind find = find (code.getD []) := by
  cases code with
  | none => exact hfind.symm
  | some => rfl

theorem getD_bind_instructions? (found : Option Method) :
    (found.bind (·.instructions?)).getD [] = (found.bind (·.body)).elim [] (·.instructions) := by
  cases found with
  | none => rfl
  | some m => cases hbody : m.body <;> simp [Method.instructions?, hbody]

namespace TypeDef

variable (t : TypeDef) (name : String)

theorem getD_methodCode? : (t.methodCode? name).getD [] = t.methodCode name := by
  have hkind : Method.isNamed name = fun m => decide (m.name = name) := rfl
  rw [methodCode?, getD_bind_instructions?, method?, methodCode, hkind]

theorem getD_hookCode? : (t.hookCode? name).getD [] = t.hookCode name := by
  have hkind : Method.isHook name = fun m => decide (m.name = name ∧ m.isInstance ∧
      m.parameterCount = 0 ∧ m.returnsVoid) := by
    funext m
    simp [Method.isHook, Bool.decide_and, Bool.and_assoc, Bool.beq_eq_decide_eq]
  rw [hookCode?, getD_bind_instructions?, hook?, hookCode, hkind]

end TypeDef

section

variable {t : TypeDef}

theorem itemText?_eq_some {r : ItemText} : itemText? t = some r ↔ t.marks.item ∧ r =
    { typeName := t.name
      namespaceName := t.namespaceName
      name := lastWithGetter? "get_DisplayName" (defaultTexts (t.hookCode "SetStaticDefaults"))
      toolTip := lastWithGetter? "get_Tooltip" (defaultTexts (t.hookCode "SetStaticDefaults"))
      modifyTooltips := tooltipLines (t.methodCode "ModifyTooltips")
      setBonus := lastSetBonus? (t.methodCode "UpdateArmorSet") } := by
  rw [itemText?]
  simp only [getD_map_nil defaultTexts rfl, getD_map_nil tooltipLines rfl, bind_nil lastSetBonus? rfl,
    TypeDef.getD_hookCode?, TypeDef.getD_methodCode?]
  split
  · rename_i hmark
    simp [hmark, eq_comm]
  · rename_i hmark
    simp [hmark]

theorem npcText?_eq_some {r : NpcText} : npcText? t = some r ↔ t.marks.npc ∧ r =
    { typeName := t.name
      namespaceName := t.namespaceName
      name := lastWithGetter? "get_DisplayName" (defaultTexts (t.hookCode "SetStaticDefaults"))
      chatTexts := stringLiterals (t.methodCode "GetChat")
      shopButton1 := lastArgumentText? 1 (t.methodCode "SetChatButtons")
      shopButton2 := lastArgumentText? 2 (t.methodCode "SetChatButtons")
      townNpcNames := stringLiterals (t.methodCode "TownNPCName") } := by
  rw [npcText?]
  simp only [getD_map_nil defaultTexts rfl, getD_map_nil stringLiterals rfl,
    bind_nil (lastArgumentText? _) rfl, TypeDef.getD_hookCode?, TypeDef.getD_methodCode?]
  split
  · rename_i hmark
    simp [hmark, eq_comm]
  · rename_i hmark
    simp [hmark]

/-- A buff has no record without the code of its hook. -/
theorem eq_of_buffText? {r : BuffText} (h : buffText? t = some r) : r =
    { typeName := t.name
      namespaceName := t.namespaceName
      name := lastWithGetter? "get_DisplayName" (defaultTexts (t.hookCode "SetDefaults"))
      tip := lastWithGetter? "get_Description" (defaultTexts (t.hookCode "SetDefaults")) } := by
  rw [buffText?] at h
  split at h
  · obtain ⟨code, hcode, rfl⟩ := Option.map_eq_some_iff.1 h
    rw [← TypeDef.getD_hookCode?, hcode, Option.getD_some]
  · cases h

/-- A tile has no record without the code of its hook. -/
theorem eq_of_tileText? {r : TileText} (h : tileText? t = some r) : r =
    { typeName := t.name
      namespaceName := t.namespaceName
      name := (defaultTexts (t.hookCode "SetDefaults")).getLast?.map (·.value) } := by
  rw [tileText?] at h
  split at h
  · obtain ⟨code, hcode, rfl⟩ := Option.map_eq_some_iff.1 h
    rw [← TypeDef.getD_hookCode?, hcode, Option.getD_some]
  · cases h

end

end ModText
