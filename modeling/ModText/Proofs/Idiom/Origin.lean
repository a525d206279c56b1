import ModText.Proofs.Extraction.Selection
import ModText.Proofs.Idiom.Quiet

/-!
# Where the texts of a record come from

Extraction makes up no text. Every text of a record is pushed by an instruction of one type, the one
that the record names, and in the method that its category looks into. The idioms look at sites, and a
site is a cut through a stream, so whatever is found beside a site is in the stream; the scans that go
on from a site only ever move on in what the cut left over.
-/

namespace ModText

/-- The first method of the kind has code, and the code pushes the text. -/
def TypeDef.Pushes (t : TypeDef) (kind : Method → Bool) (text : String) : Prop :=
  ∃ m code, t.methods.find? kind = some m ∧ m.instructions? = some code ∧ .pushString text ∈ code

/-- The record carries the names of the type, and all its texts are pushed there: each by the method
in which its category looks for it, and a key in front of its text. -/
def Record.DrawnFrom (t : TypeDef) : Record → Prop
  | .item r => r.typeName = t.name ∧ r.namespaceName = t.namespaceName ∧
    (∀ text ∈ r.name, t.Pushes (·.isHook "SetStaticDefaults") text) ∧
    (∀ text ∈ r.toolTip, t.Pushes (·.isHook "SetStaticDefaults") text) ∧
    (∀ text ∈ r.modifyTooltips, t.Pushes (·.isNamed "ModifyTooltips") text) ∧
    ∀ text ∈ r.setBonus, t.Pushes (·.isNamed "UpdateArmorSet") text
  | .npc r => r.typeName = t.name ∧ r.namespaceName = t.namespaceName ∧
    (∀ text ∈ r.name, t.Pushes (·.isHook "SetStaticDefaults") text) ∧
    (∀ text ∈ r.chatTexts, t.Pushes (·.isNamed "GetChat") text) ∧
    (∀ text ∈ r.shopButton1, t.Pushes (·.isNamed "SetChatButtons") text) ∧
    (∀ text ∈ r.shopButton2, t.Pushes (·.isNamed "SetChatButtons") text) ∧
    ∀ text ∈ r.townNpcNames, t.Pushes (·.isNamed "TownNPCName") text
  | .buff r => r.typeName = t.name ∧ r.namespaceName = t.namespaceName ∧
    (∀ text ∈ r.name, t.Pushes (·.isHook "SetDefaults") text) ∧
    ∀ text ∈ r.tip, t.Pushes (·.isHook "SetDefaults") text
  | .chat r => r.typeName = t.name ∧ r.namespaceName = t.namespaceName ∧
    ∃ m ∈ t.methods, m.name = r.method ∧ ∃ code, m.instructions? = some code ∧
      ∀ text ∈ r.contents, .pushString text ∈ code
  | .tile r => r.typeName = t.name ∧ r.namespaceName = t.namespaceName ∧
    ∀ text ∈ r.name, t.Pushes (·.isHook "SetDefaults") text
  | .custom r => r.namespaceName = t.namespaceName ∧
    ∃ m ∈ t.methods, ∃ code, m.instructions? = some code ∧
      [.pushString r.key, .pushString r.value].Sublist code

/-! ## What a site shows is in the stream -/

theorem Instruction.eq_pushString {i : Instruction} {text : String} (h : i.string? = some text) :
    i = .pushString text := by
  cases i <;> simp_all [string?]

namespace Site

theorem eq_of_mem_sitesFrom {before code : List Instruction} {s : Site}
    (h : s ∈ sitesFrom before code) :
    before.reverse ++ code = s.before.reverse ++ s.here :: s.after := by
  induction code generalizing before with
  | nil => cases h
  | cons i rest ih =>
    rcases List.mem_cons.1 h with rfl | h
    · rfl
    · simpa using ih h

theorem eq_of_mem_sites {code : List Instruction} {s : Site} (h : s ∈ sites code) :
    code = s.before.reverse ++ s.here :: s.after :=
  eq_of_mem_sitesFrom h

theorem mem_of_mem_before {code : List Instruction} {s : Site} (h : s ∈ sites code)
    {i : Instruction} (hi : i ∈ s.before) : i ∈ code := by
  rw [eq_of_mem_sites h]
  exact List.mem_append_left _ (List.mem_reverse.2 hi)

theorem pushString_mem_of_here {code : List Instruction} {s : Site} (h : s ∈ sites code)
    {text : String} (hhere : s.here.string? = some text) : .pushString text ∈ code :=
  Instruction.eq_pushString hhere ▸ here_mem_of_mem_sitesFrom h

end Site

section

variable {code : List Instruction} {text : String}

theorem pushString_mem_of_mem_defaultTexts {d : DefaultText} (h : d ∈ defaultTexts code) :
    .pushString d.value ∈ code := by
  obtain ⟨s, hs, hd⟩ := List.mem_filterMap.1 h
  rw [Site.defaultText?] at hd
  split at hd
  · cases hd
  · rename_i value hvalue
    split at hd
    · obtain rfl := Option.some.inj hd
      exact Site.pushString_mem_of_here hs hvalue
    · cases hd

theorem pushString_mem_of_lastWithGetter? {getter : String}
    (h : lastWithGetter? getter (defaultTexts code) = some text) : .pushString text ∈ code := by
  obtain ⟨d, hd, rfl⟩ := Option.map_eq_some_iff.1 h
  exact pushString_mem_of_mem_defaultTexts (List.mem_filter.1 (List.mem_of_getLast? hd)).1

theorem pushString_mem_of_mem_stringLiterals (h : text ∈ stringLiterals code) :
    .pushString text ∈ code := by
  obtain ⟨i, hi, htext⟩ := List.mem_filterMap.1 h
  exact Instruction.eq_pushString htext ▸ hi

/-- A walk over operands takes in no text but those it walks over. -/
theorem mem_operandTexts {found : List String} {n : Nat} (h : text ∈ operandTexts found code n) :
    text ∈ found ∨ .pushString text ∈ code := by
  induction code generalizing found n with
  | nil => cases n <;> exact Or.inl h
  | cons i rest ih =>
    cases n with
    | zero => exact Or.inl h
    | succ n =>
      rw [operandTexts] at h
      split at h
      · rename_i value hvalue
        rcases ih h with hfound | hrest
        · rcases List.mem_cons.1 hfound with rfl | hfound
          · exact Or.inr (Instruction.eq_pushString hvalue ▸ List.mem_cons_self)
          · exact Or.inl hfound
        · exact Or.inr (List.mem_cons_of_mem i hrest)
      · exact (ih h).imp_right (List.mem_cons_of_mem i)

theorem Site.pushString_mem_of_mem_tooltipLine {s : Site} (h : text ∈ s.tooltipLine) :
    .pushString text ∈ s.before := by
  rw [Site.tooltipLine] at h
  split at h
  · split at h
    · rename_i value name rest hbefore
      rw [hbefore]
      rcases List.mem_cons.1 h with rfl | h
      · simp
      · simp [List.mem_singleton.1 h]
    · split at h
      · split at h
        · exact (mem_operandTexts h).resolve_left List.not_mem_nil
        · cases h
      · cases h
    · cases h
  · cases h

theorem pushString_mem_of_mem_tooltipLines (h : text ∈ tooltipLines code) :
    .pushString text ∈ code := by
  obtain ⟨s, hs, htext⟩ := List.mem_flatMap.1 h
  exact s.mem_of_mem_before hs (Site.pushString_mem_of_mem_tooltipLine htext)

theorem pushString_mem_of_lastSetBonus? (h : lastSetBonus? code = some text) :
    .pushString text ∈ code := by
  obtain ⟨s, hs, hbonus⟩ := List.mem_filterMap.1 (List.mem_of_getLast? h)
  rw [Site.setBonus?] at hbonus
  split at hbonus
  · cases hbonus
  · rename_i value hvalue
    split at hbonus
    · exact Site.pushString_mem_of_here hs (hvalue.trans hbonus)
    · cases hbonus

theorem pushString_mem_of_lastArgumentText? {argument : UInt16}
    (h : lastArgumentText? argument code = some text) : .pushString text ∈ code := by
  obtain ⟨s, hs, hargument⟩ := List.mem_filterMap.1 (List.mem_of_getLast? h)
  rw [Site.argumentText?] at hargument
  split at hargument
  · cases hargument
  · rename_i value hvalue
    split at hargument
    · exact Site.pushString_mem_of_here hs (hvalue.trans hargument)
    · cases hargument

theorem pushString_mem_of_mem_messages (h : text ∈ messages code) : .pushString text ∈ code := by
  obtain ⟨s, hs, hmessage⟩ := List.mem_filterMap.1 h
  rw [Site.message?] at hmessage
  split at hmessage
  · obtain ⟨i, hi, htext⟩ := Option.bind_eq_some_iff.1 hmessage
    rw [← Instruction.eq_pushString htext]
    exact s.mem_of_mem_before hs (List.mem_of_getElem? hi)
  · cases hmessage

theorem suffix_of_firstLoad? {slot : UInt16} {rest : List Instruction}
    (h : firstLoad? slot code = some rest) : rest <:+ code := by
  induction code with
  | nil => cases h
  | cons i code ih =>
    rw [firstLoad?] at h
    split at h
    · rw [← Option.some.inj h]
      exact List.suffix_cons i code
    · exact (ih h).trans (List.suffix_cons i code)

/-- The key is in front of the registering call and the text behind it. -/
theorem sublist_of_mem_registrations {key value : String} (h : (key, value) ∈ registrations code) :
    [.pushString key, .pushString value].Sublist code := by
  obtain ⟨s, hs, hpair⟩ := List.mem_filterMap.1 h
  rw [Site.registration?] at hpair
  split at hpair
  · split at hpair
    · cases hpair
    · rename_i store rest hafter
      simp only [Option.bind_eq_bind, Option.pure_def, Option.bind_eq_some_iff, Option.some.injEq,
        Prod.mk.injEq] at hpair
      obtain ⟨slot, _, key, ⟨first, hfirst, hkey⟩, used, hused, value, ⟨next, hnext, hvalue⟩,
        rfl, rfl⟩ := hpair
      rw [Instruction.eq_pushString hkey] at hfirst
      rw [Instruction.eq_pushString hvalue] at hnext
      have hfront : .pushString key ∈ s.before.reverse :=
        List.mem_reverse.2 (List.mem_of_mem_head? hfirst)
      have hbehind : .pushString value ∈ s.here :: s.after := by
        rw [hafter]
        exact List.mem_cons_of_mem _ (List.mem_cons_of_mem _
          ((suffix_of_firstLoad? hused).mem (List.mem_of_mem_head? hnext)))
      rw [Site.eq_of_mem_sites hs]
      exact (List.singleton_sublist.2 hfront).append (List.singleton_sublist.2 hbehind)
  · cases hpair

end

/-! ## Records -/

section

variable {t : TypeDef} {name text : String}

theorem TypeDef.pushes_of_hookCode? {code : List Instruction} (hcode : t.hookCode? name = some code)
    (h : .pushString text ∈ code) : t.Pushes (·.isHook name) text := by
  obtain ⟨m, hm, hbody⟩ := Option.bind_eq_some_iff.1 hcode
  exact ⟨m, code, hm, hbody, h⟩

theorem TypeDef.pushes_of_methodCode? {code : List Instruction}
    (hcode : t.methodCode? name = some code) (h : .pushString text ∈ code) :
    t.Pushes (·.isNamed name) text := by
  obtain ⟨m, hm, hbody⟩ := Option.bind_eq_some_iff.1 hcode
  exact ⟨m, code, hm, hbody, h⟩

theorem pushes_of_lastWithGetter? {getter : String}
    (h : lastWithGetter? getter (((t.hookCode? name).map defaultTexts).getD []) = some text) :
    t.Pushes (·.isHook name) text := by
  cases hcode : t.hookCode? name with
  | none => simp [hcode, lastWithGetter?] at h
  | some code =>
    rw [hcode] at h
    exact t.pushes_of_hookCode? hcode (pushString_mem_of_lastWithGetter? h)

theorem pushes_of_mem_getD {find : List Instruction → List String}
    (hfind : ∀ code, text ∈ find code → .pushString text ∈ code)
    (h : text ∈ ((t.methodCode? name).map find).getD []) : t.Pushes (·.isNamed name) text := by
  cases hcode : t.methodCode? name with
  | none => simp [hcode] at h
  | some code =>
    rw [hcode] at h
    exact t.pushes_of_methodCode? hcode (hfind code h)

theorem pushes_of_bind_eq_some {find : List Instruction → Option String}
    (hfind : ∀ code, find code = some text → .pushString text ∈ code)
    (h : (t.methodCode? name).bind find = some text) : t.Pushes (·.isNamed name) text := by
  obtain ⟨code, hcode, htext⟩ := Option.bind_eq_some_iff.1 h
  exact t.pushes_of_methodCode? hcode (hfind code htext)

theorem drawnFrom_of_itemText? {r : ItemText} (h : itemText? t = some r) :
    (Record.item r).DrawnFrom t := by
  obtain ⟨hname, hspace⟩ := owner_of_itemText? h
  rw [itemText?] at h
  split at h
  · obtain rfl := Option.some.inj h
    refine ⟨hname, hspace, ?_, ?_, ?_, ?_⟩
    · exact fun _ => pushes_of_lastWithGetter?
    · exact fun _ => pushes_of_lastWithGetter?
    · exact fun _ => pushes_of_mem_getD fun _ => pushString_mem_of_mem_tooltipLines
    · exact fun _ => pushes_of_bind_eq_some fun _ => pushString_mem_of_lastSetBonus?
  · cases h

theorem drawnFrom_of_npcText? {r : NpcText} (h : npcText? t = some r) :
    (Record.npc r).DrawnFrom t := by
  obtain ⟨hname, hspace⟩ := owner_of_npcText? h
  rw [npcText?] at h
  split at h
  · obtain rfl := Option.some.inj h
    refine ⟨hname, hspace, ?_, ?_, ?_, ?_, ?_⟩
    · exact fun _ => pushes_of_lastWithGetter?
    · exact fun _ => pushes_of_mem_getD fun _ => pushString_mem_of_mem_stringLiterals
    · exact fun _ => pushes_of_bind_eq_some fun _ => pushString_mem_of_lastArgumentText?
    · exact fun _ => pushes_of_bind_eq_some fun _ => pushString_mem_of_lastArgumentText?
    · exact fun _ => pushes_of_mem_getD fun _ => pushString_mem_of_mem_stringLiterals
  · cases h

theorem drawnFrom_of_buffText? {r : BuffText} (h : buffText? t = some r) :
    (Record.buff r).DrawnFrom t := by
  obtain ⟨hname, hspace⟩ := owner_of_buffText? h
  rw [buffText?] at h
  split at h
  · obtain ⟨code, hcode, rfl⟩ := Option.map_eq_some_iff.1 h
    refine ⟨hname, hspace, ?_, ?_⟩
    · exact fun _ htext => t.pushes_of_hookCode? hcode (pushString_mem_of_lastWithGetter? htext)
    · exact fun _ htext => t.pushes_of_hookCode? hcode (pushString_mem_of_lastWithGetter? htext)
  · cases h

theorem drawnFrom_of_tileText? {r : TileText} (h : tileText? t = some r) :
    (Record.tile r).DrawnFrom t := by
  obtain ⟨hname, hspace⟩ := owner_of_tileText? h
  rw [tileText?] at h
  split at h
  · obtain ⟨code, hcode, rfl⟩ := Option.map_eq_some_iff.1 h
    refine ⟨hname, hspace, fun text htext => ?_⟩
    obtain ⟨d, hd, rfl⟩ := Option.map_eq_some_iff.1 htext
    exact t.pushes_of_hookCode? hcode (pushString_mem_of_mem_defaultTexts (List.mem_of_getLast? hd))
  · cases h

theorem drawnFrom_of_mem_chatTexts {r : ChatText} (h : r ∈ chatTexts t) :
    (Record.chat r).DrawnFrom t := by
  obtain ⟨hname, hspace⟩ := owner_of_mem_chatTexts h
  obtain ⟨m, hm, hchat⟩ := List.mem_filterMap.1 h
  refine ⟨hname, hspace, m, hm, ?_⟩
  rw [chatText?] at hchat
  split at hchat
  · cases hchat
  · rename_i code hcode
    split at hchat
    · cases hchat
    · obtain rfl := Option.some.inj hchat
      exact ⟨rfl, code, hcode, fun _ => pushString_mem_of_mem_messages⟩

theorem drawnFrom_of_mem_customTexts {r : CustomText} (h : r ∈ customTexts t) :
    (Record.custom r).DrawnFrom t := by
  obtain ⟨⟨key, value⟩, hpair, rfl⟩ := List.mem_map.1 h
  obtain ⟨code, hcode, hpair⟩ := List.mem_flatMap.1 hpair
  obtain ⟨m, hm, hbody⟩ := List.mem_filterMap.1 hcode
  exact ⟨rfl, m, hm, code, hbody, sublist_of_mem_registrations hpair⟩

theorem TypeDef.drawnFrom_of_mem_records {c : Category} {r : Record} (h : r ∈ t.records c) :
    r.DrawnFrom t := by
  cases c with
  | items =>
    obtain ⟨s, hs, rfl⟩ := by simpa [TypeDef.records] using h
    exact drawnFrom_of_itemText? hs
  | npcs =>
    obtain ⟨s, hs, rfl⟩ := by simpa [TypeDef.records] using h
    exact drawnFrom_of_npcText? hs
  | buffs =>
    obtain ⟨s, hs, rfl⟩ := by simpa [TypeDef.records] using h
    exact drawnFrom_of_buffText? hs
  | misc =>
    obtain ⟨s, hs, rfl⟩ := List.mem_map.1 h
    exact drawnFrom_of_mem_chatTexts hs
  | tiles =>
    obtain ⟨s, hs, rfl⟩ := by simpa [TypeDef.records] using h
    exact drawnFrom_of_tileText? hs
  | customs =>
    obtain ⟨s, hs, rfl⟩ := List.mem_map.1 h
    exact drawnFrom_of_mem_customTexts hs

end

namespace Module

/-- **No text is invented.** Whatever is extracted from a module is drawn from one of its types. -/
theorem extract_invents_no_text (m : Module) (selection : List Category) (c : Category) (r : Record)
    (h : r ∈ (m.extract selection).records c) : ∃ t ∈ m.types, r.DrawnFrom t := by
  rw [records_extract] at h
  split at h
  · obtain ⟨t, ht, hr⟩ := List.mem_flatMap.1 h
    exact ⟨t, ht, t.drawnFrom_of_mem_records hr⟩
  · cases h

/-- A text that is registered behind a loop back to its own local. -/
theorem extract_invents_no_greeting :
    let code : Method :=
      { name := "Load"
        body := some { instructions := [.loadLocal 0, .pushString "Greeting",
          .callVirtual ⟨"Mod", "CreateTranslation", 1⟩, .storeLocal 0, .other, .loadLocal 0,
          .pushString "Hello"] } }
    let m : Module := { types := [{ name := "Other", namespaceName := "Mod" },
      { name := "Texts", namespaceName := "Mod", methods := [code] }] }
    Record.custom ⟨"Greeting", "Mod", "Hello"⟩ ∈ (m.extract [.customs]).records .customs ∧
      ∃ t ∈ m.types, (Record.custom ⟨"Greeting", "Mod", "Hello"⟩).DrawnFrom t := by
  intro code m
  have hfound : Record.custom ⟨"Greeting", "Mod", "Hello"⟩ ∈
      (m.extract [.customs]).records .customs := by decide +kernel
  exact ⟨hfound, extract_invents_no_text m _ _ _ hfound⟩

end Module

end ModText
