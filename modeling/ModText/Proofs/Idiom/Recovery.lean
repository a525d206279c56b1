import Mathlib.Data.List.Forall2
import ModText.Proofs.Idiom.Lookup
import ModText.Proofs.Idiom.Units
import ModText.Proofs.Extraction.Selection

/-!
# Records are recovered from the code that carries them

Every idiom is looked for in every type, so two things have to be shown of code that carries a record:
the idiom of its category finds the record, and the others find nothing. For the second, the marks of
the type keep four of the idioms away, and the two that look into all methods meet only instructions
that are quiet.
-/

namespace ModText

namespace IdiomCode

/-! ## Looking methods up -/

theorem find?_eq_some_of_perm {kind : Method → Bool} {methods others : List Method} {m : Method}
    (hperm : methods.Perm (m :: others)) (hkind : kind m) (hothers : ∀ o ∈ others, kind o = false) :
    methods.find? kind = some m := by
  have hmem : m ∈ methods := hperm.mem_iff.2 List.mem_cons_self
  obtain ⟨found, hfound⟩ := Option.isSome_iff_exists.1 (List.find?_isSome.2 ⟨m, hmem, hkind⟩)
  rcases List.mem_cons.1 (hperm.mem_iff.1 (List.mem_of_find?_eq_some hfound)) with rfl | hother
  · exact hfound
  · simpa [hothers found hother] using List.find?_some hfound

/-- The code of the method that is looked up is the code that is offered. -/
theorem Offers.lookup_eq {kind : Method → Bool} {code : List Instruction}
    {offered methods : List Method} (h : Offers kind code offered) (others : List Method)
    (hperm : methods.Perm (offered ++ others)) (hothers : ∀ o ∈ others, kind o = false) :
    ((methods.find? kind).bind (·.instructions?)).getD [] = code := by
  cases h with
  | method hkind hbody =>
    rw [find?_eq_some_of_perm hperm hkind hothers, Option.bind_some, hbody, Option.getD_some]
  | nothing hcode =>
    have hnone : methods.find? kind = none :=
      List.find?_eq_none.2 fun m hm => by simp [hothers m (hperm.mem_iff.1 hm)]
    rw [hnone, hcode]
    rfl

/-- Methods that are offered under one name are not of a kind that goes by another. -/
theorem Offers.kind_eq_false {kind other : Method → Bool} {code : List Instruction}
    {methods : List Method} {name name' : String} (h : Offers kind code methods)
    (hkind : ∀ m, kind m → m.name = name) (hother : ∀ m, other m → m.name = name')
    (hne : name ≠ name') : ∀ m ∈ methods, other m = false := by
  cases h with
  | @method m hm _ =>
    rw [List.forall_mem_singleton, ← Bool.not_eq_true]
    exact fun hm' => hne ((hkind m hm).symm.trans (hother m hm'))
  | nothing => simp

theorem name_of_isHook {name : String} (m : Method) (h : m.isHook name) : m.name = name := by
  simp only [Method.isHook, Bool.and_eq_true, beq_iff_eq] at h
  exact h.1.1.1

theorem name_of_isNamed {name : String} (m : Method) (h : m.isNamed name) : m.name = name :=
  eq_of_beq h

/-! ## Records -/

theorem OfItem.records {r : ItemText} {t : TypeDef} (h : OfItem r t) (c : Category) :
    t.records c = if c = .items then [.item r] else [] := by
  obtain ⟨hmarks, hname, hspace, nameCode, tipCode, lineCode, bonusCode, statics, lines, armor,
    hnameCode, htipCode, hstatics, hlineCode, hlines, hbonusCode, harmor, hperm⟩ := h
  have hquiet : ∀ m ∈ t.methods, m.Quiet := by
    intro m hm
    have hparts := hperm.mem_iff.1 hm
    simp only [List.mem_append] at hparts
    rcases hparts with (hm | hm) | hm
    · refine hstatics.quiet (List.forall_mem_append.2 ⟨?_, ?_⟩) m hm
      · exact hnameCode.quiet (by decide) (by decide)
      · exact htipCode.quiet (by decide) (by decide)
    · exact hlines.quiet hlineCode.quiet m hm
    · exact harmor.quiet hbonusCode.quiet m hm
  have hstaticsCode : (t.hookCode? "SetStaticDefaults").getD [] = nameCode ++ tipCode := by
    refine hstatics.lookup_eq (lines ++ armor) (by simpa using hperm) (List.forall_mem_append.2 ⟨?_, ?_⟩)
    · exact hlines.kind_eq_false name_of_isNamed name_of_isHook (by decide)
    · exact harmor.kind_eq_false name_of_isNamed name_of_isHook (by decide)
  have hlinesCode : (t.methodCode? "ModifyTooltips").getD [] = lineCode := by
    refine hlines.lookup_eq (statics ++ armor) (hperm.trans ?_)
      (List.forall_mem_append.2 ⟨?_, ?_⟩)
    · rw [← List.append_assoc]
      exact List.perm_append_comm.append_right armor
    · exact hstatics.kind_eq_false name_of_isHook name_of_isNamed (by decide)
    · exact harmor.kind_eq_false name_of_isNamed name_of_isNamed (by decide)
  have harmorCode : (t.methodCode? "UpdateArmorSet").getD [] = bonusCode := by
    refine harmor.lookup_eq _ (hperm.trans List.perm_append_comm) (List.forall_mem_append.2 ⟨?_, ?_⟩)
    · exact hstatics.kind_eq_false name_of_isHook name_of_isNamed (by decide)
    · exact hlines.kind_eq_false name_of_isNamed name_of_isNamed (by decide)
  have hitem : itemText? t = some r := by
    rw [itemText?, if_pos (by rw [hmarks])]
    simp only [getD_map_nil defaultTexts rfl, getD_map_nil tooltipLines rfl,
      bind_nil lastSetBonus? rfl, hstaticsCode, hlinesCode, harmorCode,
      defaultTexts_of_setsText_append hnameCode htipCode, tooltipLines_of_tooltipLines hlineCode,
      lastSetBonus?_of_setsBonus hbonusCode, hname, hspace]
    rw [lastWithGetter?_append_left (by decide), lastWithGetter?_append_right (by decide)]
  cases c <;> simp [TypeDef.records, hitem, npcText?, buffText?, tileText?, hmarks,
    chatTexts_eq_nil hquiet, customTexts_eq_nil hquiet]

theorem OfNpc.records {r : NpcText} {t : TypeDef} (h : OfNpc r t) (c : Category) :
    t.records c = if c = .npcs then [.npc r] else [] := by
  obtain ⟨hmarks, hname, hspace, nameCode, firstCode, secondCode, statics, chat, buttons, names,
    hnameCode, hstatics, hchat, hfirst, hsecond, hbuttons, hnames, hperm⟩ := h
  simp only [List.append_assoc] at hperm
  have hquiet : ∀ m ∈ t.methods, m.Quiet := by
    intro m hm
    have hparts := hperm.mem_iff.1 hm
    simp only [List.mem_append] at hparts
    rcases hparts with hm | hm | hm | hm
    · exact hstatics.quiet (hnameCode.quiet (by decide) (by decide)) m hm
    · exact hchat.quiet (quiet_map_pushString _) m hm
    · exact hbuttons.quiet (List.forall_mem_append.2 ⟨hfirst.quiet, hsecond.quiet⟩) m hm
    · exact hnames.quiet (quiet_map_pushString _) m hm
  have hstaticsCode : (t.hookCode? "SetStaticDefaults").getD [] = nameCode := by
    apply hstatics.lookup_eq _ hperm
    simp only [List.forall_mem_append]
    exact ⟨hchat.kind_eq_false name_of_isNamed name_of_isHook (by decide),
      hbuttons.kind_eq_false name_of_isNamed name_of_isHook (by decide),
      hnames.kind_eq_false name_of_isNamed name_of_isHook (by decide)⟩
  have hchatCode : (t.methodCode? "GetChat").getD [] = r.chatTexts.map .pushString := by
    apply hchat.lookup_eq _ (hperm.trans (List.perm_append_comm_assoc _ _ _))
    simp only [List.forall_mem_append]
    exact ⟨hstatics.kind_eq_false name_of_isHook name_of_isNamed (by decide),
      hbuttons.kind_eq_false name_of_isNamed name_of_isNamed (by decide),
      hnames.kind_eq_false name_of_isNamed name_of_isNamed (by decide)⟩
  have hbuttonsCode : (t.methodCode? "SetChatButtons").getD [] = firstCode ++ secondCode := by
    refine hbuttons.lookup_eq (statics ++ (chat ++ names)) ?_ ?_
    · refine hperm.trans (((List.perm_append_comm_assoc chat buttons names).append_left statics).trans ?_)
      exact List.perm_append_comm_assoc _ _ _
    · simp only [List.forall_mem_append]
      exact ⟨hstatics.kind_eq_false name_of_isHook name_of_isNamed (by decide),
        hchat.kind_eq_false name_of_isNamed name_of_isNamed (by decide),
        hnames.kind_eq_false name_of_isNamed name_of_isNamed (by decide)⟩
  have hnamesCode : (t.methodCode? "TownNPCName").getD [] = r.townNpcNames.map .pushString := by
    refine hnames.lookup_eq (statics ++ (chat ++ buttons)) ?_ ?_
    · refine hperm.trans (List.Perm.trans ?_ List.perm_append_comm)
      simp
    · simp only [List.forall_mem_append]
      exact ⟨hstatics.kind_eq_false name_of_isHook name_of_isNamed (by decide),
        hchat.kind_eq_false name_of_isNamed name_of_isNamed (by decide),
        hbuttons.kind_eq_false name_of_isNamed name_of_isNamed (by decide)⟩
  obtain ⟨hbutton, hbutton'⟩ := lastArgumentText?_of_namesButton (by decide) hfirst hsecond
  have hnpc : npcText? t = some r := by
    rw [npcText?, if_pos (by rw [hmarks])]
    simp only [getD_map_nil defaultTexts rfl, getD_map_nil stringLiterals rfl,
      bind_nil (lastArgumentText? 1) rfl, bind_nil (lastArgumentText? 2) rfl,
      hstaticsCode, hchatCode, hbuttonsCode, hnamesCode, defaultTexts_of_setsText hnameCode,
      stringLiterals_map_pushString, hbutton, hbutton', lastWithGetter?_defaultTextOf, hname, hspace]
  cases c <;> simp [TypeDef.records, hnpc, itemText?, buffText?, tileText?, hmarks,
    chatTexts_eq_nil hquiet, customTexts_eq_nil hquiet]

/-- A type with one method has the code of that method as the code of a hook that it is. -/
theorem hookCode?_of_singleton {t : TypeDef} {m : Method} {name : String}
    (hmethods : t.methods = [m]) (hhook : m.isHook name) : t.hookCode? name = m.instructions? := by
  simp [TypeDef.hookCode?, TypeDef.hook?, hmethods, hhook]

theorem quiet_of_singleton {t : TypeDef} {m : Method} {code : List Instruction}
    (hmethods : t.methods = [m]) (hbody : m.instructions? = some code)
    (hcode : ∀ i ∈ code, i.Quiet) : ∀ m ∈ t.methods, m.Quiet := by
  rw [hmethods, List.forall_mem_singleton]
  rintro _ hsome
  rw [hbody, Option.some.injEq] at hsome
  exact hsome ▸ hcode

theorem OfBuff.records {r : BuffText} {t : TypeDef} (h : OfBuff r t) (c : Category) :
    t.records c = if c = .buffs then [.buff r] else [] := by
  obtain ⟨hmarks, hname, hspace, nameCode, tipCode, m, hnameCode, htipCode, hhook, hbody, hmethods⟩ := h
  have hquiet := quiet_of_singleton hmethods hbody (List.forall_mem_append.2
    ⟨hnameCode.quiet (by decide) (by decide), htipCode.quiet (by decide) (by decide)⟩)
  have hbuff : buffText? t = some r := by
    rw [buffText?, if_pos (by rw [hmarks]), hookCode?_of_singleton hmethods hhook, hbody,
      Option.map_some, defaultTexts_of_setsText_append hnameCode htipCode]
    simp only
    rw [lastWithGetter?_append_left (by decide), lastWithGetter?_append_right (by decide), hname, hspace]
  cases c <;> simp [TypeDef.records, hbuff, itemText?, npcText?, tileText?, hmarks,
    chatTexts_eq_nil hquiet, customTexts_eq_nil hquiet]

theorem OfTile.records {r : TileText} {t : TypeDef} (h : OfTile r t) (c : Category) :
    t.records c = if c = .tiles then [.tile r] else [] := by
  obtain ⟨hmarks, hname, hspace, code, m, hcode, hhook, hbody, hmethods⟩ := h
  have hquiet := quiet_of_singleton hmethods hbody hcode.quiet
  have htile : tileText? t = some r := by
    rw [tileText?, if_pos (by rw [hmarks]), hookCode?_of_singleton hmethods hhook, hbody,
      Option.map_some, ← List.getLast?_map, defaultTexts_of_setsAnyText hcode, hname, hspace]
    cases r with
    | mk typeName namespaceName name => cases name <;> rfl
  cases c <;> simp [TypeDef.records, htile, itemText?, npcText?, buffText?, hmarks,
    chatTexts_eq_nil hquiet, customTexts_eq_nil hquiet]

theorem OfChat.records {r : ChatText} {t : TypeDef} (h : OfChat r t) (hcontents : r.contents ≠ [])
    (c : Category) : t.records c = if c = .misc then [.chat r] else [] := by
  obtain ⟨hmarks, hname, hspace, code, m, hcode, hmethod, hbody, hmethods⟩ := h
  have hchat : chatTexts t = [r] := by
    simp [chatTexts, hmethods, chatText?, hbody, messages_of_sendsMessages hcode, hcontents, hname,
      hspace, hmethod]
  have hcustom : customTexts t = [] := by
    simp [customTexts, TypeDef.bodies, hmethods, hbody, hcode.registrations_eq_nil]
  cases c <;> simp [TypeDef.records, hchat, hcustom, itemText?, npcText?, buffText?, tileText?, hmarks]

theorem OfCustom.records {r : CustomText} {t : TypeDef} (h : OfCustom r t) (c : Category) :
    t.records c = if c = .customs then [.custom r] else [] := by
  obtain ⟨hmarks, hspace, code, m, hcode, hbody, hmethods⟩ := h
  have hchat : chatTexts t = [] := by
    simp [chatTexts, hmethods, chatText?, hbody, hcode.messages_eq_nil]
  have hcustom : customTexts t = [r] := by
    simp [customTexts, TypeDef.bodies, hmethods, hbody, registrations_of_registers hcode, hspace]
  cases c <;> simp [TypeDef.records, hchat, hcustom, itemText?, npcText?, buffText?, tileText?, hmarks]

theorem Carries.records {r : Record} {t : TypeDef} (h : Carries r t)
    (hcontents : ∀ chat, r = .chat chat → chat.contents ≠ []) (c : Category) :
    t.records c = if c = categoryOf r then [r] else [] := by
  cases r with
  | item => exact OfItem.records h c
  | npc => exact OfNpc.records h c
  | buff => exact OfBuff.records h c
  | chat r => exact OfChat.records h (hcontents r rfl) c
  | tile => exact OfTile.records h c
  | custom => exact OfCustom.records h c

end IdiomCode

/-! ## Modules -/

namespace Module

/-- Whatever records are put into code by the book, there is such code for them, and extraction gets
exactly these records out of it, each category in the order of its records. -/
theorem extract_recovers_records (records : List Record)
    (hcontents : ∀ r, Record.chat r ∈ records → r.contents ≠ []) :
    (∃ types, List.Forall₂ IdiomCode.Carries records types) ∧
    ∀ types, List.Forall₂ IdiomCode.Carries records types → ∀ c : Category,
      ((⟨types⟩ : Module).extract Category.all).records c =
        records.filter (categoryOf · = c) := by
  constructor
  · clear hcontents
    induction records with
    | nil => exact ⟨[], .nil⟩
    | cons r records ih =>
      obtain ⟨types, htypes⟩ := ih
      obtain ⟨t, ht⟩ := IdiomCode.exists_carries r
      exact ⟨t :: types, .cons ht htypes⟩
  · intro types htypes c
    have hall : Category.all.contains c = true := by cases c <;> rfl
    rw [records_extract, if_pos hall]
    induction htypes with
    | nil => rfl
    | @cons r t records types hcarries _ ih =>
      have hr := hcarries.records fun chat hchat => hcontents chat (hchat ▸ List.mem_cons_self)
      rw [List.flatMap_cons, hr, ih fun chat hchat => hcontents chat (List.mem_cons_of_mem _ hchat)]
      by_cases hc : categoryOf r = c
      · simp [hc]
      · simp [hc, Ne.symm hc]

/-- An item whose tooltip is put together from a text and an element of an array, and a boss that
speaks. -/
theorem extract_recovers_sword_and_boss :
    (∀ r, Record.chat r ∈ [Record.item ⟨"Sword", "Mod.Items", some "Sword", none, ["Damage: "], none⟩,
        .chat ⟨"Boss", "Mod", "Fight", ["Run!"]⟩] → r.contents ≠ []) ∧
    ∀ c : Category, ((⟨[
        ⟨"Sword", "Mod.Items", [], [
          IdiomCode.hook "SetStaticDefaults" [.call ⟨"ModItem", "get_DisplayName", 0⟩,
            .pushString "Sword", .callVirtual ⟨"ModTranslation", "SetDefault", 1⟩],
          IdiomCode.hook "ModifyTooltips" [.pushString "Damage: ", .loadLocal 0, .loadElement,
            .call ⟨"String", "Concat", 1⟩, .newObject ⟨"Terraria.ModLoader.TooltipLine", ".ctor", 2⟩]],
          { item := true }⟩,
        ⟨"Boss", "Mod", [], [IdiomCode.hook "Fight" [.pushString "Run!", .other, .other, .other, .other,
          .call ⟨"Main", "NewText", 5⟩]], {}⟩]⟩ : Module).extract Category.all).records c =
      [Record.item ⟨"Sword", "Mod.Items", some "Sword", none, ["Damage: "], none⟩,
        .chat ⟨"Boss", "Mod", "Fight", ["Run!"]⟩].filter (categoryOf · = c) := by
  have hcontents : ∀ r, Record.chat r ∈ [Record.item ⟨"Sword", "Mod.Items", some "Sword", none,
      ["Damage: "], none⟩, .chat ⟨"Boss", "Mod", "Fight", ["Run!"]⟩] → r.contents ≠ [] := by
    simp
  refine ⟨hcontents, (extract_recovers_records _ hcontents).2 _ (.cons ?_ (.cons ?_ .nil))⟩
  · exact ⟨rfl, rfl, rfl, _, _, _, _, _, _, [], .present (by decide) (by decide), .absent,
      .method (by decide) rfl, .cons (.concat (.element .nil) rfl rfl rfl (by decide) (by decide)) .nil,
      .method (by decide) rfl, .absent, .nothing rfl, .refl _⟩
  · exact ⟨rfl, rfl, rfl, _, _, @IdiomCode.SendsMessages.cons _ _ [.other, .other, .other, .other] _ _
      rfl (fun i hi => List.eq_of_mem_replicate (n := 4) hi ▸ ⟨rfl, rfl⟩) (by decide) .nil,
      rfl, rfl, rfl⟩

end Module

end ModText
