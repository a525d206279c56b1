import ModText.Proofs.Idiom.Lookup
import ModText.Proofs.Idiom.Positions
import Mathlib.Order.Bounds.Basic

/-!
# The last text of a kind

A field that holds one text holds the last that is found for it: later code overrides what was set
before. Where the text stands is told by what is next to it, so each of these fields goes by a kind of
position, and holds the text at the greatest position of that kind.
-/

namespace ModText

/-! ## Kinds of positions -/

/-- What is pushed at the position is made the default of a text object. -/
def SetAsDefault (code : List Instruction) (i : Nat) : Prop :=
  ∃ m, CallsAt code (i + 1) m ∧ m.name = "SetDefault" ∧ m.simpleTypeName = "ModTranslation"

/-- What is pushed at the position is made the default of the text object that the getter gets. -/
def SetOn (getter : String) (code : List Instruction) (i : Nat) : Prop :=
  SetAsDefault code i ∧ ∃ m, CallsAt code (i - 1) m ∧ m.name = getter

/-- What is pushed at the position is stored into the field. -/
def StoredIn (field : String) (code : List Instruction) (i : Nat) : Prop :=
  ∃ m, instructionAt? code (i + 1) = some (.storeField m) ∧ m.name = field

/-- What is pushed at the position goes to the argument that is loaded in front of it. -/
def GivenTo (argument : UInt16) (code : List Instruction) (i : Nat) : Prop :=
  instructionAt? code (i - 1) = some (.loadArgument argument)

/-- The positions of a kind at which a text is pushed. -/
def textPositions (kind : List Instruction → Nat → Prop) (code : List Instruction) : Set Nat :=
  {i | kind code i ∧ ∃ text, code[i]? = some (.pushString text)}

/-- The text at the greatest position of a kind; none if there is no text at such a position. -/
inductive LastText (kind : List Instruction → Nat → Prop) (code : List Instruction) :
    Option String → Prop
  | last {i : Nat} {text : String} : IsGreatest (textPositions kind code) i →
      code[i]? = some (.pushString text) → LastText kind code (some text)
  | none : textPositions kind code = ∅ → LastText kind code none

/-! ## What sites find -/

section

variable {code : List Instruction} {i : Nat} {s : Site} {text : String}

theorem here_eq_pushString (h : siteAt? code i = some s) :
    s.here.string? = some text ↔ code[i]? = some (.pushString text) := by
  rw [Site.here_of_siteAt? h, Option.some_inj, Instruction.string?_eq_some]

/-- What a text at a site is found by: something about its neighbours. -/
theorem guarded_eq_some {found : Option String} {neighbours : Bool} :
    (match found with
      | none => none
      | some value => if neighbours then some value else none) = some text ↔
      found = some text ∧ neighbours = true := by
  cases found with
  | none => simp
  | some value => cases neighbours <;> simp

theorem any_calls_next? (h : siteAt? code i = some s) :
    s.next?.any (·.calls textObject "SetDefault") = true ↔ SetAsDefault code i := by
  simp only [Site.next?_of_siteAt? h, Option.any_eq_true, Instruction.calls_eq_true, SetAsDefault,
    CallsAt, instructionAt?_add_one, textObject]
  constructor
  · rintro ⟨_, hnext, m, rfl | rfl, hm⟩
    · exact ⟨m, .inl hnext, hm⟩
    · exact ⟨m, .inr hnext, hm⟩
  · rintro ⟨m, hnext | hnext, hm⟩
    · exact ⟨_, hnext, m, .inl rfl, hm⟩
    · exact ⟨_, hnext, m, .inr rfl, hm⟩

theorem map_value_defaultText? (h : siteAt? code i = some s) :
    s.defaultText?.map (·.value) = some text ↔
      code[i]? = some (.pushString text) ∧ SetAsDefault code i := by
  rw [← here_eq_pushString h, ← any_calls_next? h, Site.defaultText?]
  cases s.here.string? with
  | none => simp
  | some value => by_cases hset : s.next?.any (·.calls textObject "SetDefault") = true <;> simp [hset]

/-- The default text at a site, if it comes with the given getter. -/
def Site.textOn? (getter : String) (s : Site) : Option String :=
  (s.defaultText?.filter (·.getter == some getter)).map (·.value)

theorem textOn?_eq_some {getter : String} (h : siteAt? code i = some s) :
    s.textOn? getter = some text ↔ code[i]? = some (.pushString text) ∧ SetOn getter code i := by
  have hgetter : (∃ m, CallsAt code (i - 1) m ∧ m.name = getter) ↔
      (s.previous?.bind (·.call?)).map (·.name) = some getter := by
    simp only [callsAt_iff, Site.previous?_of_siteAt? h, Option.map_eq_some_iff]
  rw [SetOn, hgetter, ← here_eq_pushString h, ← any_calls_next? h, Site.textOn?, Site.defaultText?]
  generalize (s.previous?.bind (·.call?)).map (·.name) = got
  cases s.here.string? with
  | none => simp
  | some value =>
    by_cases hset : s.next?.any (·.calls textObject "SetDefault") = true <;>
      by_cases hget : got = some getter <;> simp [hset, hget, Option.filter]

theorem setBonus?_eq_some (h : siteAt? code i = some s) :
    s.setBonus? = some text ↔ code[i]? = some (.pushString text) ∧ StoredIn "setBonus" code i := by
  have hstored : (s.next?.bind (·.fieldStore?)).any (·.name == "setBonus") = true ↔
      StoredIn "setBonus" code i := by
    simp only [Site.next?_of_siteAt? h, Option.any_eq_true, Option.bind_eq_some_iff, StoredIn,
      Instruction.fieldStore?_eq_some, beq_iff_eq, instructionAt?_add_one]
    constructor
    · rintro ⟨m, ⟨_, hnext, rfl⟩, hm⟩
      exact ⟨m, hnext, hm⟩
    · rintro ⟨m, hnext, hm⟩
      exact ⟨m, ⟨_, hnext, rfl⟩, hm⟩
  rw [← here_eq_pushString h, ← hstored]
  exact guarded_eq_some

theorem argumentText?_eq_some {argument : UInt16} (h : siteAt? code i = some s) :
    s.argumentText? argument = some text ↔
      code[i]? = some (.pushString text) ∧ GivenTo argument code i := by
  have hgiven : s.previous?.any (·.loadsArgument argument) = true ↔ GivenTo argument code i := by
    simp only [Site.previous?_of_siteAt? h, Option.any_eq_true, Instruction.loadsArgument_eq_true,
      GivenTo, exists_eq_right]
  rw [← here_eq_pushString h, ← hgiven]
  exact guarded_eq_some

end

/-! ## The last of them -/

/-- If a site finds just the texts that stand at positions of a kind, then the last that is found is
the last text of that kind. -/
theorem lastText_getLast? {kind : List Instruction → Nat → Prop} {find : Site → Option String}
    (code : List Instruction) (hfind : ∀ {i s text}, siteAt? code i = some s →
      (find s = some text ↔ code[i]? = some (.pushString text) ∧ kind code i)) :
    LastText kind code ((sites code).filterMap find).getLast? := by
  have hmem : ∀ {i text}, (i, text) ∈ findings find code ↔
      code[i]? = some (.pushString text) ∧ kind code i := by
    intro i text
    rw [mem_findings]
    constructor
    · rintro ⟨s, hs, hfound⟩
      exact (hfind hs).1 hfound
    · intro htext
      obtain ⟨s, hs⟩ := exists_siteAt? htext.1
      exact ⟨s, hs, (hfind hs).2 htext⟩
  have hsorted := pairwise_findings find code
  rw [← map_snd_findings, List.getLast?_map]
  cases hlast : (findings find code).getLast? with
  | none =>
    rw [List.getLast?_eq_none_iff] at hlast
    refine .none (Set.eq_empty_iff_forall_notMem.2 ?_)
    rintro i ⟨hkind, text, htext⟩
    have hfound := hmem.2 ⟨htext, hkind⟩
    rw [hlast] at hfound
    cases hfound
  | some found =>
    obtain ⟨i, text⟩ := found
    obtain ⟨earlier, hall⟩ := List.getLast?_eq_some_iff.1 hlast
    obtain ⟨htext, hkind⟩ := hmem.1 (hall ▸ List.mem_append_right earlier List.mem_cons_self)
    refine .last ⟨⟨hkind, text, htext⟩, ?_⟩ htext
    -- whatever else is found was found before the last one, and the findings are in order
    rintro k ⟨hkind', other, hother⟩
    have hfound := hmem.2 ⟨hother, hkind'⟩
    rw [hall, List.mem_append, List.mem_singleton] at hfound
    rcases hfound with hearlier | hlast
    · rw [hall, List.map_append, List.pairwise_append] at hsorted
      exact Nat.le_of_lt (hsorted.2.2 k (List.mem_map_of_mem hearlier) i List.mem_cons_self)
    · exact (congrArg Prod.fst hlast).le

theorem lastText_lastWithGetter? (getter : String) (code : List Instruction) :
    LastText (SetOn getter) code (lastWithGetter? getter (defaultTexts code)) := by
  have hsites : lastWithGetter? getter (defaultTexts code) =
      ((sites code).filterMap (·.textOn? getter)).getLast? := by
    rw [lastWithGetter?, defaultTexts, List.filter_filterMap, ← List.getLast?_map, List.map_filterMap]
    rfl
  rw [hsites]
  exact lastText_getLast? code textOn?_eq_some

theorem lastText_getLast?_defaultTexts (code : List Instruction) :
    LastText SetAsDefault code ((defaultTexts code).getLast?.map (·.value)) := by
  rw [defaultTexts, ← List.getLast?_map, List.map_filterMap]
  exact lastText_getLast? code map_value_defaultText?

theorem lastText_lastSetBonus? (code : List Instruction) :
    LastText (StoredIn "setBonus") code (lastSetBonus? code) :=
  lastText_getLast? code setBonus?_eq_some

theorem lastText_lastArgumentText? (argument : UInt16) (code : List Instruction) :
    LastText (GivenTo argument) code (lastArgumentText? argument code) :=
  lastText_getLast? code argumentText?_eq_some

/-- **A field that holds one text holds the last one.** Whenever a type has a record, each of its
fields for one text holds the last text of a kind in the code of one method, and nothing if there is
no such text: names, tooltips and tips are set on the object of their getter, the name of a tile on any
object, the bonus of a set is stored into its field, and the buttons of a shop are given to the
arguments. -/
theorem fields_hold_last_texts (t : TypeDef) :
    (∀ r, itemText? t = some r →
      LastText (SetOn "get_DisplayName") (t.hookCode "SetStaticDefaults") r.name ∧
      LastText (SetOn "get_Tooltip") (t.hookCode "SetStaticDefaults") r.toolTip ∧
      LastText (StoredIn "setBonus") (t.methodCode "UpdateArmorSet") r.setBonus) ∧
    (∀ r, npcText? t = some r →
      LastText (SetOn "get_DisplayName") (t.hookCode "SetStaticDefaults") r.name ∧
      LastText (GivenTo 1) (t.methodCode "SetChatButtons") r.shopButton1 ∧
      LastText (GivenTo 2) (t.methodCode "SetChatButtons") r.shopButton2) ∧
    (∀ r, buffText? t = some r →
      LastText (SetOn "get_DisplayName") (t.hookCode "SetDefaults") r.name ∧
      LastText (SetOn "get_Description") (t.hookCode "SetDefaults") r.tip) ∧
    (∀ r, tileText? t = some r →
      LastText SetAsDefault (t.hookCode "SetDefaults") r.name) := by
  refine ⟨?_, ?_, ?_, ?_⟩
  · intro r hr
    obtain ⟨-, rfl⟩ := itemText?_eq_some.1 hr
    exact ⟨lastText_lastWithGetter? _ _, lastText_lastWithGetter? _ _, lastText_lastSetBonus? _⟩
  · intro r hr
    obtain ⟨-, rfl⟩ := npcText?_eq_some.1 hr
    exact ⟨lastText_lastWithGetter? _ _, lastText_lastArgumentText? _ _,
      lastText_lastArgumentText? _ _⟩
  · intro r hr
    obtain rfl := eq_of_buffText? hr
    exact ⟨lastText_lastWithGetter? _ _, lastText_lastWithGetter? _ _⟩
  · intro r hr
    obtain rfl := eq_of_tileText? hr
    exact lastText_getLast?_defaultTexts _

/-- A merchant whose name is set twice, behind an overload that sets another, and whose second button
has no text of its own. -/
def merchant : TypeDef where
  name := "Merchant"
  marks := { npc := true }
  methods := [
    { name := "SetStaticDefaults", parameterCount := 1,
      body := some ⟨0, [.call ⟨"ModNPC", "get_DisplayName", 0⟩, .pushString "Overload",
        .call ⟨"ModTranslation", "SetDefault", 1⟩]⟩ },
    { name := "SetStaticDefaults",
      body := some ⟨0, [.call ⟨"ModNPC", "get_DisplayName", 0⟩, .pushString "Trader",
        .call ⟨"ModTranslation", "SetDefault", 1⟩, .callVirtual ⟨"ModNPC", "get_DisplayName", 0⟩,
        .pushString "Merchant", .callVirtual ⟨"Api.ModTranslation", "SetDefault", 1⟩]⟩ },
    { name := "SetChatButtons", parameterCount := 2,
      body := some ⟨0, [.loadArgument 1, .pushString "Shop", .loadArgument 2, .loadLocal 0,
        .pushString "Quest"]⟩ }]

theorem fields_hold_last_texts_of_merchant :
    ∃ r, npcText? merchant = some r ∧ r.name = some "Merchant" ∧ r.shopButton1 = some "Shop" ∧
      r.shopButton2 = none ∧
      LastText (SetOn "get_DisplayName") (merchant.hookCode "SetStaticDefaults") r.name ∧
      LastText (GivenTo 1) (merchant.methodCode "SetChatButtons") r.shopButton1 ∧
      LastText (GivenTo 2) (merchant.methodCode "SetChatButtons") r.shopButton2 := by
  have hr : npcText? merchant =
      some ⟨"Merchant", "", some "Merchant", [], some "Shop", none, []⟩ := by decide +kernel
  exact ⟨_, hr, rfl, rfl, rfl, (fields_hold_last_texts merchant).2.1 _ hr⟩

end ModText
