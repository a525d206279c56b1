import ModText.Proofs.Idiom.Quiet

/-!
# What the idioms find in a unit of code

An idiom is followed through the code unit by unit. What it finds in a unit depends on what stands
around the unit only as far as the unit itself reaches, so each unit has one lemma, for any
instructions in front of it and behind it.
-/

namespace ModText

/-- The default texts that a getter gets in code that hands a text over to its object. -/
def defaultTextOf (getter : String) (value : Option String) : List DefaultText :=
  (value.map fun v => ⟨v, some getter⟩).toList

namespace IdiomCode

open Site

@[simp] theorem string?_pushString (value : String) :
    (Instruction.pushString value).string? = some value :=
  rfl

theorem defaultText?_eq_none {s : Site} (h : s.here.string? = none) : s.defaultText? = none := by
  rw [defaultText?, h]

theorem SetsText.defaultTexts {getter : String} {value : Option String} {code : List Instruction}
    (h : SetsText getter value code) (before rest : List Instruction) :
    (sitesFrom before (code ++ rest)).filterMap (·.defaultText?) =
      defaultTextOf getter value ++
        (sitesFrom (code.reverse ++ before) rest).filterMap (·.defaultText?) := by
  cases h with
  | absent => rfl
  | present hget hset =>
    obtain ⟨m, hcall, hname⟩ := Instruction.callsNamed_iff.1 hget
    have hgetter := Instruction.string?_eq_none_of_callsNamed hget
    have hsetter := Instruction.string?_eq_none_of_callsNamed (Instruction.callsNamed_of_calls hset)
    simp only [List.cons_append, List.nil_append, sitesFrom]
    rw [List.filterMap_cons_none (defaultText?_eq_none hgetter), List.filterMap_cons_some,
      List.filterMap_cons_none (defaultText?_eq_none hsetter)]
    · rfl
    · simp [defaultText?, next?, previous?, hset, hcall, hname]

theorem defaultTexts_of_setsText {getter : String} {value : Option String} {code : List Instruction}
    (h : SetsText getter value code) : defaultTexts code = defaultTextOf getter value := by
  have hcode := h.defaultTexts [] []
  simpa [sitesFrom, ModText.defaultTexts, sites] using hcode

theorem defaultTexts_of_setsText_append {getter getter' : String} {value value' : Option String}
    {code code' : List Instruction} (h : SetsText getter value code)
    (h' : SetsText getter' value' code') :
    defaultTexts (code ++ code') = defaultTextOf getter value ++ defaultTextOf getter' value' := by
  rw [ModText.defaultTexts, sites, h.defaultTexts]
  have hrest := h'.defaultTexts (code.reverse ++ []) []
  rw [List.append_nil code'] at hrest
  rw [hrest]
  simp [sitesFrom]

theorem defaultTexts_of_setsAnyText {value : Option String} {code : List Instruction}
    (h : SetsAnyText value code) : (defaultTexts code).map (·.value) = value.toList := by
  cases h with
  | absent => rfl
  | @present value front set hfront hset =>
    have hsetter := Instruction.string?_eq_none_of_callsNamed (Instruction.callsNamed_of_calls hset)
    have hskip : ∀ before, (sitesFrom before (front ++ [.pushString value, set])).filterMap
        (·.defaultText?) = (sitesFrom (front.reverse ++ before) [.pushString value, set]).filterMap
          (·.defaultText?) := by
      clear hsetter hset
      induction front with
      | nil => exact fun _ => rfl
      | cons i front ih =>
        intro before
        have hi := (hfront i List.mem_cons_self).2
        have hrest := ih (fun j hj => hfront j (List.mem_cons_of_mem i hj)) (i :: before)
        simpa [sitesFrom, defaultText?, hi] using hrest
    rw [defaultTexts, sites, hskip]
    simp only [sitesFrom]
    rw [List.filterMap_cons, List.filterMap_cons_none (defaultText?_eq_none hsetter)]
    simp [defaultText?, next?, hset]

theorem lastWithGetter?_append_left {getter other : String} (hne : other ≠ getter)
    (value value' : Option String) :
    lastWithGetter? getter (defaultTextOf getter value ++ defaultTextOf other value') = value := by
  cases value <;> cases value' <;> simp [lastWithGetter?, defaultTextOf, hne]

theorem lastWithGetter?_append_right {getter other : String} (hne : other ≠ getter)
    (value value' : Option String) :
    lastWithGetter? getter (defaultTextOf other value ++ defaultTextOf getter value') = value' := by
  cases value <;> cases value' <;> simp [lastWithGetter?, defaultTextOf, hne]

theorem lastWithGetter?_defaultTextOf (getter : String) (value : Option String) :
    lastWithGetter? getter (defaultTextOf getter value) = value := by
  cases value <;> simp [lastWithGetter?, defaultTextOf]

/-- A walk back over operands counts each of them and takes in their texts. -/
theorem Operands.operandTexts {texts : List String} {n : Nat} {code : List Instruction}
    (h : Operands texts n code) (found : List String) (before : List Instruction) (more : Nat) :
    ModText.operandTexts found (code.reverse ++ before) (more + n) =
      ModText.operandTexts (texts ++ found) before more := by
  induction h generalizing before more with
  | nil => rfl
  | @text value texts n code _ ih =>
    rw [List.reverse_cons, List.append_assoc, ← Nat.add_assoc, Nat.add_right_comm, ih]
    simp [ModText.operandTexts]
  | @element slot texts n code _ ih =>
    rw [List.reverse_cons, List.reverse_cons, List.append_assoc, List.append_assoc,
      ← Nat.add_assoc, Nat.add_right_comm, ih]
    cases more <;> simp [ModText.operandTexts, Instruction.string?, Instruction.isElementLoad]

theorem tooltipLine_eq_nil {s : Site} (h : s.here.newObject? = none) : s.tooltipLine = [] := by
  rw [tooltipLine, h]
  rfl

theorem Operands.flatMap_tooltipLine {texts : List String} {n : Nat} {code : List Instruction}
    (h : Operands texts n code) (before rest : List Instruction) :
    (sitesFrom before (code ++ rest)).flatMap (·.tooltipLine) =
      (sitesFrom (code.reverse ++ before) rest).flatMap (·.tooltipLine) := by
  have hnone := h.newObject?_eq_none
  clear h
  induction code generalizing before with
  | nil => rfl
  | cons i code ih =>
    have hi := hnone i List.mem_cons_self
    have hrest := ih (i :: before) fun j hj => hnone j (List.mem_cons_of_mem i hj)
    simp only [List.cons_append, sitesFrom, List.flatMap_cons]
    rw [tooltipLine_eq_nil hi, hrest]
    simp

theorem TooltipLine.flatMap_tooltipLine {texts : List String} {code : List Instruction}
    (h : TooltipLine texts code) (before rest : List Instruction) :
    (sitesFrom before (code ++ rest)).flatMap (·.tooltipLine) =
      texts ++ (sitesFrom (code.reverse ++ before) rest).flatMap (·.tooltipLine) := by
  cases h with
  | pair hline => simp [sitesFrom, tooltipLine, Instruction.newObject?, hline]
  | @concat first texts n operands join method line hoperands hjoin hname hcount hword hline =>
    have hnew : join.newObject? = none := by cases join <;> simp_all [Instruction.call?, Instruction.newObject?]
    have hstring : join.string? = none := by cases join <;> simp_all [Instruction.call?, Instruction.string?]
    have helement : join.isElementLoad = false := by
      cases join <;> simp_all [Instruction.call?, Instruction.isElementLoad]
    -- looking back from the call, the operands are counted off and the first text is the last one met
    have hpieces : ModText.operandTexts [] (join :: (operands.reverse ++ .pushString first :: before))
        method.operandCount.toNat = first :: texts := by
      rw [MemberRef.toNat_operandCount (hcount ▸ hword), ModText.operandTexts, hstring, helement, hcount,
        Nat.add_comm]
      simp only [Bool.false_eq_true, if_false]
      rw [hoperands.operandTexts]
      simp [ModText.operandTexts, Instruction.string?]
    have hhere : (Site.mk (join :: (operands.reverse ++ .pushString first :: before))
        (.newObject line) rest).tooltipLine = first :: texts := by
      rw [tooltipLine, if_pos (by simp [Instruction.newObject?, hline])]
      split
      · rename_i heq
        cases List.cons.inj heq |>.1
        simp [Instruction.call?] at hjoin
      · rename_i i _ _ heq
        obtain ⟨rfl, _⟩ := List.cons.inj heq
        rw [hjoin]
        simp only [hname, if_true]
        exact hpieces
      · rename_i heq
        cases heq
    rw [List.cons_append, List.append_assoc, sitesFrom, List.flatMap_cons,
      tooltipLine_eq_nil rfl, List.nil_append, hoperands.flatMap_tooltipLine]
    simp only [List.cons_append, List.nil_append, sitesFrom, List.flatMap_cons]
    rw [tooltipLine_eq_nil hnew, hhere]
    simp

theorem tooltipLines_of_tooltipLines {texts : List String} {code : List Instruction}
    (h : TooltipLines texts code) : tooltipLines code = texts := by
  have hfrom : ∀ before, (sitesFrom before code).flatMap (·.tooltipLine) = texts := by
    induction h with
    | nil => exact fun _ => rfl
    | cons hline _ ih =>
      intro before
      rw [hline.flatMap_tooltipLine, ih]
  exact hfrom []

theorem lastSetBonus?_of_setsBonus {value : Option String} {code : List Instruction}
    (h : SetsBonus value code) : lastSetBonus? code = value := by
  cases h with
  | absent => rfl
  | present hfield =>
    simp [lastSetBonus?, sites, sitesFrom, setBonus?, Instruction.string?, next?,
      Instruction.fieldStore?, hfield]

theorem stringLiterals_map_pushString (texts : List String) :
    stringLiterals (texts.map .pushString) = texts := by
  induction texts with
  | nil => rfl
  | cons text texts ih => exact congrArg (text :: ·) ih

/-- Each of two buttons is named through its own argument, whichever of them have names. -/
theorem lastArgumentText?_of_namesButton {first second : UInt16} (hne : first ≠ second)
    {value value' : Option String} {code code' : List Instruction}
    (h : NamesButton first value code) (h' : NamesButton second value' code') :
    lastArgumentText? first (code ++ code') = value ∧
      lastArgumentText? second (code ++ code') = value' := by
  cases h <;> cases h' <;>
    simp [lastArgumentText?, sites, sitesFrom, argumentText?, Instruction.string?, previous?,
      Instruction.loadsArgument, hne, Ne.symm hne]

theorem messages_of_sendsMessages {texts : List String} {code : List Instruction}
    (h : SendsMessages texts code) : messages code = texts := by
  have hfrom : ∀ before, (sitesFrom before code).filterMap (·.message?) = texts := by
    induction h with
    | nil => exact fun _ => rfl
    | @cons text texts arguments code send hlength hquiet hsend _ ih =>
      intro before
      obtain ⟨a, b, c, d, rfl⟩ : ∃ a b c d, arguments = [a, b, c, d] := by
        match arguments, hlength with
        | [a, b, c, d], _ => exact ⟨a, b, c, d, rfl⟩
      simp only [List.forall_mem_cons] at hquiet
      simp only [List.cons_append, List.nil_append, sitesFrom]
      rw [List.filterMap_cons_none (message?_eq_none rfl),
        List.filterMap_cons_none (message?_eq_none hquiet.1.1),
        List.filterMap_cons_none (message?_eq_none hquiet.2.1.1),
        List.filterMap_cons_none (message?_eq_none hquiet.2.2.1.1),
        List.filterMap_cons_none (message?_eq_none hquiet.2.2.2.1.1),
        List.filterMap_cons_some (b := text), ih]
      simp [message?, hsend, messageDistance, Instruction.string?]
  exact hfrom []

theorem firstLoad?_append {slot : UInt16} {between : List Instruction} (rest : List Instruction)
    (h : ∀ i ∈ between, i.localLoad? ≠ some slot) :
    firstLoad? slot (between ++ rest) = firstLoad? slot rest := by
  induction between with
  | nil => rfl
  | cons i between ih =>
    rw [List.cons_append, firstLoad?, if_neg (h i List.mem_cons_self)]
    exact ih fun j hj => h j (List.mem_cons_of_mem i hj)

theorem registrations_of_registers {key value : String} {code : List Instruction}
    (h : Registers key value code) : registrations code = [(key, value)] := by
  cases h with
  | @intro register slot between behind hregister hbetween hbehind =>
    have hload : firstLoad? slot (between ++ .loadLocal slot :: .pushString value :: behind) =
        some (.pushString value :: behind) := by
      rw [firstLoad?_append _ fun i hi => (hbetween i hi).2, firstLoad?,
        if_pos (by simp [Instruction.localLoad?])]
    have hothers : ∀ i ∈ .storeLocal slot ::
        (between ++ .loadLocal slot :: .pushString value :: behind),
        i.callsNamed registeringMethod = false := by
      simp only [List.forall_mem_cons, List.forall_mem_append]
      exact ⟨rfl, fun i hi => (hbetween i hi).1.2, rfl, rfl, fun i hi => (hbehind i hi).2⟩
    rw [registrations, sites, sitesFrom, sitesFrom,
      List.filterMap_cons_none (registration?_eq_none rfl),
      List.filterMap_cons_some (b := (key, value)), filterMap_registration?_eq_nil hothers]
    simp [registration?, hregister, Instruction.localStore?, previous?, Instruction.string?, hload]

end IdiomCode

end ModText
