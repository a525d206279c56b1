import ModText.Proofs.Idiom.Code

/-!
# Quiet code

Two idioms look into every method of every type: the one for messages and the one for registered
texts. They find nothing in code that makes neither of the calls that they look for, and the code
for all other kinds of records is of that sort.
-/

namespace ModText

namespace Instruction

theorem callsNamed_iff {member : String} {i : Instruction} :
    i.callsNamed member = true ↔ ∃ m, i.call? = some m ∧ m.name = member := by
  cases i <;> simp [callsNamed, call?]

theorem callsNamed_of_calls {type member : String} {i : Instruction} (h : i.calls type member) :
    i.callsNamed member := by
  cases i <;> simp_all [callsNamed, calls, call?, MemberRef.denotes]

theorem quiet_of_callsNamed {member : String} {i : Instruction} (h : i.callsNamed member)
    (hsend : member ≠ "NewText") (hregister : member ≠ registeringMethod) : i.Quiet := by
  obtain ⟨m, hcall, rfl⟩ := callsNamed_iff.1 h
  exact ⟨by simp [callsNamed, hcall, hsend], by simp [callsNamed, hcall, hregister]⟩

theorem quiet_of_call?_eq_none {i : Instruction} (h : i.call? = none) : i.Quiet :=
  ⟨by simp [callsNamed, h], by simp [callsNamed, h]⟩

theorem quiet_of_calls_setDefault {i : Instruction} (h : i.calls textObject "SetDefault") : i.Quiet :=
  quiet_of_callsNamed (callsNamed_of_calls h) (by decide) (by decide)

theorem string?_eq_none_of_callsNamed {member : String} {i : Instruction} (h : i.callsNamed member) :
    i.string? = none := by
  cases i <;> simp_all [callsNamed, call?, string?]

end Instruction

namespace Site

theorem here_mem_of_mem_sitesFrom {before code : List Instruction} {s : Site}
    (hs : s ∈ sitesFrom before code) : s.here ∈ code := by
  induction code generalizing before with
  | nil => cases hs
  | cons i rest ih =>
    rcases List.mem_cons.1 hs with rfl | hs
    · exact List.mem_cons_self
    · exact List.mem_cons_of_mem i (ih hs)

theorem message?_eq_none {s : Site} (h : s.here.callsNamed "NewText" = false) :
    s.message? = none := by
  rw [message?, if_neg (by simp [h])]

theorem registration?_eq_none {s : Site} (h : s.here.callsNamed registeringMethod = false) :
    s.registration? = none := by
  rw [registration?, if_neg (by simp [h])]

theorem filterMap_message?_eq_nil {before code : List Instruction}
    (h : ∀ i ∈ code, i.callsNamed "NewText" = false) :
    (sitesFrom before code).filterMap (·.message?) = [] :=
  List.filterMap_eq_nil_iff.2 fun _ hs => message?_eq_none (h _ (here_mem_of_mem_sitesFrom hs))

theorem filterMap_registration?_eq_nil {before code : List Instruction}
    (h : ∀ i ∈ code, i.callsNamed registeringMethod = false) :
    (sitesFrom before code).filterMap (·.registration?) = [] :=
  List.filterMap_eq_nil_iff.2 fun _ hs => registration?_eq_none (h _ (here_mem_of_mem_sitesFrom hs))

end Site

/-- All code of the method is quiet. -/
def Method.Quiet (m : Method) : Prop :=
  ∀ code, m.instructions? = some code → ∀ i ∈ code, i.Quiet

theorem chatTexts_eq_nil {t : TypeDef} (h : ∀ m ∈ t.methods, m.Quiet) : chatTexts t = [] := by
  apply List.filterMap_eq_nil_iff.2
  intro m hm
  cases hcode : m.instructions? with
  | none => simp [chatText?, hcode]
  | some code =>
    have hnone : messages code = [] :=
      Site.filterMap_message?_eq_nil fun i hi => (h m hm code hcode i hi).1
    simp [chatText?, hcode, hnone]

theorem customTexts_eq_nil {t : TypeDef} (h : ∀ m ∈ t.methods, m.Quiet) : customTexts t = [] := by
  rw [customTexts, List.map_eq_nil_iff, List.flatMap_eq_nil_iff]
  intro code hcode
  obtain ⟨m, hm, hbody⟩ := List.mem_filterMap.1 hcode
  exact Site.filterMap_registration?_eq_nil fun i hi => (h m hm code hbody i hi).2

namespace IdiomCode

open Instruction

theorem SetsText.quiet {getter : String} {value : Option String} {code : List Instruction}
    (h : SetsText getter value code) (hsend : getter ≠ "NewText")
    (hregister : getter ≠ registeringMethod) : ∀ i ∈ code, i.Quiet := by
  cases h with
  | absent => simp
  | present hget hset =>
    simp only [List.forall_mem_cons]
    exact ⟨quiet_of_callsNamed hget hsend hregister, quiet_of_call?_eq_none rfl,
      quiet_of_calls_setDefault hset, by simp⟩

theorem SetsAnyText.quiet {value : Option String} {code : List Instruction}
    (h : SetsAnyText value code) : ∀ i ∈ code, i.Quiet := by
  cases h with
  | absent => simp
  | present hfront hset =>
    simp only [List.forall_mem_append, List.forall_mem_cons]
    exact ⟨fun i hi => (hfront i hi).1, quiet_of_call?_eq_none rfl,
      quiet_of_calls_setDefault hset, by simp⟩

theorem Operands.call?_eq_none {texts : List String} {n : Nat} {code : List Instruction}
    (h : Operands texts n code) : ∀ i ∈ code, i.call? = none := by
  induction h with
  | nil => simp
  | text _ ih => exact List.forall_mem_cons.2 ⟨rfl, ih⟩
  | element _ ih => exact List.forall_mem_cons.2 ⟨rfl, List.forall_mem_cons.2 ⟨rfl, ih⟩⟩

theorem Operands.newObject?_eq_none {texts : List String} {n : Nat} {code : List Instruction}
    (h : Operands texts n code) : ∀ i ∈ code, i.newObject? = none := by
  induction h with
  | nil => simp
  | text _ ih => exact List.forall_mem_cons.2 ⟨rfl, ih⟩
  | element _ ih => exact List.forall_mem_cons.2 ⟨rfl, List.forall_mem_cons.2 ⟨rfl, ih⟩⟩

theorem TooltipLine.quiet {texts : List String} {code : List Instruction}
    (h : TooltipLine texts code) : ∀ i ∈ code, i.Quiet := by
  cases h with
  | pair hline =>
    simp only [List.forall_mem_cons]
    exact ⟨quiet_of_call?_eq_none rfl, quiet_of_call?_eq_none rfl, quiet_of_call?_eq_none rfl, by simp⟩
  | concat hoperands hjoin hname hcount hline =>
    simp only [List.forall_mem_cons, List.forall_mem_append]
    have hconcat := callsNamed_iff.2 ⟨_, hjoin, hname⟩
    exact ⟨quiet_of_call?_eq_none rfl,
      fun i hi => quiet_of_call?_eq_none (hoperands.call?_eq_none i hi),
      quiet_of_callsNamed hconcat (by decide) (by decide), quiet_of_call?_eq_none rfl, by simp⟩

theorem TooltipLines.quiet {texts : List String} {code : List Instruction}
    (h : TooltipLines texts code) : ∀ i ∈ code, i.Quiet := by
  induction h with
  | nil => simp
  | cons hline _ ih => exact List.forall_mem_append.2 ⟨hline.quiet, ih⟩

theorem SetsBonus.quiet {value : Option String} {code : List Instruction}
    (h : SetsBonus value code) : ∀ i ∈ code, i.Quiet := by
  cases h with
  | absent => simp
  | present =>
    simp only [List.forall_mem_cons]
    exact ⟨quiet_of_call?_eq_none rfl, quiet_of_call?_eq_none rfl, by simp⟩

theorem NamesButton.quiet {argument : UInt16} {value : Option String} {code : List Instruction}
    (h : NamesButton argument value code) : ∀ i ∈ code, i.Quiet := by
  cases h with
  | absent => simp
  | present =>
    simp only [List.forall_mem_cons]
    exact ⟨quiet_of_call?_eq_none rfl, quiet_of_call?_eq_none rfl, by simp⟩

theorem quiet_map_pushString (texts : List String) :
    ∀ i ∈ texts.map Instruction.pushString, i.Quiet :=
  List.forall_mem_map.2 fun _ _ => quiet_of_call?_eq_none rfl

theorem Offers.quiet {kind : Method → Bool} {code : List Instruction} {methods : List Method}
    (h : Offers kind code methods) (hcode : ∀ i ∈ code, i.Quiet) : ∀ m ∈ methods, m.Quiet := by
  cases h with
  | method _ hbody =>
    simp only [List.forall_mem_singleton, Method.Quiet, hbody, Option.some.injEq]
    rintro _ rfl
    exact hcode
  | nothing => simp

theorem SendsMessages.registrations_eq_nil {texts : List String} {code : List Instruction}
    (h : SendsMessages texts code) : registrations code = [] := by
  refine Site.filterMap_registration?_eq_nil ?_
  induction h with
  | nil => simp
  | cons _ hquiet hsend _ ih =>
    obtain ⟨m, hcall, hname⟩ := callsNamed_iff.1 hsend
    simp only [List.forall_mem_cons, List.forall_mem_append]
    refine ⟨rfl, fun i hi => (hquiet i hi).2, ?_, ih⟩
    simp [callsNamed, hcall, hname, registeringMethod]

theorem Registers.messages_eq_nil {key value : String} {code : List Instruction}
    (h : Registers key value code) : messages code = [] := by
  refine Site.filterMap_message?_eq_nil ?_
  cases h with
  | intro hregister hbetween hbehind =>
    obtain ⟨m, hcall, hname⟩ := callsNamed_iff.1 hregister
    simp only [List.forall_mem_cons, List.forall_mem_append]
    refine ⟨rfl, ?_, rfl, fun i hi => (hbetween i hi).1.1, rfl, rfl, fun i hi => (hbehind i hi).1⟩
    simp [callsNamed, hcall, hname, registeringMethod]

end IdiomCode

end ModText
