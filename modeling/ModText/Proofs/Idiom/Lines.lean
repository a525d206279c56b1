import ModText.Proofs.Idiom.Lookup
import ModText.Proofs.Idiom.Positions
import Mathlib.Data.List.DropRight

/-!
# The positions of tooltip lines

A tooltip is the concatenation of what its lines add, in the order of the positions at which they are
made. A line that is made from two texts adds these. A line that is made from a concatenation adds the
texts among its operands, which are counted back from the line: the walk over them takes the last
operands in front of the line, and an element of an array is one of them, though it has no text.

The number of the operands is a sum of machine words. `tooltipOverflow?_eq_some` tells by position where
a program that checks its sums finds one that is none.
-/

namespace ModText

/-- Whether the instruction is an operand of a concatenation: a text, or an element of an array. -/
def Instruction.isOperand : Instruction → Bool
  | .pushString _ => true
  | .loadElement => true
  | _ => false

/-- The texts among the last operands in front of a position, in the order of the stream. -/
def lastOperandTexts (code : List Instruction) (i operands : Nat) : List String :=
  stringLiterals (((code.take i).filter (·.isOperand)).rtake operands)

/-- An object of a tooltip line is made at the position. -/
def MakesLineAt (code : List Instruction) (i : Nat) : Prop :=
  ∃ constructor : MemberRef, code[i]? = some (.newObject constructor) ∧
    constructor.simpleTypeName = "TooltipLine"

/-- Two texts are pushed right in front of the position. -/
def PairBefore (code : List Instruction) (i : Nat) (name text : String) : Prop :=
  instructionAt? code (i - 2) = some (.pushString name) ∧
    instructionAt? code (i - 1) = some (.pushString text)

/-- Texts are concatenated right in front of the position. -/
def ConcatBefore (code : List Instruction) (i : Nat) (method : MemberRef) : Prop :=
  CallsAt code (i - 1) method ∧ method.name = "Concat"

/-- The number of operands in front of the position is no machine word. -/
def OverflowsAt (code : List Instruction) (i : Nat) : Prop :=
  MakesLineAt code i ∧ ∃ method, ConcatBefore code i method ∧
    UInt64.size ≤ method.parameterCount.toNat + 1

/-- What a position adds to a tooltip. Of a concatenation with more operands than a machine word can
count, nothing is said. -/
structure AddsLine (code : List Instruction) (i : Nat) (texts : List String) : Prop where
  pair : MakesLineAt code i → ∀ name text, PairBefore code i name text → texts = [name, text]
  concat : MakesLineAt code i → ∀ method, ConcatBefore code i method →
    method.parameterCount.toNat + 1 < UInt64.size →
      texts = lastOperandTexts code i (method.parameterCount.toNat + 1)
  nothing : (MakesLineAt code i →
    (∀ name text, ¬ PairBefore code i name text) ∧ ∀ method, ¬ ConcatBefore code i method) → texts = []

/-! ## The walk over the operands -/

/-- The walk away from a call meets its operands last one first, and it takes in the texts of as many
as it was told to. -/
theorem operandTexts_eq (found : List String) (code : List Instruction) (operands : Nat) :
    operandTexts found code operands =
      (stringLiterals ((code.filter (·.isOperand)).take operands)).reverse ++ found := by
  induction code generalizing found operands with
  | nil => cases operands <;> rfl
  | cons i rest ih =>
    cases operands with
    | zero => rfl
    | succ n =>
      rw [operandTexts]
      cases i with
      | pushString text => simp [ih, Instruction.isOperand, stringLiterals, Instruction.string?]
      | loadElement =>
        simp [ih, Instruction.isOperand, Instruction.isElementLoad, stringLiterals, Instruction.string?]
      | _ => simp [ih, Instruction.isOperand, Instruction.isElementLoad, Instruction.string?]

namespace Site

variable {code : List Instruction} {i : Nat} {s : Site}

theorem concatPieces_of_siteAt? (h : siteAt? code i = some s) (operands : Nat) :
    s.concatPieces operands = lastOperandTexts code i operands := by
  obtain ⟨here, -, rfl⟩ := Option.map_eq_some_iff.1 h
  rw [concatPieces, operandTexts_eq, lastOperandTexts, List.rtake_eq_reverse_take_reverse,
    List.filter_reverse, List.append_nil, stringLiterals, stringLiterals, List.filterMap_reverse]

/-- A line at a site is told by the two instructions in front of it. -/
theorem tooltipLine_eq (s : Site) : s.tooltipLine =
    if s.here.newObject?.any (·.simpleTypeName == "TooltipLine") then
      match s.before[0]?.bind (·.string?), s.before[1]?.bind (·.string?) with
      | some text, some name => [name, text]
      | _, _ =>
        match s.before[0]?.bind (·.call?) with
        | some method =>
          if method.name = "Concat" then s.concatPieces method.operandCount.toNat else []
        | none => []
    else [] := by
  rw [tooltipLine]
  congr 1
  generalize s.concatPieces = pieces
  rcases s.before with _ | ⟨first, _ | ⟨second, rest⟩⟩
  · rfl
  · cases first <;> rfl
  · cases first with
    | pushString text => cases second <;> rfl
    | _ => rfl

theorem any_newObject?_here (h : siteAt? code i = some s) :
    s.here.newObject?.any (·.simpleTypeName == "TooltipLine") = true ↔ MakesLineAt code i := by
  simp only [MakesLineAt, here_of_siteAt? h, Option.any_eq_true, Instruction.newObject?_eq_some,
    Option.some_inj, beq_iff_eq]

theorem pairBefore_iff (h : siteAt? code i = some s) {name text : String} :
    PairBefore code i name text ↔
      s.before[0]?.bind (·.string?) = some text ∧ s.before[1]?.bind (·.string?) = some name := by
  have hfirst : s.before[0]? = instructionAt? code (i - 1) := getElem?_before h 0
  have hsecond : s.before[1]? = instructionAt? code (i - 2) := getElem?_before h 1
  simp only [PairBefore, hfirst, hsecond, Option.bind_eq_some_iff, Instruction.string?_eq_some,
    exists_eq_right, and_comm]

theorem concatBefore_iff (h : siteAt? code i = some s) {method : MemberRef} :
    ConcatBefore code i method ↔
      s.before[0]?.bind (·.call?) = some method ∧ method.name = "Concat" := by
  have hfirst : s.before[0]? = instructionAt? code (i - 1) := getElem?_before h 0
  rw [ConcatBefore, callsAt_iff, hfirst]

/-- A site adds to a tooltip what its position tells. -/
theorem addsLine_tooltipLine (h : siteAt? code i = some s) : AddsLine code i s.tooltipLine := by
  rw [tooltipLine_eq]
  refine ⟨?_, ?_, ?_⟩
  · intro hmakes name text hpair
    obtain ⟨htext, hname⟩ := (pairBefore_iff h).1 hpair
    rw [if_pos ((any_newObject?_here h).2 hmakes), htext, hname]
  · intro hmakes method hconcat hcount
    obtain ⟨hcall, hname⟩ := (concatBefore_iff h).1 hconcat
    obtain ⟨first, hfirst, hmethod⟩ := Option.bind_eq_some_iff.1 hcall
    rw [if_pos ((any_newObject?_here h).2 hmakes), hcall, hfirst, Option.bind_some,
      Instruction.string?_eq_none_of_call? hmethod]
    simp only [hname, if_true, concatPieces_of_siteAt? h, MemberRef.toNat_operandCount hcount]
  · intro hnothing
    split
    · rename_i hnew
      obtain ⟨hnopair, hnoconcat⟩ := hnothing ((any_newObject?_here h).1 hnew)
      split
      · rename_i text name htext hname
        exact absurd ((pairBefore_iff h).2 ⟨htext, hname⟩) (hnopair name text)
      · split
        · rename_i method hcall
          exact if_neg fun hname => hnoconcat method ((concatBefore_iff h).2 ⟨hcall, hname⟩)
        · rfl
    · rfl

theorem overflow?_eq_some (h : siteAt? code i = some s) {overflow : Overflow} :
    s.overflow? = some overflow ↔ overflow = .add ∧ OverflowsAt code i := by
  have hprevious : s.previous? = s.before[0]? := List.head?_eq_getElem?
  rw [overflow?, hprevious, OverflowsAt, ← any_newObject?_here h]
  by_cases hnew : s.here.newObject?.any (·.simpleTypeName == "TooltipLine") = true
  · rw [if_pos hnew]
    simp only [hnew, true_and, concatBefore_iff h]
    cases s.before[0]?.bind (·.call?) with
    | none => simp
    | some method =>
      by_cases hcount : method.name = "Concat" ∧ UInt64.size ≤ method.parameterCount.toNat + 1
      · simp [hcount, eq_comm]
      · simp [hcount]
  · rw [if_neg hnew]
    simp [hnew]

end Site

/-- A search in which nothing but one thing can be found finds it wherever it is. -/
theorem findSome?_eq_some_of_unique {α β : Type} {find : α → Option β} {xs : List α} (only : β)
    (honly : ∀ x ∈ xs, ∀ y, find x = some y → y = only) {y : β} :
    xs.findSome? find = some y ↔ y = only ∧ ∃ x ∈ xs, find x = some only := by
  constructor
  · intro h
    obtain ⟨x, hx, hfound⟩ := List.exists_of_findSome?_eq_some h
    obtain rfl := honly x hx y hfound
    exact ⟨rfl, x, hx, hfound⟩
  · rintro ⟨rfl, x, hx, hfound⟩
    have hsome : (xs.findSome? find).isSome :=
      List.findSome?_isSome_iff.2 ⟨x, hx, Option.isSome_of_eq_some hfound⟩
    obtain ⟨z, hz⟩ := Option.isSome_iff_exists.1 hsome
    obtain ⟨x', hx', hfound'⟩ := List.exists_of_findSome?_eq_some hz
    rw [hz, honly x' hx' z hfound']

theorem tooltipOverflow?_eq_some {code : List Instruction} {overflow : Overflow} :
    tooltipOverflow? code = some overflow ↔ overflow = .add ∧ ∃ i, OverflowsAt code i := by
  have hsite : ∀ s ∈ sites code, ∃ i, siteAt? code i = some s := by
    intro s hs
    obtain ⟨i, hi⟩ := List.mem_iff_getElem?.1 hs
    exact ⟨i, (getElem?_sites code i).symm.trans hi⟩
  rw [tooltipOverflow?, findSome?_eq_some_of_unique Overflow.add]
  · refine and_congr_right fun _ => ⟨?_, ?_⟩
    · rintro ⟨s, hs, hfound⟩
      obtain ⟨i, hi⟩ := hsite s hs
      exact ⟨i, ((Site.overflow?_eq_some hi).1 hfound).2⟩
    · rintro ⟨i, hi⟩
      obtain ⟨⟨constructor, hnew, _⟩, _⟩ := id hi
      obtain ⟨s, hs⟩ := exists_siteAt? hnew
      exact ⟨s, List.mem_iff_getElem?.2 ⟨i, (getElem?_sites code i).trans hs⟩,
        (Site.overflow?_eq_some hs).2 ⟨rfl, hi⟩⟩
  · intro s hs overflow hfound
    obtain ⟨i, hi⟩ := hsite s hs
    exact ((Site.overflow?_eq_some hi).1 hfound).1

theorem not_overflowsAt_nil (i : Nat) : ¬ OverflowsAt [] i := by
  rintro ⟨⟨_, hnew, _⟩, _⟩
  cases hnew

theorem itemOverflow?_eq_some {t : TypeDef} {overflow : Overflow} :
    itemOverflow? t = some overflow ↔
      overflow = .add ∧ t.marks.item = true ∧ ∃ i, OverflowsAt (t.methodCode "ModifyTooltips") i := by
  rw [itemOverflow?, ← TypeDef.getD_methodCode?]
  by_cases hitem : t.marks.item = true
  · rw [if_pos hitem]
    cases t.methodCode? "ModifyTooltips" with
    | none => simp [not_overflowsAt_nil]
    | some code => simp [hitem, tooltipOverflow?_eq_some]
  · rw [if_neg hitem]
    simp [hitem]

theorem addsLine_nil {code : List Instruction} {i : Nat} (h : ¬ MakesLineAt code i) :
    AddsLine code i [] :=
  ⟨fun hmakes => absurd hmakes h, fun hmakes => absurd hmakes h, fun _ => rfl⟩

/-- **A tooltip is told by the positions of its lines.** Every item has a record, and the tooltip in it
is what the positions of the method for tooltips add, one after the other. -/
theorem tooltip_of_lines (t : TypeDef) (hitem : t.marks.item = true) :
    ∃ r, itemText? t = some r ∧ ∃ added : Nat → List String,
      r.modifyTooltips = (List.range (t.methodCode "ModifyTooltips").length).flatMap added ∧
      ∀ i, AddsLine (t.methodCode "ModifyTooltips") i (added i) := by
  refine ⟨_, itemText?_eq_some.2 ⟨hitem, rfl⟩, _, flatMap_sites (·.tooltipLine) _, fun i => ?_⟩
  cases hsite : siteAt? (t.methodCode "ModifyTooltips") i with
  | some s => exact Site.addsLine_tooltipLine hsite
  | none =>
    refine addsLine_nil ?_
    rintro ⟨constructor, hnew, -⟩
    obtain ⟨s, hs⟩ := exists_siteAt? hnew
    rw [hs] at hsite
    cases hsite

/-- A blade with three lines: one put together around an element of an array, one from two texts, and
one whose text is not known before the game runs. -/
def blade : TypeDef where
  name := "Blade"
  marks := { item := true }
  methods := [
    { name := "ModifyTooltips", parameterCount := 1,
      body := some ⟨1, [.pushString "apart", .pushString "Damage", .pushString "Deals ", .loadLocal 0,
        .loadElement, .pushString " damage", .call ⟨"System.String", "Concat", 3⟩,
        .newObject ⟨"Api.TooltipLine", ".ctor", 3⟩, .pushString "Lore", .pushString "Old",
        .newObject ⟨"Api.TooltipLine", ".ctor", 3⟩, .loadLocal 0,
        .newObject ⟨"Api.TooltipLine", ".ctor", 3⟩]⟩ }]

theorem tooltip_of_lines_of_blade :
    blade.marks.item = true ∧ ∃ r, itemText? blade = some r ∧
      r.modifyTooltips = ["Damage", "Deals ", " damage", "Lore", "Old"] ∧
      ∃ added : Nat → List String, r.modifyTooltips = (List.range 13).flatMap added ∧
        added 7 = ["Damage", "Deals ", " damage"] ∧ added 10 = ["Lore", "Old"] ∧ added 12 = [] := by
  obtain ⟨r, hr, added, htooltip, hadded⟩ := tooltip_of_lines blade rfl
  have hfound : itemText? blade = some ⟨"Blade", "", none, none,
      ["Damage", "Deals ", " damage", "Lore", "Old"], none⟩ := by decide +kernel
  have htexts : r.modifyTooltips = ["Damage", "Deals ", " damage", "Lore", "Old"] :=
    congrArg ItemText.modifyTooltips (Option.some.inj (hr.symm.trans hfound))
  refine ⟨rfl, r, hr, htexts, added, htooltip, ?_, ?_, ?_⟩
  · exact ((hadded 7).concat ⟨_, rfl, by decide⟩ ⟨"System.String", "Concat", 3⟩ ⟨.inl rfl, rfl⟩
      (by decide)).trans (by decide)
  · exact (hadded 10).pair ⟨_, rfl, by decide⟩ "Lore" "Old" ⟨rfl, rfl⟩
  · refine (hadded 12).nothing fun _ => ⟨?_, ?_⟩
    · rintro name text ⟨-, htext⟩
      cases htext
    · rintro method ⟨hcall | hcall, -⟩
      all_goals cases hcall

end ModText
