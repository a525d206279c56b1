import ModText.Json.Printer
import ModText.Proofs.Json.Grammar

/-!
# What is written can be read

Both layouts write by the grammar, so what they write is read again as the value that was written. A
value has to be `Held`: each number in it is one that a numeral denotes. Every integer of 64 bits is,
and so all that the formats of this library put into documents can be read back from them.
-/

namespace ModText.Json

open Text (Symbol symbolsOf)

/-! ## Numbers -/

theorem isDigit_digitChar {n : Nat} (h : n < 10) : (Nat.digitChar n).isDigit = true := by
  revert n
  decide

theorem digitValue_digitChar {n : Nat} (h : n < 10) : digitValue (Nat.digitChar n) = n := by
  revert n
  decide

theorem digits_decimal (n : Nat) : Digits (decimal n) := by
  fun_induction decimal n with
  | case1 n h => exact ⟨by simp, by simpa using isDigit_digitChar h⟩
  | case2 n h ih =>
    refine ⟨by simp, List.forall_mem_append.2 ⟨ih.2, ?_⟩⟩
    simpa using isDigit_digitChar (Nat.mod_lt n (by decide))

theorem ofDigits_decimal (n : Nat) : ofDigits (decimal n) = n := by
  fun_induction decimal n with
  | case1 n h => simpa [ofDigits] using digitValue_digitChar h
  | case2 n h ih =>
    rw [ofDigits, List.foldl_append]
    change ofDigits (decimal (n / 10)) * 10 + digitValue (Nat.digitChar (n % 10)) = n
    rw [ih, digitValue_digitChar (Nat.mod_lt n (by decide))]
    omega

/-- No number but zero is written with a zero in front. -/
theorem head?_decimal {n : Nat} (h : (decimal n).head? = some '0') : n = 0 := by
  fun_induction decimal n with
  | case1 n hn =>
    have hdigit : Nat.digitChar n = '0' := by simpa using h
    rw [← digitValue_digitChar hn, hdigit]
    rfl
  | case2 n hn ih =>
    obtain ⟨d, ds, hds⟩ := List.exists_cons_of_ne_nil (digits_decimal (n / 10)).1
    have := ih (by simpa [hds] using h)
    omega

/-- The number of `n`, as it is written without a point and an exponent. -/
def Numeral.ofDecimal (negative : Bool) (n : Nat) : Numeral where
  negative := negative
  whole := decimal n
  fraction := none
  exponent := none

theorem Numeral.proper_ofDecimal (negative : Bool) (n : Nat) : (ofDecimal negative n).Proper where
  whole := digits_decimal n
  zero h := by
    rw [ofDecimal, head?_decimal h]
    simp [decimal]
  fraction _ h := by cases h
  exponent _ _ _ h := by cases h

/-- The number is what a numeral denotes, and it is written as that numeral. -/
def Number.Held (n : Number) : Prop :=
  ∃ m : Numeral, m.Proper ∧ m.render = n.render ∧ m.number? = some n

theorem Number.held_integer {i : Int} (h : IsWord i) : (Number.integer i).Held := by
  cases i with
  | ofNat n =>
    refine ⟨.ofDecimal false n, Numeral.proper_ofDecimal _ _, ?_, ?_⟩
    · simp [Numeral.render, Numeral.ofDecimal, Number.render, decimalInt]
    · have hinteger : (Numeral.ofDecimal false n).integer? = some (Int.ofNat n) := by
        simp [Numeral.integer?, Numeral.ofDecimal, ofDigits_decimal]
      rw [Numeral.number?, hinteger]
      exact if_pos h
  | negSucc n =>
    refine ⟨.ofDecimal true (n + 1), Numeral.proper_ofDecimal _ _, ?_, ?_⟩
    · simp [Numeral.render, Numeral.ofDecimal, Number.render, decimalInt]
    · have hinteger : (Numeral.ofDecimal true (n + 1)).integer? = some (Int.negSucc n) := by
        simp [Numeral.integer?, Numeral.ofDecimal, ofDigits_decimal]
        omega
      rw [Numeral.number?, hinteger]
      exact if_pos h

/-! ## Texts -/

/-- The piece as which a character is written. -/
def pieceOf (c : Char) : Piece :=
  if c.toNat < 32 ∧ c ∉ ['\n', '\r', '\t', '\x08', '\x0c'] then .unit c.toNat else .char c

theorem hexNumber?_low {n : Nat} (h : n < 32) :
    hexNumber? '0' '0' (Nat.digitChar (n / 16)) (Nat.digitChar (n % 16)) = some n := by
  revert n
  decide

theorem spellsPiece_escape (c : Char) : SpellsPiece (pieceOf c) ((escape c).map some) := by
  by_cases hshort : c ∈ ['"', '\\', '\n', '\r', '\t', '\x08', '\x0c']
  · simp only [List.mem_cons, List.not_mem_nil, or_false] at hshort
    rcases hshort with rfl | rfl | rfl | rfl | rfl | rfl | rfl <;> exact .escape rfl
  · simp only [List.mem_cons, List.not_mem_nil, or_false, not_or] at hshort
    obtain ⟨hquote, hescape, hn, hr, ht, hb, hf⟩ := hshort
    by_cases hlow : c.toNat < 32
    · have hpiece : pieceOf c = .unit c.toNat := if_pos ⟨hlow, by simp [hn, hr, ht, hb, hf]⟩
      rw [hpiece]
      simp only [escape, hquote, hescape, hn, hr, ht, hb, hf, hlow, if_true, if_false]
      exact .unit (hexNumber?_low hlow)
    · have hpiece : pieceOf c = .char c := if_neg fun h => hlow h.1
      rw [hpiece]
      simp only [escape, hquote, hescape, hn, hr, ht, hb, hf, hlow, if_false]
      exact .plain hquote hescape (by omega)

theorem spellsPieces_flatMap (cs : List Char) :
    SpellsPieces (cs.map pieceOf) ((cs.flatMap escape).map some) := by
  induction cs with
  | nil => exact .nil
  | cons c cs ih =>
    rw [List.flatMap_cons, List.map_append]
    exact .cons (spellsPiece_escape c) ih

theorem charsOf?_unit {n : Nat} (h : n < 32) (ps : List Piece) :
    charsOf? (.unit n :: ps) = (charsOf? ps).map (Char.ofNat n :: ·) := by
  have hhigh : isHighSurrogate n = false := by
    simp [isHighSurrogate]
    omega
  have hlow : isLowSurrogate n = false := by
    simp [isLowSurrogate]
    omega
  cases ps with
  | nil => simp [charsOf?, hhigh, hlow]
  | cons p ps => cases p <;> simp [charsOf?, hhigh, hlow]

theorem charsOf?_map_pieceOf (cs : List Char) : charsOf? (cs.map pieceOf) = some cs := by
  induction cs with
  | nil => rfl
  | cons c cs ih =>
    rw [List.map_cons, pieceOf]
    split
    · rename_i hc
      rw [charsOf?_unit hc.1, ih, Char.ofNat_toNat]
      rfl
    · rw [charsOf?, ih]
      rfl

theorem textOf?_map_pieceOf (s : String) : textOf? (s.toList.map pieceOf) = some s := by
  rw [textOf?, charsOf?_map_pieceOf]
  simp

theorem spells_quoted (s : String) :
    Spells (.value (.string (some s))) ((quoted s).map some) := by
  have hspells := Spells.string (spellsPieces_flatMap s.toList)
  rw [textOf?_map_pieceOf] at hspells
  simpa [quoted] using hspells

/-! ## Values -/

/-- A value whose numbers can be read back. -/
inductive Held : Json → Prop
  | null : Held .null
  | bool (b : Bool) : Held (.bool b)
  | number {n : Number} : n.Held → Held (.number n)
  | string (s : String) : Held (.string s)
  | array {items : List Json} : (∀ j ∈ items, Held j) → Held (.array items)
  | object {members : List (String × Json)} : (∀ m ∈ members, Held m.2) → Held (.object members)

attribute [simp] Held.null Held.bool Held.string

@[simp] theorem held_array {items : List Json} : Held (.array items) ↔ ∀ j ∈ items, Held j :=
  ⟨fun h => by cases h with | array h => exact h, .array⟩

@[simp] theorem held_object {members : List (String × Json)} :
    Held (.object members) ↔ ∀ m ∈ members, Held m.2 :=
  ⟨fun h => by cases h with | object h => exact h, .object⟩

theorem spells_number {n : Number} (h : n.Held) :
    Spells (.value (.number (some n))) (n.render.map some) := by
  obtain ⟨m, hproper, hrender, hnumber⟩ := h
  rw [← hrender, ← hnumber]
  exact .number hproper

/-! ### Lists

Both layouts put commas between items and members and differ in the blanks only, so their lists are
told as texts with commas between them. -/

theorem compactItems_eq (items : List Json) :
    compactItems items = [','].intercalate (items.map compact) := by
  induction items with
  | nil => rfl
  | cons j rest ih =>
    cases rest with
    | nil => simp [compactItems]
    | cons k rest =>
      rw [compactItems, ih]
      · simp [List.intercalate_cons_cons]
      · simp

theorem compactMembers_eq (members : List (String × Json)) :
    compactMembers members =
      [','].intercalate (members.map fun m => quoted m.1 ++ ':' :: compact m.2) := by
  induction members with
  | nil => rfl
  | cons m rest ih =>
    cases rest with
    | nil => simp [compactMembers]
    | cons k rest =>
      rw [compactMembers, ih]
      · simp [List.intercalate_cons_cons]
      · simp

theorem prettyItems_eq (level : Nat) (items : List Json) :
    prettyItems level items =
      [','].intercalate (items.map fun j => newline level ++ prettyAt level j) := by
  induction items with
  | nil => rfl
  | cons j rest ih =>
    cases rest with
    | nil => simp [prettyItems]
    | cons k rest =>
      rw [prettyItems, ih]
      · simp [List.intercalate_cons_cons]
      · simp

theorem prettyMembers_eq (level : Nat) (members : List (String × Json)) :
    prettyMembers level members = [','].intercalate (members.map fun m =>
      newline level ++ (quoted m.1 ++ ':' :: ' ' :: prettyAt level m.2)) := by
  induction members with
  | nil => rfl
  | cons m rest ih =>
    cases rest with
    | nil => simp [prettyMembers]
    | cons k rest =>
      rw [prettyMembers, ih]
      · simp [List.intercalate_cons_cons]
      · simp

theorem spells_items {text : Json → List Char} (front behind : List Char)
    (hfront : Blanks (front.map some)) (hbehind : Blanks (behind.map some)) {items : List Json}
    (hne : items ≠ []) (h : ∀ j ∈ items, Spells (.value j.draft) ((text j).map some)) :
    Spells (.items (draftItems items))
      (([','].intercalate (items.map fun j => front ++ text j) ++ behind).map some) := by
  induction items with
  | nil => exact absurd rfl hne
  | cons j rest ih =>
    have hj := h j List.mem_cons_self
    cases rest with
    | nil => simpa [draftItems] using Spells.item (.element hfront hj hbehind)
    | cons k rest =>
      have hrest := ih (by simp) fun i hi => h i (List.mem_cons_of_mem j hi)
      simpa [draftItems, List.intercalate_cons_cons] using
        Spells.items (.element hfront hj blanks_nil) hrest

theorem spells_members {text : Json → List Char} (front between behind : List Char)
    (hfront : Blanks (front.map some)) (hbetween : Blanks (between.map some))
    (hbehind : Blanks (behind.map some)) {members : List (String × Json)} (hne : members ≠ [])
    (h : ∀ m ∈ members, Spells (.value m.2.draft) ((text m.2).map some)) :
    Spells (.members (draftMembers members))
      (([','].intercalate (members.map fun m =>
        front ++ (quoted m.1 ++ ':' :: (between ++ text m.2))) ++ behind).map some) := by
  induction members with
  | nil => exact absurd rfl hne
  | cons m rest ih =>
    obtain ⟨k, j⟩ := m
    have hj := h (k, j) List.mem_cons_self
    have hname := spellsPieces_flatMap k.toList
    cases rest with
    | nil =>
      have hmember := Spells.member hfront hname blanks_nil (.element hbetween hj hbehind)
      rw [textOf?_map_pieceOf] at hmember
      simpa [draftMembers, quoted] using hmember
    | cons m rest =>
      have hrest := ih (by simp) fun i hi => h i (List.mem_cons_of_mem _ hi)
      have hmembers := Spells.members hfront hname blanks_nil (.element hbetween hj blanks_nil) hrest
      rw [textOf?_map_pieceOf] at hmembers
      simpa [draftMembers, quoted, List.intercalate_cons_cons] using hmembers

theorem blanks_newline (level : Nat) : Blanks ((newline level).map some) := by
  simp only [Blanks, newline, List.map_cons, List.map_replicate, List.forall_mem_cons]
  refine ⟨by decide, fun s hs => ?_⟩
  rw [List.eq_of_mem_replicate hs]
  rfl

/-! ### The layouts -/

theorem spells_compact {j : Json} (h : j.Held) : Spells (.value j.draft) ((compact j).map some) := by
  induction h with
  | null => exact .null
  | bool b => cases b with
    | true => exact .true
    | false => exact .false
  | number hn => exact spells_number hn
  | string s => exact spells_quoted s
  | @array items _ ih =>
    by_cases hne : items = []
    · rw [hne]
      exact .emptyArray blanks_nil
    · have hitems := spells_items [] [] blanks_nil blanks_nil hne ih
      simpa [draft, compact, compactItems_eq] using Spells.array hitems
  | @object members _ ih =>
    by_cases hne : members = []
    · rw [hne]
      exact .emptyObject blanks_nil
    · have hmembers := spells_members [] [] [] blanks_nil
        blanks_nil blanks_nil hne ih
      simpa [draft, compact, compactMembers_eq] using Spells.object hmembers

theorem spells_prettyAt {j : Json} (h : j.Held) (level : Nat) :
    Spells (.value j.draft) ((prettyAt level j).map some) := by
  induction h generalizing level with
  | null => exact .null
  | bool b => cases b with
    | true => exact .true
    | false => exact .false
  | number hn => exact spells_number hn
  | string s => exact spells_quoted s
  | @array items _ ih =>
    by_cases hne : items = []
    · rw [hne]
      exact .emptyArray blanks_nil
    · have hitems := spells_items _ _ (blanks_newline (level + 1)) (blanks_newline level) hne
        fun j hj => ih j hj (level + 1)
      simpa [draft, prettyAt, prettyItems_eq, hne] using Spells.array hitems
  | @object members _ ih =>
    by_cases hne : members = []
    · rw [hne]
      exact .emptyObject blanks_nil
    · have hmembers := spells_members _ [' '] _ (blanks_newline (level + 1))
        (by simp [Blanks, isBlank]) (blanks_newline level) hne fun m hm => ih m hm (level + 1)
      simpa [draft, prettyAt, prettyMembers_eq, hne] using Spells.object hmembers

/-- The text of a value spells it, in either layout and with any blanks behind it. -/
theorem spells_text {j : Json} (h : j.Held) (behind : List Char)
    (hbehind : Blanks (behind.map some)) :
    Spells (.element j.draft) (symbolsOf (j.toCompact ++ String.ofList behind)) ∧
    Spells (.element j.draft) (symbolsOf (j.toPretty ++ String.ofList behind)) := by
  constructor
  · simpa [symbolsOf, toCompact] using Spells.element blanks_nil (spells_compact h) hbehind
  · simpa [symbolsOf, toPretty] using Spells.element blanks_nil (spells_prettyAt h 0) hbehind

/-- **What is written can be read**: the text of a value in either layout, with any blanks behind it,
is read as that value. -/
theorem ofSymbols_text {j : Json} (h : j.Held) (behind : List Char)
    (hbehind : Blanks (behind.map some)) :
    Draft.ofSymbols (Text.symbols (j.toCompact ++ String.ofList behind).toUTF8) = (j.draft, true) ∧
    Draft.ofSymbols (Text.symbols (j.toPretty ++ String.ofList behind).toUTF8) = (j.draft, true) := by
  obtain ⟨hcompact, hpretty⟩ := spells_text h behind hbehind
  rw [Text.symbols_toUTF8, Text.symbols_toUTF8]
  exact ⟨Draft.ofSymbols_of_spells hcompact, Draft.ofSymbols_of_spells hpretty⟩

end ModText.Json
