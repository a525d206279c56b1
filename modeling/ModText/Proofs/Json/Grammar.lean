import ModText.Json.Reader

/-!
# The grammar of documents

What a text holds can be told without a reader, by the rules of the format: a number is made of its
parts, a text of characters and escapes, and arrays and objects of elements, each of which may have
blanks around it. `Spells` is these rules. The reader goes by them: whatever a text spells is what is
read from it.

A number has no end of its own, so a value can only be read where nothing follows that a number could
go on with. All that may follow a value in a document is of that kind.
-/

namespace ModText.Json

open Text (Symbol symbolsOf)

/-! ## Blanks -/

/-- Nothing but blanks. -/
def Blanks (cs : List Symbol) : Prop :=
  ∀ s ∈ cs, isBlank s = true

theorem blanks_nil : Blanks [] := by
  simp [Blanks]

theorem skipBlanks_append {bs : List Symbol} (h : Blanks bs) (cs : List Symbol) :
    skipBlanks (bs ++ cs) = skipBlanks cs := by
  induction bs with
  | nil => rfl
  | cons b bs ih =>
    have hb : isBlank b = true := h b List.mem_cons_self
    rw [List.cons_append, skipBlanks, List.dropWhile_cons_of_pos hb]
    exact ih fun s hs => h s (List.mem_cons_of_mem b hs)

theorem skipBlanks_cons {s : Symbol} (h : isBlank s = false) (cs : List Symbol) :
    skipBlanks (s :: cs) = s :: cs := by
  rw [skipBlanks, List.dropWhile_cons_of_neg (by simp [h])]

theorem skipBlanks_skipBlanks (cs : List Symbol) : skipBlanks (skipBlanks cs) = skipBlanks cs := by
  induction cs with
  | nil => rfl
  | cons s cs ih =>
    cases hs : isBlank s with
    | true => simpa [skipBlanks, List.dropWhile_cons, hs] using ih
    | false => rw [skipBlanks_cons hs, skipBlanks_cons hs]

/-! ## Numbers -/

/-- At least one digit, and nothing but digits. -/
def Digits (ds : List Char) : Prop :=
  ds ≠ [] ∧ ∀ d ∈ ds, d.isDigit = true

/-- A number could not go on with the symbol. -/
def EndsNumber (s : Symbol) : Prop :=
  isDigit s = false ∧ s ≠ some '.' ∧ s ≠ some 'e' ∧ s ≠ some 'E'

instance (s : Symbol) : Decidable (EndsNumber s) :=
  inferInstanceAs (Decidable (_ ∧ _))

theorem endsNumber_of_isBlank {s : Symbol} (h : isBlank s = true) : EndsNumber s := by
  simp only [isBlank, Bool.or_eq_true, beq_iff_eq] at h
  rcases h with ((rfl | rfl) | rfl) | rfl <;> decide

/-- What follows is nothing that a number could go on with. -/
def Ends (rest : List Symbol) : Prop :=
  ∀ s ∈ rest.head?, EndsNumber s

theorem ends_nil : Ends [] := by
  simp [Ends]

theorem ends_cons {s : Symbol} (h : EndsNumber s) (rest : List Symbol) : Ends (s :: rest) := by
  simpa [Ends] using h

theorem ends_append {bs rest : List Symbol} (hbs : Blanks bs) (hrest : Ends rest) :
    Ends (bs ++ rest) := by
  cases bs with
  | nil => exact hrest
  | cons b bs => exact ends_cons (endsNumber_of_isBlank (hbs b List.mem_cons_self)) _

namespace Numeral

/-- The point with the digits behind it, if there are any. -/
def fractionText : Option (List Char) → List Char
  | some ds => '.' :: ds
  | none => []

/-- The mark with the exponent behind it, if there is one. -/
def exponentText : Option (Char × Option Char × List Char) → List Char
  | some (mark, sign, ds) => mark :: (sign.toList ++ ds)
  | none => []

/-- A numeral by the rules: digits in front of the point, which do not begin with a zero unless it is
the only one, and digits in its other parts. -/
structure Proper (n : Numeral) : Prop where
  whole : Digits n.whole
  zero : n.whole.head? = some '0' → n.whole.length = 1
  fraction : ∀ ds, n.fraction = some ds → Digits ds
  exponent : ∀ mark sign ds, n.exponent = some (mark, sign, ds) →
    (mark = 'e' ∨ mark = 'E') ∧ (∀ s ∈ sign, s = '+' ∨ s = '-') ∧ Digits ds

theorem digits_append {ds : List Char} (hds : ∀ d ∈ ds, d.isDigit = true) {rest : List Symbol}
    (hrest : ∀ s ∈ rest.head?, isDigit s = false) :
    digits (ds.map some ++ rest) = (ds, rest) := by
  have hall : ∀ s ∈ ds.map some, isDigit s = true := by
    simpa [isDigit] using hds
  have hstop : rest.takeWhile isDigit = [] ∧ rest.dropWhile isDigit = rest := by
    cases rest with
    | nil => exact ⟨rfl, rfl⟩
    | cons s rest => simp [hrest s rfl]
  rw [digits, List.takeWhile_append_of_pos hall, List.dropWhile_append_of_pos hall, hstop.1, hstop.2]
  simp

theorem readSign_append {sign : Option Char} (hsign : ∀ s ∈ sign, s = '+' ∨ s = '-')
    {ds : List Char} (hds : Digits ds) (rest : List Symbol) :
    readSign (sign.toList.map some ++ (ds.map some ++ rest)) = (sign, ds.map some ++ rest) := by
  cases sign with
  | some s => rcases hsign s rfl with rfl | rfl <;> rfl
  | none =>
    obtain ⟨hne, hdigit⟩ := hds
    obtain ⟨d, ds, rfl⟩ := List.exists_cons_of_ne_nil hne
    have hd : d.isDigit = true := hdigit d List.mem_cons_self
    have hplus : d ≠ '+' := by
      rintro rfl
      exact absurd hd (by decide)
    have hminus : d ≠ '-' := by
      rintro rfl
      exact absurd hd (by decide)
    simp [readSign, hplus, hminus]

theorem readExponent?_append {n : Numeral} (hn : n.Proper) {rest : List Symbol} (hrest : Ends rest) :
    readExponent? ((exponentText n.exponent).map some ++ rest) = some (n.exponent, rest) := by
  cases hexponent : n.exponent with
  | none =>
    cases rest with
    | nil => rfl
    | cons s rest =>
      obtain ⟨-, -, he, hE⟩ := hrest s rfl
      cases s with
      | none => rfl
      | some c => simp_all [exponentText, readExponent?]
  | some parts =>
    obtain ⟨mark, sign, ds⟩ := parts
    obtain ⟨hmark, hsign, hds⟩ := hn.exponent mark sign ds hexponent
    have hdigits := digits_append hds.2 fun s hs => (hrest s hs).1
    simp only [exponentText, List.map_cons, List.map_append, List.cons_append, List.append_assoc,
      readExponent?, if_pos hmark, readSign_append hsign hds rest, hdigits]
    rw [if_neg (by simpa using hds.1)]

theorem head?_exponentText {n : Numeral} (hn : n.Proper) {rest : List Symbol} (hrest : Ends rest) :
    ∀ s ∈ ((exponentText n.exponent).map some ++ rest).head?, isDigit s = false ∧ s ≠ some '.' := by
  intro s hs
  cases hexponent : n.exponent with
  | none =>
    rw [hexponent] at hs
    exact ⟨(hrest s hs).1, (hrest s hs).2.1⟩
  | some parts =>
    obtain ⟨mark, sign, ds⟩ := parts
    obtain rfl : some mark = s := by simpa [hexponent, exponentText] using hs
    rcases (hn.exponent mark sign ds hexponent).1 with rfl | rfl <;> decide

theorem readFraction?_append {n : Numeral} (hn : n.Proper) {rest : List Symbol}
    (hrest : ∀ s ∈ rest.head?, isDigit s = false ∧ s ≠ some '.') :
    readFraction? ((fractionText n.fraction).map some ++ rest) = some (n.fraction, rest) := by
  cases hfraction : n.fraction with
  | none =>
    cases rest with
    | nil => rfl
    | cons s rest =>
      have hs := (hrest s rfl).2
      cases s with
      | none => rfl
      | some c => simp_all [fractionText, readFraction?]
  | some ds =>
    obtain ⟨hne, hds⟩ := hn.fraction ds hfraction
    simp only [fractionText, List.map_cons, List.cons_append, readFraction?,
      digits_append hds fun s hs => (hrest s hs).1]
    rw [if_neg (by simpa using hne)]

theorem head?_fractionText (n : Numeral) {rest : List Symbol}
    (hrest : ∀ s ∈ rest.head?, isDigit s = false) :
    ∀ s ∈ ((fractionText n.fraction).map some ++ rest).head?, isDigit s = false := by
  intro s hs
  cases hfraction : n.fraction with
  | none =>
    rw [hfraction] at hs
    exact hrest s hs
  | some ds =>
    obtain rfl : some '.' = s := by simpa [hfraction, fractionText] using hs
    rfl

theorem readUnsigned?_append {n : Numeral} (hn : n.Proper) {rest : List Symbol} (hrest : Ends rest) :
    readUnsigned? n.negative (n.whole.map some ++ ((fractionText n.fraction).map some ++
      ((exponentText n.exponent).map some ++ rest))) = some (n, rest) := by
  have hexponent := head?_exponentText hn hrest
  have hfraction := head?_fractionText n fun s hs => (hexponent s hs).1
  have hwhole : ¬ (n.whole.isEmpty || n.whole.head? == some '0' && n.whole.length != 1) := by
    simp only [Bool.or_eq_true, Bool.and_eq_true, not_or, not_and]
    exact ⟨by simpa using hn.whole.1, fun h => by simpa using hn.zero (by simpa using h)⟩
  rw [readUnsigned?, digits_append hn.whole.2 hfraction]
  dsimp only
  rw [if_neg hwhole, readFraction?_append hn hexponent, Option.bind_eq_bind, Option.bind_some,
    readExponent?_append hn hrest]
  rfl

theorem render_eq (n : Numeral) : n.render =
    (if n.negative then ['-'] else []) ++ n.whole ++ fractionText n.fraction ++
      exponentText n.exponent :=
  rfl

theorem exists_cons_render {n : Numeral} (hn : n.Proper) :
    ∃ c rest, n.render = c :: rest ∧ (c = '-' ∨ c.isDigit = true) := by
  obtain ⟨hne, hdigit⟩ := hn.whole
  obtain ⟨d, ds, hwhole⟩ := List.exists_cons_of_ne_nil hne
  rw [render_eq, hwhole]
  cases n.negative with
  | true => exact ⟨_, _, rfl, Or.inl rfl⟩
  | false => exact ⟨_, _, rfl, Or.inr (hdigit d (hwhole ▸ List.mem_cons_self))⟩

/-- A numeral is read to its end and no further. -/
theorem read?_render {n : Numeral} (hn : n.Proper) {rest : List Symbol} (hrest : Ends rest) :
    read? (n.render.map some ++ rest) = some (n, rest) := by
  have hread := readUnsigned?_append hn hrest
  rw [render_eq]
  simp only [List.map_append, List.append_assoc]
  cases hnegative : n.negative with
  | true =>
    rw [hnegative] at hread
    exact hread
  | false =>
    rw [hnegative] at hread
    obtain ⟨hne, hdigit⟩ := hn.whole
    obtain ⟨d, ds, hwhole⟩ := List.exists_cons_of_ne_nil hne
    have hd : d ≠ '-' := by
      rintro rfl
      exact absurd (hdigit '-' (hwhole ▸ List.mem_cons_self)) (by decide)
    rw [hwhole] at hread ⊢
    simpa [read?, hd] using hread

end Numeral

/-! ## Texts -/

/-- How a piece of a text is spelled between quotes. -/
inductive SpellsPiece : Piece → List Symbol → Prop
  | plain {c : Char} : c ≠ '"' → c ≠ '\\' → 32 ≤ c.toNat → SpellsPiece (.char c) [some c]
  | escape {e c : Char} : unescape? e = some c → SpellsPiece (.char c) [some '\\', some e]
  | unit {a b c d : Char} {n : Nat} : hexNumber? a b c d = some n →
      SpellsPiece (.unit n) [some '\\', some 'u', some a, some b, some c, some d]
  | blot : SpellsPiece .blot [none]

/-- How pieces are spelled one after the other. -/
inductive SpellsPieces : List Piece → List Symbol → Prop
  | nil : SpellsPieces [] []
  | cons {p : Piece} {ps : List Piece} {cs rest : List Symbol} :
      SpellsPiece p cs → SpellsPieces ps rest → SpellsPieces (p :: ps) (cs ++ rest)

theorem readPieces?_of_spellsPiece {p : Piece} {cs : List Symbol} (h : SpellsPiece p cs)
    (read : List Piece) (rest : List Symbol) :
    readPieces? read (cs ++ rest) = readPieces? (p :: read) rest := by
  cases h with
  | @plain c hquote hescape hlow =>
    have hc : ¬ c.toNat < 32 := by omega
    simp [readPieces?, hescape, hc]
  | @escape e c he =>
    have hu : e ≠ 'u' := by
      rintro rfl
      cases he
    simp [readPieces?, hu, he]
  | unit hn => simp [readPieces?, hn]
  | blot => simp [readPieces?]

/-- A text is read up to its closing quote. -/
theorem readPieces?_append {ps : List Piece} {cs : List Symbol} (h : SpellsPieces ps cs)
    (read : List Piece) (rest : List Symbol) :
    readPieces? read (cs ++ some '"' :: rest) = some (read.reverse ++ ps, rest) := by
  induction h generalizing read with
  | nil => simp [readPieces?]
  | cons hp _ ih =>
    rw [List.append_assoc, readPieces?_of_spellsPiece hp, ih]
    simp

/-! ## Values -/

/-- What a stretch of a document can hold: a value, one with the blanks around it, or what stands
between the brackets of an array or the braces of an object. -/
inductive Stretch where
  | value (d : Draft)
  | element (d : Draft)
  | items (ds : List Draft)
  | members (ms : List (Option String × Draft))

/-- How a stretch of a document is spelled. -/
inductive Spells : Stretch → List Symbol → Prop
  | null : Spells (.value .null) (symbolsOf "null")
  | true : Spells (.value (.bool true)) (symbolsOf "true")
  | false : Spells (.value (.bool false)) (symbolsOf "false")
  | number {n : Numeral} : n.Proper → Spells (.value (.number n.number?)) (n.render.map some)
  | string {ps : List Piece} {cs : List Symbol} : SpellsPieces ps cs →
      Spells (.value (.string (textOf? ps))) (some '"' :: (cs ++ [some '"']))
  | emptyArray {bs : List Symbol} : Blanks bs →
      Spells (.value (.array [] true)) (some '[' :: (bs ++ [some ']']))
  | array {ds : List Draft} {cs : List Symbol} : Spells (.items ds) cs →
      Spells (.value (.array ds true)) (some '[' :: (cs ++ [some ']']))
  | emptyObject {bs : List Symbol} : Blanks bs →
      Spells (.value (.object [] true)) (some '\x7b' :: (bs ++ [some '\x7d']))
  | object {ms : List (Option String × Draft)} {cs : List Symbol} : Spells (.members ms) cs →
      Spells (.value (.object ms true)) (some '\x7b' :: (cs ++ [some '\x7d']))
  | element {d : Draft} {bs cs bs' : List Symbol} : Blanks bs → Spells (.value d) cs → Blanks bs' →
      Spells (.element d) (bs ++ (cs ++ bs'))
  | item {d : Draft} {cs : List Symbol} : Spells (.element d) cs → Spells (.items [d]) cs
  | items {d : Draft} {ds : List Draft} {cs rest : List Symbol} : Spells (.element d) cs →
      Spells (.items ds) rest → Spells (.items (d :: ds)) (cs ++ some ',' :: rest)
  | member {ps : List Piece} {d : Draft} {bs name bs' cs : List Symbol} : Blanks bs →
      SpellsPieces ps name → Blanks bs' → Spells (.element d) cs →
      Spells (.members [(textOf? ps, d)])
        (bs ++ some '"' :: (name ++ some '"' :: (bs' ++ some ':' :: cs)))
  | members {ps : List Piece} {d : Draft} {ms : List (Option String × Draft)}
      {bs name bs' cs rest : List Symbol} : Blanks bs →
      SpellsPieces ps name → Blanks bs' → Spells (.element d) cs → Spells (.members ms) rest →
      Spells (.members ((textOf? ps, d) :: ms))
        (bs ++ some '"' :: (name ++ some '"' :: (bs' ++ some ':' :: (cs ++ some ',' :: rest))))

namespace Draft

/-- A value begins with a symbol that is neither a blank nor the end of an array. -/
theorem exists_cons_of_spells {d : Draft} {cs : List Symbol} (h : Spells (.value d) cs) :
    ∃ s rest, cs = s :: rest ∧ isBlank s = false ∧ s ≠ some ']' := by
  cases h with
  | number hn =>
    obtain ⟨c, rest, hrender, hc⟩ := Numeral.exists_cons_render hn
    refine ⟨some c, rest.map some, by rw [hrender]; rfl, ?_, ?_⟩
    · cases hblank : isBlank (some c) with
      | false => rfl
      | true =>
        have hdigit := (endsNumber_of_isBlank hblank).1
        rcases hc with rfl | hc
        · exact absurd hblank (by decide)
        · simp_all [isDigit]
    · rintro heq
      cases heq
      rcases hc with hc | hc <;> exact absurd hc (by decide)
  | _ => exact ⟨_, _, rfl, by decide, by decide⟩

theorem skipBlanks_of_spells {d : Draft} {cs : List Symbol} (h : Spells (.value d) cs)
    (rest : List Symbol) : skipBlanks (cs ++ rest) = cs ++ rest := by
  obtain ⟨s, cs, rfl, hs, -⟩ := exists_cons_of_spells h
  exact skipBlanks_cons hs _

theorem skipBlanks_element {d : Draft} {cs : List Symbol} (h : Spells (.element d) cs)
    (rest : List Symbol) : ∃ s more, skipBlanks (cs ++ rest) = s :: more ∧ s ≠ some ']' := by
  cases h with
  | element hbs h _ =>
    obtain ⟨s, more, rfl, hs, hclose⟩ := exists_cons_of_spells h
    rw [List.append_assoc, skipBlanks_append hbs, List.append_assoc, List.cons_append,
      skipBlanks_cons hs]
    exact ⟨s, _, rfl, hclose⟩

theorem skipBlanks_items {ds : List Draft} {cs : List Symbol} (h : Spells (.items ds) cs)
    (rest : List Symbol) : ∃ s more, skipBlanks (cs ++ rest) = s :: more ∧ s ≠ some ']' := by
  cases h with
  | item h => exact skipBlanks_element h rest
  | items h _ =>
    rw [List.append_assoc]
    exact skipBlanks_element h _

theorem skipBlanks_members {ms : List (Option String × Draft)} {cs : List Symbol}
    (h : Spells (.members ms) cs) (rest : List Symbol) :
    ∃ more, skipBlanks (cs ++ rest) = some '"' :: more := by
  cases h with
  | member hbs _ _ _ =>
    rw [List.append_assoc, skipBlanks_append hbs, List.cons_append, skipBlanks_cons (by decide)]
    exact ⟨_, rfl⟩
  | members hbs _ _ _ _ =>
    rw [List.append_assoc, skipBlanks_append hbs, List.cons_append, skipBlanks_cons (by decide)]
    exact ⟨_, rfl⟩

/-- Blanks in front of a part are passed over. -/
theorem read_skipBlanks (fuel : Nat) (cs : List Symbol) :
    read fuel (skipBlanks cs) = read fuel cs := by
  cases fuel with
  | zero => rfl
  | succ fuel => rw [read, read, skipBlanks_skipBlanks]

theorem readItems_skipBlanks (fuel : Nat) (cs : List Symbol) :
    readItems fuel (skipBlanks cs) = readItems fuel cs := by
  cases fuel with
  | zero => rfl
  | succ fuel => rw [readItems, readItems, read_skipBlanks]

theorem readMembers_skipBlanks (fuel : Nat) (cs : List Symbol) :
    readMembers fuel (skipBlanks cs) = readMembers fuel cs := by
  cases fuel with
  | zero => rfl
  | succ fuel => rw [readMembers, readMembers, skipBlanks_skipBlanks]

/-- A stretch is read as what it spells, wherever it stands. -/
def ReadsAs : Stretch → List Symbol → Prop
  | .value d, cs => ∀ fuel rest, cs.length ≤ fuel → Ends rest →
    read (fuel + 1) (cs ++ rest) = (d, some rest)
  | .element d, cs => ∀ fuel rest, cs.length ≤ fuel → Ends rest →
    ∃ bs, Blanks bs ∧ read (fuel + 1) (cs ++ rest) = (d, some (bs ++ rest))
  | .items ds, cs => ∀ fuel rest, cs.length < fuel →
    readItems (fuel + 1) (cs ++ some ']' :: rest) = (ds, some rest)
  | .members ms, cs => ∀ fuel rest, cs.length < fuel →
    readMembers (fuel + 1) (cs ++ some '\x7d' :: rest) = (ms, some rest)

/-- A numeral does not begin like any other value. -/
theorem read_render {n : Numeral} (hn : n.Proper) (fuel : Nat) {rest : List Symbol}
    (hrest : Ends rest) :
    read (fuel + 1) (n.render.map some ++ rest) = (.number n.number?, some rest) := by
  have hskip := skipBlanks_of_spells (.number hn) rest
  have hread := Numeral.read?_render hn hrest
  obtain ⟨c, cs, hrender, hc⟩ := Numeral.exists_cons_render hn
  have hother : ∀ e, e ≠ '-' → e.isDigit = false → c ≠ e := by
    rintro e hminus hdigit rfl
    simp_all
  rw [read, hskip]
  rw [hrender] at hread ⊢
  simp only [List.map_cons, List.cons_append] at hread ⊢
  split
  case h_7 => rw [hread]
  all_goals
    rename_i heq
    exact absurd (Option.some.inj (List.cons.inj heq).1) (hother _ (by decide) (by decide))

namespace ReadsAs

variable {d : Draft} {ds : List Draft} {ms : List (Option String × Draft)} {ps : List Piece}
  {bs name bs' cs behind : List Symbol}

theorem array (h : Spells (.items ds) cs) (hds : ReadsAs (.items ds) cs) :
    ReadsAs (.value (.array ds true)) (some '[' :: (cs ++ [some ']'])) := by
  intro fuel rest hfuel _
  simp only [List.length_append, List.length_cons] at hfuel
  obtain ⟨fuel, rfl⟩ : ∃ f, fuel = f + 1 := ⟨fuel - 1, by omega⟩
  obtain ⟨s, more, hmore, hclose⟩ := skipBlanks_items h (some ']' :: rest)
  have hread := hds fuel rest (by omega)
  rw [← readItems_skipBlanks, hmore] at hread
  rw [List.cons_append, List.append_assoc, List.singleton_append, read, skipBlanks_cons (by decide)]
  simp only [hmore]
  split
  · rename_i heq
    exact absurd (List.cons.inj heq).1 hclose
  · rw [hread]
    rfl

theorem object (h : Spells (.members ms) cs) (hms : ReadsAs (.members ms) cs) :
    ReadsAs (.value (.object ms true)) (some '\x7b' :: (cs ++ [some '\x7d'])) := by
  intro fuel rest hfuel _
  simp only [List.length_append, List.length_cons] at hfuel
  obtain ⟨fuel, rfl⟩ : ∃ f, fuel = f + 1 := ⟨fuel - 1, by omega⟩
  obtain ⟨more, hmore⟩ := skipBlanks_members h (some '\x7d' :: rest)
  have hread := hms fuel rest (by omega)
  rw [← readMembers_skipBlanks, hmore] at hread
  rw [List.cons_append, List.append_assoc, List.singleton_append, read, skipBlanks_cons (by decide)]
  simp only [hmore]
  split
  · rename_i heq
    cases heq
  · rw [hread]
    rfl

theorem element (hbs : Blanks bs) (hbs' : Blanks bs') (hd : ReadsAs (.value d) cs) :
    ReadsAs (.element d) (bs ++ (cs ++ bs')) := by
  intro fuel rest hfuel hrest
  simp only [List.length_append] at hfuel
  refine ⟨bs', hbs', ?_⟩
  rw [List.append_assoc, ← read_skipBlanks, skipBlanks_append hbs, read_skipBlanks,
    List.append_assoc]
  exact hd fuel (bs' ++ rest) (by omega) (ends_append hbs' hrest)

theorem item (hd : ReadsAs (.element d) cs) : ReadsAs (.items [d]) cs := by
  intro fuel rest hfuel
  obtain ⟨fuel, rfl⟩ : ∃ f, fuel = f + 1 := ⟨fuel - 1, by omega⟩
  obtain ⟨bs, hbs, hread⟩ := hd fuel (some ']' :: rest) (by omega) (ends_cons (by decide) _)
  rw [readItems, hread]
  simp only [skipBlanks_append hbs]
  rfl

theorem items (hd : ReadsAs (.element d) cs) (hds : ReadsAs (.items ds) behind) :
    ReadsAs (.items (d :: ds)) (cs ++ some ',' :: behind) := by
  intro fuel rest hfuel
  simp only [List.length_append, List.length_cons] at hfuel
  obtain ⟨fuel, rfl⟩ : ∃ f, fuel = f + 1 := ⟨fuel - 1, by omega⟩
  obtain ⟨bs, hbs, hread⟩ := hd fuel (some ',' :: (behind ++ some ']' :: rest)) (by omega)
    (ends_cons (by decide) _)
  rw [List.append_assoc, List.cons_append, readItems, hread]
  simp only [skipBlanks_append hbs]
  rw [skipBlanks_cons (by decide)]
  simp only [hds fuel rest (by omega)]

theorem member (hbs : Blanks bs) (hps : SpellsPieces ps name) (hbs' : Blanks bs')
    (hd : ReadsAs (.element d) cs) :
    ReadsAs (.members [(textOf? ps, d)])
      (bs ++ some '"' :: (name ++ some '"' :: (bs' ++ some ':' :: cs))) := by
  intro fuel rest hfuel
  simp only [List.length_append, List.length_cons] at hfuel
  obtain ⟨fuel, rfl⟩ : ∃ f, fuel = f + 1 := ⟨fuel - 1, by omega⟩
  obtain ⟨bs'', hbs'', hread⟩ := hd fuel (some '\x7d' :: rest) (by omega) (ends_cons (by decide) _)
  have hname := readPieces?_append hps [] (bs' ++ (some ':' :: (cs ++ some '\x7d' :: rest)))
  simp only [List.append_assoc, List.cons_append]
  rw [readMembers, skipBlanks_append hbs, skipBlanks_cons (by decide)]
  simp only [hname, skipBlanks_append hbs']
  rw [skipBlanks_cons (by decide)]
  simp only [hread, skipBlanks_append hbs'']
  rfl

theorem members (hbs : Blanks bs) (hps : SpellsPieces ps name) (hbs' : Blanks bs')
    (hd : ReadsAs (.element d) cs) (hms : ReadsAs (.members ms) behind) :
    ReadsAs (.members ((textOf? ps, d) :: ms))
      (bs ++ some '"' :: (name ++ some '"' :: (bs' ++ some ':' :: (cs ++ some ',' :: behind)))) := by
  intro fuel rest hfuel
  simp only [List.length_append, List.length_cons] at hfuel
  obtain ⟨fuel, rfl⟩ : ∃ f, fuel = f + 1 := ⟨fuel - 1, by omega⟩
  obtain ⟨bs'', hbs'', hread⟩ := hd fuel (some ',' :: (behind ++ some '\x7d' :: rest)) (by omega)
    (ends_cons (by decide) _)
  have hname := readPieces?_append hps []
    (bs' ++ (some ':' :: (cs ++ some ',' :: (behind ++ some '\x7d' :: rest))))
  simp only [List.append_assoc, List.cons_append]
  rw [readMembers, skipBlanks_append hbs, skipBlanks_cons (by decide)]
  simp only [hname, skipBlanks_append hbs']
  rw [skipBlanks_cons (by decide)]
  simp only [hread, skipBlanks_append hbs'']
  rw [skipBlanks_cons (by decide)]
  simp only [hms fuel rest (by omega)]
  rfl

end ReadsAs

theorem readsAs_of_spells {part : Stretch} {cs : List Symbol} (h : Spells part cs) :
    ReadsAs part cs := by
  induction h with
  | null => exact fun _ _ _ _ => rfl
  | true => exact fun _ _ _ _ => rfl
  | false => exact fun _ _ _ _ => rfl
  | number hn => exact fun fuel _ _ hrest => read_render hn fuel hrest
  | string hps =>
    intro fuel rest _ _
    have hread := readPieces?_append hps [] rest
    rw [List.cons_append, List.append_assoc, read, skipBlanks_cons (by decide)]
    simp [hread]
  | emptyArray hbs =>
    intro fuel rest _ _
    rw [List.cons_append, List.append_assoc, read, skipBlanks_cons (by decide)]
    simp only [skipBlanks_append hbs]
    rfl
  | array h ih => exact .array h ih
  | emptyObject hbs =>
    intro fuel rest _ _
    rw [List.cons_append, List.append_assoc, read, skipBlanks_cons (by decide)]
    simp only [skipBlanks_append hbs]
    rfl
  | object h ih => exact .object h ih
  | element hbs _ hbs' ih => exact .element hbs hbs' ih
  | item _ ih => exact .item ih
  | items _ _ ih ihs => exact .items ih ihs
  | member hbs hps hbs' _ ih => exact .member hbs hps hbs' ih
  | members hbs hps hbs' _ _ ih ihs => exact .members hbs hps hbs' ih ihs

/-- **A document is read as what it spells**, and nothing is left of it. -/
theorem ofSymbols_of_spells {d : Draft} {cs : List Symbol} (h : Spells (.element d) cs) :
    ofSymbols cs = (d, true) := by
  obtain ⟨bs, hbs, hread⟩ := readsAs_of_spells h (2 * cs.length + 1) [] (by omega) ends_nil
  rw [List.append_nil, List.append_nil] at hread
  have hrest : skipBlanks bs = [] := by
    have := skipBlanks_append hbs []
    rwa [List.append_nil] at this
  rw [ofSymbols, hread]
  simp [hrest]

end Draft

end ModText.Json
