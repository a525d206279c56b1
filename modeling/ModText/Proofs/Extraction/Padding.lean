import ModText.Proofs.Extraction.Alike
import ModText.Proofs.Idiom.Lines
import ModText.Proofs.Idiom.Quiet

/-!
# The ends of a method

Nothing is found at an opaque instruction, and a site that has only opaque instructions left on one
side looks the same as one where the stream ends. So it makes no difference whether a method body
starts and ends where its idioms do, or has opaque instructions around them: outside a stream there is
nothing to match.
-/

namespace ModText

/-- The stream with opaque instructions in front of it and behind it. -/
def pad (front behind : Nat) (code : List Instruction) : List Instruction :=
  List.replicate front .other ++ code ++ List.replicate behind .other

/-- Opaque instructions are put in front of the stream and behind it, any number of them. -/
def Padded (code padded : List Instruction) : Prop :=
  ∃ front behind, padded = pad front behind code

/-! ## Looking over the end -/

section

variable (l : List Instruction) (count k : Nat)

/-- Behind the end there is an opaque instruction where there was none. -/
theorem getElem?_append_others :
    (l ++ List.replicate count .other)[k]? = l[k]? ∨
      l[k]? = none ∧ (l ++ List.replicate count .other)[k]? = some .other := by
  rcases Nat.lt_or_ge k l.length with hlt | hge
  · exact .inl (List.getElem?_append_left hlt)
  · have hnone : l[k]? = none := List.getElem?_eq_none hge
    rw [List.getElem?_append_right hge, List.getElem?_replicate, hnone]
    split
    · exact .inr ⟨rfl, rfl⟩
    · exact .inl rfl

theorem bind_getElem?_append_others {α : Type} {f : Instruction → Option α} (hf : f .other = none) :
    (l ++ List.replicate count .other)[k]?.bind f = l[k]?.bind f := by
  rcases getElem?_append_others l count k with h | ⟨hnone, h⟩
  · rw [h]
  · rw [h, hnone, Option.bind_some, hf, Option.bind_none]

theorem any_getElem?_append_others {p : Instruction → Bool} (hp : p .other = false) :
    (l ++ List.replicate count .other)[k]?.any p = l[k]?.any p := by
  rcases getElem?_append_others l count k with h | ⟨hnone, h⟩
  · rw [h]
  · rw [h, hnone, Option.any_some, hp, Option.any_none]

end

theorem operandTexts_append_others (found : List String) (code : List Instruction)
    (count operands : Nat) : operandTexts found (code ++ List.replicate count .other) operands =
      operandTexts found code operands := by
  have hnone : (List.replicate count Instruction.other).filter (·.isOperand) = [] :=
    List.filter_eq_nil_iff.2 fun i hi => by rw [List.eq_of_mem_replicate hi]; decide
  rw [operandTexts_eq, operandTexts_eq, List.filter_append, hnone, List.append_nil]

theorem firstLoad?_append_others (slot : UInt16) (code : List Instruction) (count : Nat) :
    firstLoad? slot (code ++ List.replicate count .other) =
      (firstLoad? slot code).map (· ++ List.replicate count .other) := by
  induction code with
  | nil =>
    induction count with
    | zero => rfl
    | succ count ih => simpa [List.replicate_succ, firstLoad?, Instruction.localLoad?] using ih
  | cons i code ih =>
    rw [List.cons_append, firstLoad?, firstLoad?]
    split
    · rfl
    · exact ih

/-! ## Sites -/

namespace Site

/-- The site with opaque instructions beyond the ends of its stream. -/
def pad (front behind : Nat) (s : Site) : Site where
  before := s.before ++ List.replicate front .other
  here := s.here
  after := s.after ++ List.replicate behind .other

theorem sitesFrom_append (before code rest : List Instruction) :
    sitesFrom before (code ++ rest) =
      (sitesFrom before code).map (fun s => { s with after := s.after ++ rest }) ++
        sitesFrom (code.reverse ++ before) rest := by
  induction code generalizing before with
  | nil => rfl
  | cons i code ih => simp [sitesFrom, ih]

theorem sitesFrom_append_before (before front code : List Instruction) :
    sitesFrom (before ++ front) code =
      (sitesFrom before code).map fun s => { s with before := s.before ++ front } := by
  induction code generalizing before with
  | nil => rfl
  | cons i code ih => exact congrArg _ (ih (i :: before))

/-- The sites of a padded stream are those of the stream, padded, between opaque ones. -/
theorem exists_sites_pad (front behind : Nat) (code : List Instruction) :
    ∃ ahead beyond : List Site, (∀ s ∈ ahead, s.here = .other) ∧ (∀ s ∈ beyond, s.here = .other) ∧
      sites (ModText.pad front behind code) =
        ahead ++ (sites code).map (pad front behind) ++ beyond := by
  have hothers : ∀ (before : List Instruction) (count : Nat),
      ∀ s ∈ sitesFrom before (List.replicate count .other), s.here = .other :=
    fun _ _ _ hs => List.eq_of_mem_replicate (here_mem_of_mem_sitesFrom hs)
  have hmiddle : (sitesFrom (List.replicate front .other) code).map
      (fun s => { s with after := s.after ++ List.replicate behind .other }) =
        (sites code).map (pad front behind) := by
    have hfront := sitesFrom_append_before [] (List.replicate front .other) code
    rw [List.nil_append] at hfront
    rw [hfront, List.map_map]
    rfl
  refine ⟨(sitesFrom [] (List.replicate front .other)).map fun s =>
      { s with after := s.after ++ (code ++ List.replicate behind .other) },
    sitesFrom (code.reverse ++ List.replicate front .other) (List.replicate behind .other), ?_,
    hothers _ behind, ?_⟩
  · simpa using hothers [] front
  · rw [sites, ModText.pad, List.append_assoc, sitesFrom_append, List.reverse_replicate,
      List.append_nil, sitesFrom_append, hmiddle, List.append_assoc]

/-- What sites show is the same in a padded stream if opaque sites show nothing and the others show
the same whether or not there is something opaque beyond the ends. -/
theorem flatMap_sites_pad {β : Type} {shown : Site → List β} {front behind : Nat}
    (hothers : ∀ s, s.here = .other → shown s = [])
    (hpad : ∀ s, shown (s.pad front behind) = shown s) (code : List Instruction) :
    (sites (ModText.pad front behind code)).flatMap shown = (sites code).flatMap shown := by
  obtain ⟨ahead, beyond, hahead, hbeyond, hsites⟩ := exists_sites_pad front behind code
  rw [hsites, List.flatMap_append, List.flatMap_append, List.flatMap_map,
    List.flatMap_eq_nil_iff.2 fun s hs => hothers s (hahead s hs),
    List.flatMap_eq_nil_iff.2 fun s hs => hothers s (hbeyond s hs), List.nil_append, List.append_nil]
  simp only [hpad]

theorem filterMap_sites_pad {β : Type} {find : Site → Option β} {front behind : Nat}
    (hothers : ∀ s, s.here = .other → find s = none)
    (hpad : ∀ s, find (s.pad front behind) = find s) (code : List Instruction) :
    (sites (ModText.pad front behind code)).filterMap find = (sites code).filterMap find := by
  rw [List.filterMap_eq_flatMap_toList, List.filterMap_eq_flatMap_toList]
  exact flatMap_sites_pad (fun s hs => by rw [hothers s hs]; rfl) (fun s => by rw [hpad]) code

/-! ## What sites find -/

variable (front behind : Nat) (s : Site)

theorem bind_previous?_pad {α : Type} {f : Instruction → Option α} (hf : f .other = none) :
    (s.pad front behind).previous?.bind f = s.previous?.bind f := by
  rw [previous?, previous?, List.head?_eq_getElem?, List.head?_eq_getElem?]
  exact bind_getElem?_append_others s.before front 0 hf

theorem any_previous?_pad {p : Instruction → Bool} (hp : p .other = false) :
    (s.pad front behind).previous?.any p = s.previous?.any p := by
  rw [previous?, previous?, List.head?_eq_getElem?, List.head?_eq_getElem?]
  exact any_getElem?_append_others s.before front 0 hp

theorem bind_next?_pad {α : Type} {f : Instruction → Option α} (hf : f .other = none) :
    (s.pad front behind).next?.bind f = s.next?.bind f := by
  rw [next?, next?, List.head?_eq_getElem?, List.head?_eq_getElem?]
  exact bind_getElem?_append_others s.after behind 0 hf

theorem any_next?_pad {p : Instruction → Bool} (hp : p .other = false) :
    (s.pad front behind).next?.any p = s.next?.any p := by
  rw [next?, next?, List.head?_eq_getElem?, List.head?_eq_getElem?]
  exact any_getElem?_append_others s.after behind 0 hp

theorem defaultText?_pad : (s.pad front behind).defaultText? = s.defaultText? := by
  rw [defaultText?, defaultText?, any_next?_pad _ _ _ rfl, bind_previous?_pad _ _ _ rfl]
  rfl

theorem setBonus?_pad : (s.pad front behind).setBonus? = s.setBonus? := by
  rw [setBonus?, setBonus?, bind_next?_pad _ _ _ rfl]
  rfl

theorem argumentText?_pad (argument : UInt16) :
    (s.pad front behind).argumentText? argument = s.argumentText? argument := by
  rw [argumentText?, argumentText?, any_previous?_pad _ _ _ rfl]
  rfl

theorem message?_pad : (s.pad front behind).message? = s.message? := by
  rw [message?, message?, pad, bind_getElem?_append_others _ _ _ rfl]

theorem tooltipLine_pad : (s.pad front behind).tooltipLine = s.tooltipLine := by
  have hpieces : ∀ operands, (s.pad front behind).concatPieces operands = s.concatPieces operands :=
    fun operands => operandTexts_append_others [] s.before front operands
  rw [tooltipLine_eq, tooltipLine_eq]
  simp only [hpieces]
  simp only [pad, bind_getElem?_append_others _ _ _ (show Instruction.string? .other = none from rfl),
    bind_getElem?_append_others _ _ _ (show Instruction.call? .other = none from rfl)]

theorem overflow?_pad : (s.pad front behind).overflow? = s.overflow? := by
  rw [overflow?, overflow?, bind_previous?_pad _ _ _ rfl]
  rfl

theorem registration?_pad : (s.pad front behind).registration? = s.registration? := by
  have hvalue : ∀ used : List Instruction,
      ((used ++ List.replicate behind Instruction.other).head?.bind fun i => i.string?) =
        used.head?.bind fun i => i.string? := by
    intro used
    rw [List.head?_eq_getElem?, List.head?_eq_getElem?]
    exact bind_getElem?_append_others used behind 0 rfl
  rw [registration?, registration?, bind_previous?_pad _ _ _ rfl]
  change (if s.here.callsNamed registeringMethod then _ else none) = _
  congr 1
  rw [pad]
  cases s.after with
  | nil => cases behind <;> rfl
  | cons store rest =>
    simp only [List.cons_append, firstLoad?_append_others, Option.bind_eq_bind, Option.bind_map,
      Function.comp_def, hvalue]

end Site

/-! ## Code and modules -/

/-- All scans find the same in a padded stream. -/
theorem Padded.findsAlike {code padded : List Instruction} (h : Padded code padded) :
    FindsAlike code padded := by
  obtain ⟨front, behind, rfl⟩ := h
  refine ⟨?_, ?_, ?_, ?_, ?_, ?_, ?_, ?_⟩
  · exact Site.filterMap_sites_pad (fun s hs => by rw [Site.defaultText?, hs]; rfl)
      (fun s => s.defaultText?_pad front behind) code
  · simp [stringLiterals, pad, Instruction.string?]
  · exact Site.flatMap_sites_pad (fun s hs => by rw [Site.tooltipLine, hs]; rfl)
      (fun s => s.tooltipLine_pad front behind) code
  · rw [tooltipOverflow?, tooltipOverflow?, ← List.head?_filterMap, ← List.head?_filterMap]
    exact congrArg List.head? (Site.filterMap_sites_pad (fun s hs => by rw [Site.overflow?, hs]; rfl)
      (fun s => s.overflow?_pad front behind) code)
  · exact congrArg List.getLast? (Site.filterMap_sites_pad (fun s hs => by rw [Site.setBonus?, hs]; rfl)
      (fun s => s.setBonus?_pad front behind) code)
  · exact fun argument => congrArg List.getLast? (Site.filterMap_sites_pad
      (fun s hs => by rw [Site.argumentText?, hs]; rfl)
      (fun s => s.argumentText?_pad front behind argument) code)
  · exact Site.filterMap_sites_pad (fun s hs => by rw [Site.message?, hs]; rfl)
      (fun s => s.message?_pad front behind) code
  · exact Site.filterMap_sites_pad (fun s hs => by rw [Site.registration?, hs]; rfl)
      (fun s => s.registration?_pad front behind) code

/-- **The ends of a method are like opaque instructions.** Whatever number of them is put in front of
the code of any methods of a module, and behind it, the same records are extracted, and a program that
checks its sums stops at the same ones. -/
theorem Module.extract_of_padded {m n : Module} (h : m.Alike Padded n) (selection : List Category) :
    n.extract selection = m.extract selection ∧
      n.extractChecked selection = m.extractChecked selection :=
  ⟨Module.extract_alike Padded.findsAlike h selection,
    Module.extractChecked_alike Padded.findsAlike h selection⟩

/-- A type whose idioms reach to both ends of their methods: the text of a message comes first, the text
of a tile is handed over last, and one method has no body. -/
def beacon (front behind : Nat) : TypeDef where
  name := "Beacon"
  marks := { tile := true }
  methods := [
    { name := "Warn", body := some ⟨0, pad front behind
        [.pushString "Fire!", .other, .other, .other, .other, .call ⟨"Main", "NewText", 5⟩]⟩ },
    { name := "Quench" },
    { name := "SetDefaults", body := some ⟨1, pad behind front
        [.loadLocal 0, .pushString "Beacon", .callVirtual ⟨"ModTranslation", "SetDefault", 1⟩]⟩ }]

theorem Module.extract_of_padded_beacon :
    let m : Module := ⟨[beacon 0 0]⟩
    let n : Module := ⟨[beacon 3 1]⟩
    m.Alike Padded n ∧ n.extract Category.all = m.extract Category.all ∧
      m.extract Category.all =
        { misc := [⟨"Beacon", "", "Warn", ["Fire!"]⟩], tiles := [⟨"Beacon", "", some "Beacon"⟩] } := by
  intro m n
  have halike : m.Alike Padded n := by
    refine .cons ⟨rfl, rfl, rfl, .cons ?_ (.cons ?_ (.cons ?_ .nil))⟩ .nil
    · exact ⟨rfl, rfl, rfl, rfl, .some ⟨3, 1, by simp [pad]⟩⟩
    · exact ⟨rfl, rfl, rfl, rfl, .none⟩
    · exact ⟨rfl, rfl, rfl, rfl, .some ⟨1, 3, by simp [pad]⟩⟩
  exact ⟨halike, (Module.extract_of_padded halike _).1, by decide +kernel⟩

end ModText
