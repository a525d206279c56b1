import ModText.Idiom.Pattern
import ModText.Proofs.Idiom.Positions

/-!
# Positions as machine words

What stands at a position is asked for with sums of machine words, and a sum may leave their range. Here
every question is put over the integers as well, where no sum does and a position outside the stream has
nothing at it. Both answers are the same, but for the ends of the range: a cursor that was placed in the
upper half of it looks around a negative position, and there are sums that have no word.

A stream has fewer instructions than the signed words can count, as everything in memory has.
-/

namespace ModText

/-! ## Steps of a cursor -/

namespace Cursor

/-- What a cursor is asked to do. -/
inductive Step where
  | advance
  | peek (offset : Int64)

/-- What a cursor answers: the instruction it went on to, with its position, or the one it looked at. -/
inductive Answer where
  | met (found : Option (Nat × Instruction))
  | seen (found : Option Instruction)
  deriving DecidableEq

/-- The answer to a step, and the cursor behind it. -/
def answer (c : Cursor) : Step → Except Overflow (Answer × Cursor)
  | .advance => .ok (.met (c.advance.1.map fun (p, i) => (p.toNat, i)), c.advance.2)
  | .peek offset => (c.peek offset).map fun found => (.seen found, c)

/-- The answers to steps, one after the other. An overflow ends them. -/
def run (c : Cursor) : List Step → Except Overflow (List Answer)
  | [] => .ok []
  | s :: rest => do
    let (a, c) ← c.answer s
    return a :: (← c.run rest)

variable {code : List Instruction}

namespace Step

/-- The answer over the integers, for a cursor in front of the position `next`. -/
def answerAt (code : List Instruction) (next : Nat) : Step → Answer
  | .advance => .met (code[next]?.map (next, ·))
  | .peek offset => .seen (if next = 0 then none else instructionAt? code (next - 1 + offset.toInt))

/-- The position in front of which the cursor is after a step. -/
def goOn (code : List Instruction) (next : Nat) : Step → Nat
  | .advance => if next < code.length then next + 1 else next
  | .peek _ => next

/-- The position that is looked at can be told by words: a sum from the lower half of the range stays in
it, and one from the upper half neither falls below it nor comes round to the stream again. -/
def Fits (code : List Instruction) (next : Nat) : Step → Prop
  | .advance => True
  | .peek offset =>
    next = 0 ∨
      if next ≤ 0x8000000000000000 then next - 1 + offset.toInt < 0x8000000000000000
      else 0x8000000000000000 ≤ next - 1 + offset.toInt ∧
        (next - 1 + offset.toInt < 0x10000000000000000 ∨
          0x10000000000000000 + code.length ≤ next - 1 + offset.toInt)

instance (code : List Instruction) (next : Nat) : (s : Step) → Decidable (s.Fits code next)
  | .advance => inferInstanceAs (Decidable True)
  | .peek _ => inferInstanceAs (Decidable (_ ∨ _))

end Step

/-- The answers over the integers. -/
def answersAt (code : List Instruction) (next : Nat) : List Step → List Answer
  | [] => []
  | s :: rest => s.answerAt code next :: answersAt code (s.goOn code next) rest

end Cursor

/-! ## Words and integers -/

theorem toInt_toInt64 (w : UInt64) :
    w.toInt64.toInt =
      if w.toNat < 0x8000000000000000 then (w.toNat : Int) else w.toNat - 0x10000000000000000 := by
  rw [← Int64.toInt_toBitVec, UInt64.toBitVec_toInt64, BitVec.toInt_eq_toNat_cond,
    UInt64.toNat_toBitVec]
  split <;> split <;> omega

theorem toInt64_eq_minValue_iff {w : UInt64} : w.toInt64 = Int64.minValue ↔ w.toNat = 0x8000000000000000 := by
  rw [← Int64.toInt_inj, toInt_toInt64, Int64.toInt_minValue]
  have := w.toNat_lt
  split <;> omega

theorem instructionAt?_eq_some {code : List Instruction} {position : Int} {x : Instruction} :
    instructionAt? code position = some x ↔ ∃ i : Nat, position = i ∧ code[i]? = some x := by
  cases position with
  | ofNat i =>
    constructor
    · exact fun h => ⟨i, rfl, h⟩
    · rintro ⟨k, hk, h⟩
      obtain rfl : i = k := Int.ofNat.inj hk
      exact h
  | negSucc i =>
    constructor
    · exact nofun
    · rintro ⟨k, hk, -⟩
      cases hk

theorem instructionAt?_eq_none {code : List Instruction} {position : Int} :
    instructionAt? code position = none ↔ position < 0 ∨ code.length ≤ position := by
  cases position with
  | ofNat i =>
    change code[i]? = none ↔ (i : Int) < 0 ∨ (code.length : Int) ≤ i
    rw [List.getElem?_eq_none_iff]
    omega
  | negSucc i =>
    constructor
    · exact fun _ => Or.inl (Int.negSucc_lt_zero i)
    · exact fun _ => rfl

namespace Cursor

variable {code : List Instruction} {c c' : Cursor} {next : Nat} {s : Step} {a : Answer}

/-- The cursor stands in front of that position of the stream. -/
structure Before (code : List Instruction) (next : Nat) (c : Cursor) : Prop where
  instructions : c.instructions = code
  next : c.next.toNat = next

theorem before_startingAt (code : List Instruction) (start : UInt64) :
    (startingAt code start).Before code start.toNat :=
  ⟨rfl, rfl⟩

/-- Going on never leaves the range, because the stream ends in its lower half. -/
theorem Before.answer_advance (h : c.Before code next) (hcode : code.length < 0x8000000000000000) :
    ∃ c', c.answer .advance = .ok (Step.advance.answerAt code next, c') ∧
      c'.Before code (Step.advance.goOn code next) := by
  obtain ⟨rfl, rfl⟩ := h
  rw [answer, advance]
  cases hfound : c.instructions[c.next.toNat]? with
  | none =>
    have hend := List.getElem?_eq_none_iff.1 hfound
    refine ⟨c, by simp [Step.answerAt, hfound], rfl, ?_⟩
    rw [Step.goOn, if_neg (by omega)]
  | some i =>
    obtain ⟨hlt, -⟩ := List.getElem?_eq_some_iff.1 hfound
    refine ⟨{ c with next := c.next + 1 }, by simp [Step.answerAt, hfound], rfl, ?_⟩
    have hone : (c.next + 1).toNat = (c.next.toNat + 1) % 0x10000000000000000 := UInt64.toNat_add c.next 1
    rw [Step.goOn, if_pos hlt, hone]
    exact Nat.mod_eq_of_lt (by omega)

/-- Looking around answers as over the integers exactly if the position fits. -/
theorem Before.peek_eq_ok_iff (h : c.Before code next) (hcode : code.length < 0x8000000000000000)
    {offset : Int64} :
    c.peek offset = .ok (if next = 0 then none else instructionAt? code (next - 1 + offset.toInt)) ↔
      (Step.peek offset).Fits code next := by
  obtain ⟨rfl, rfl⟩ := h
  rw [peek, position?, Step.Fits]
  by_cases hzero : c.next = 0
  · simp [hzero]
  · have hpos : c.next.toNat ≠ 0 := fun hn => hzero (UInt64.toNat_inj.1 hn)
    have hprevious : (c.next - 1).toNat = c.next.toNat - 1 :=
      UInt64.toNat_sub_of_le _ _ (UInt64.le_iff_toNat_le.2 (by rw [UInt64.toNat_one]; omega))
    have hword := toInt_toInt64 (c.next - 1)
    rw [hprevious] at hword
    have hlower := offset.le_toInt
    have hupper := offset.toInt_lt
    have hrange := c.next.toNat_lt
    rw [if_neg hzero, if_neg hpos]
    simp only [hpos, false_or, Int64.toInt_minValue, Int64.toInt_maxValue]
    by_cases hlow : c.next.toNat ≤ 0x8000000000000000
    · have hsame : (c.next - 1).toInt64.toInt = c.next.toNat - 1 := by
        rw [hword, if_pos (by omega)]
        omega
      rw [hsame, if_pos hlow]
      by_cases hfits : (c.next.toNat : Int) - 1 + offset.toInt < 0x8000000000000000
      · rw [if_pos (by omega)]
        exact iff_of_true rfl hfits
      · rw [if_neg (by omega)]
        exact iff_of_false nofun hfits
    · -- the word stands for a negative number, which is less by the size of the range
      have hless : (c.next - 1).toInt64.toInt = c.next.toNat - 1 - 0x10000000000000000 := by
        rw [hword, if_neg (by omega)]
        omega
      rw [hless, if_neg hlow]
      by_cases hfits : 0x8000000000000000 ≤ (c.next.toNat : Int) - 1 + offset.toInt
      · have houtside : instructionAt? c.instructions (c.next.toNat - 1 + offset.toInt) = none :=
          instructionAt?_eq_none.2 (by omega)
        rw [if_pos (by omega), houtside, Except.ok.injEq, instructionAt?_eq_none]
        omega
      · rw [if_neg (by omega)]
        exact iff_of_false nofun fun h => hfits h.1

/-! ### Runs -/

theorem run_cons_eq_ok {rest : List Step} {as : List Answer} :
    c.run (s :: rest) = .ok (a :: as) ↔ ∃ c', c.answer s = .ok (a, c') ∧ c'.run rest = .ok as := by
  rw [run]
  cases c.answer s with
  | error e => exact iff_of_false nofun nofun
  | ok told =>
    obtain ⟨a', c'⟩ := told
    cases hrest : c'.run rest with
    | error e => simp [bind, Except.bind, hrest]
    | ok as' => simp [bind, Except.bind, pure, Except.pure, hrest]

/-- A step answers as over the integers exactly if it fits, and then the cursor is where it is over
the integers. -/
theorem Before.exists_answer (h : c.Before code next) (hcode : code.length < 0x8000000000000000) (s : Step) :
    ∃ c', c'.Before code (s.goOn code next) ∧
      ∀ d, c.answer s = .ok (s.answerAt code next, d) ↔ s.Fits code next ∧ d = c' := by
  cases s with
  | advance =>
    obtain ⟨c', hanswer, hbefore⟩ := h.answer_advance hcode
    refine ⟨c', hbefore, fun d => ?_⟩
    simp [hanswer, Step.Fits, eq_comm]
  | peek offset =>
    refine ⟨c, h, fun d => ?_⟩
    rw [← h.peek_eq_ok_iff hcode, answer, Step.answerAt]
    cases c.peek offset <;> simp [Except.map, eq_comm]

/-- **A cursor answers as over the integers** exactly if every step fits where the cursor is when its
turn comes. -/
theorem Before.run_eq_ok_iff (h : c.Before code next) (hcode : code.length < 0x8000000000000000)
    (steps : List Step) :
    c.run steps = .ok (answersAt code next steps) ↔
      ∀ front s rest, steps = front ++ s :: rest →
        s.Fits code (front.foldl (Step.goOn code) next) := by
  induction steps generalizing c next with
  | nil => simp [run, answersAt]
  | cons s rest ih =>
    obtain ⟨c', hbefore, hanswer⟩ := h.exists_answer hcode s
    have hrun : c.run (s :: rest) = .ok (answersAt code next (s :: rest)) ↔
        s.Fits code next ∧ c'.run rest = .ok (answersAt code (s.goOn code next) rest) := by
      rw [answersAt, run_cons_eq_ok]
      simp only [hanswer, and_assoc, exists_and_left, exists_eq_left]
    rw [hrun, ih hbefore]
    constructor
    · rintro ⟨hfits, hrest⟩ front s' rest' hsplit
      cases front with
      | nil =>
        obtain ⟨rfl, -⟩ := List.cons.inj hsplit
        exact hfits
      | cons first front =>
        obtain ⟨rfl, htail⟩ := List.cons.inj hsplit
        exact hrest front s' rest' htail
    · intro hall
      exact ⟨hall [] s rest rfl, fun front s' rest' hsplit =>
        hall (s :: front) s' rest' (congrArg (s :: ·) hsplit)⟩

/-- Over the integers a cursor never leaves the stream by going on. -/
theorem foldl_goOn_le (hnext : next ≤ code.length) (front : List Step) :
    front.foldl (Step.goOn code) next ≤ code.length := by
  induction front generalizing next with
  | nil => exact hnext
  | cons s front ih =>
    refine ih ?_
    cases s with
    | peek offset => exact hnext
    | advance =>
      rw [Step.goOn]
      split <;> omega

/-- Inside the stream every step fits that does not look farther than words can tell. -/
theorem fits_of_le (hnext : next ≤ code.length) (hcode : code.length < 0x8000000000000000)
    (hnear : ∀ offset, s = .peek offset → code.length + offset.toInt ≤ 0x8000000000000000) :
    s.Fits code next := by
  cases s with
  | advance => trivial
  | peek offset =>
    have hoffset := hnear offset rfl
    rw [Step.Fits, if_pos (by omega)]
    omega

end Cursor

/-! ## Scans -/

/-- The texts among the operands in front of a position, which may be any number. The walk goes back from
position to position, and outside the stream it ends. -/
def piecesBefore (code : List Instruction) : Nat → Nat → List String
  | _, 0 => []
  | 0, _ + 1 => []
  | i + 1, n + 1 =>
    match code[i]? with
    | none => []
    | some x =>
      match x.string? with
      | some text => piecesBefore code i n ++ [text]
      | none => piecesBefore code i (if x.isElementLoad then n else n + 1)

/-- The position is the first one behind another at which the local is loaded. -/
structure IsNextLoad (code : List Instruction) (store : Nat) (slot : UInt16) (i : Nat) : Prop where
  behind : store < i
  load : code[i]? = some (.loadLocal slot)
  first : ∀ k, store < k → k < i → code[k]? ≠ some (.loadLocal slot)

variable {code : List Instruction}

theorem operandTexts_take {i : Nat} (hi : i ≤ code.length) (found : List String) (n : Nat) :
    operandTexts found (code.take i).reverse n = piecesBefore code i n ++ found := by
  induction i generalizing found n with
  | zero => cases n <;> rfl
  | succ i ih =>
    have hlt : i < code.length := hi
    cases n with
    | zero => simp [operandTexts, piecesBefore]
    | succ n =>
      rw [List.take_add_one, List.getElem?_eq_getElem hlt, Option.toList_some,
        List.reverse_concat', operandTexts, piecesBefore, List.getElem?_eq_getElem hlt]
      simp only
      cases code[i].string? with
      | some text => simp [ih (Nat.le_of_lt hlt)]
      | none => exact ih (Nat.le_of_lt hlt) _ _

/-- The pieces are those in front of the position, except in front of the one number that a signed word
has no number below. -/
theorem concatPieces_eq_ok_iff {position operands : UInt64} {pieces : List String} :
    concatPieces code position operands = .ok pieces ↔
      position.toNat ≠ 0x8000000000000000 ∧ pieces = piecesBefore code position.toNat operands.toNat := by
  rw [concatPieces]
  by_cases hleast : position.toInt64 = Int64.minValue
  · rw [if_pos hleast]
    exact iff_of_false nofun fun h => h.1 (toInt64_eq_minValue_iff.1 hleast)
  · have hne : position.toNat ≠ 0x8000000000000000 := fun h => hleast (toInt64_eq_minValue_iff.2 h)
    rw [if_neg hleast]
    by_cases hinside : position.toNat ≤ code.length
    · rw [if_pos hinside, operandTexts_take hinside, List.append_nil, Except.ok.injEq]
      exact ⟨fun h => ⟨hne, h.symm⟩, fun h => h.2.symm⟩
    · have hnothing : piecesBefore code position.toNat operands.toNat = [] := by
        obtain ⟨i, hi⟩ := Nat.exists_eq_add_of_lt (Nat.lt_of_not_le hinside)
        rw [hi]
        cases operands.toNat with
        | zero => rfl
        | succ n => rw [piecesBefore, List.getElem?_eq_none (Nat.le_add_right _ _)]
      rw [if_neg hinside, hnothing, Except.ok.injEq]
      exact ⟨fun h => ⟨hne, h.symm⟩, fun h => h.2.symm⟩

theorem findIdx?_localLoad_eq_some {slot : UInt16} {n : Nat} :
    code.findIdx? (·.localLoad? == some slot) = some n ↔
      code[n]? = some (.loadLocal slot) ∧ ∀ k < n, code[k]? ≠ some (.loadLocal slot) := by
  have hload : ∀ x : Instruction, (x.localLoad? == some slot) = true ↔ x = .loadLocal slot :=
    fun x => beq_iff_eq.trans Instruction.localLoad?_eq_some
  rw [List.findIdx?_eq_some_iff_getElem]
  simp only [hload]
  constructor
  · rintro ⟨hn, hhere, hbefore⟩
    refine ⟨List.getElem?_eq_some_iff.2 ⟨hn, hhere⟩, fun k hk hload => ?_⟩
    exact hbefore k hk (List.getElem?_eq_some_iff.1 hload).2
  · rintro ⟨hhere, hbefore⟩
    obtain ⟨hn, hhere⟩ := List.getElem?_eq_some_iff.1 hhere
    exact ⟨hn, hhere, fun k hk hload => hbefore k hk (List.getElem?_eq_some_iff.2 ⟨_, hload⟩)⟩

/-- The next load is found, except behind the last of all words. -/
theorem nextLocalLoad_eq_ok_iff {store : UInt64} {slot : UInt16} {found : Option Nat} :
    nextLocalLoad code store slot = .ok found ↔
      store.toNat + 1 < UInt64.size ∧ ∀ i, found = some i ↔ IsNextLoad code store.toNat slot i := by
  have hnext : ∀ i, (((code.drop (store.toNat + 1)).findIdx? (·.localLoad? == some slot)).map
      (store.toNat + 1 + ·)) = some i ↔ IsNextLoad code store.toNat slot i := by
    intro i
    simp only [Option.map_eq_some_iff, findIdx?_localLoad_eq_some, List.getElem?_drop]
    constructor
    · rintro ⟨n, ⟨hload, hbefore⟩, rfl⟩
      refine ⟨by omega, hload, fun k hk hlt => ?_⟩
      obtain ⟨j, rfl⟩ := Nat.exists_eq_add_of_le (Nat.succ_le_of_lt hk)
      exact hbefore j (by omega)
    · intro h
      obtain ⟨n, rfl⟩ := Nat.exists_eq_add_of_le (Nat.succ_le_of_lt h.behind)
      exact ⟨n, ⟨h.load, fun k hk => h.first _ (by omega) (by omega)⟩, rfl⟩
  rw [nextLocalLoad]
  by_cases hlast : store.toNat + 1 < UInt64.size
  · rw [if_pos hlast, Except.ok.injEq, eq_comm, Option.ext_iff]
    simp only [hnext, hlast, true_and]
  · rw [if_neg hlast]
    exact iff_of_false nofun fun h => hlast h.1

/-- **Lookups answer as over the integers, except at the ends of the range.** What is found at a signed
position is what stands there. A cursor answers any steps as over the integers exactly if each of them
fits, the next load of a local is found exactly unless the search is to begin behind the last word, and the
pieces of a concatenation exactly unless they are to stand in front of the least signed word. So nothing
goes wrong for a cursor that was placed in the stream and looks around near it. -/
theorem lookups_as_over_integers (code : List Instruction) (hcode : code.length < 0x8000000000000000) :
    (∀ (position : Int64) (x : Instruction), instructionAt? code position.toInt = some x ↔
      ∃ i : Nat, position.toInt = i ∧ code[i]? = some x) ∧
    (∀ (start : UInt64) (steps : List Cursor.Step),
      (Cursor.startingAt code start).run steps = .ok (Cursor.answersAt code start.toNat steps) ↔
        ∀ front s rest, steps = front ++ s :: rest →
          s.Fits code (front.foldl (Cursor.Step.goOn code) start.toNat)) ∧
    (∀ (start : UInt64) (steps : List Cursor.Step), start.toNat ≤ code.length →
      (∀ offset : Int64, .peek offset ∈ steps → code.length + offset.toInt ≤ 0x8000000000000000) →
        (Cursor.startingAt code start).run steps = .ok (Cursor.answersAt code start.toNat steps)) ∧
    (∀ (store : UInt64) (slot : UInt16) (found : Option Nat),
      nextLocalLoad code store slot = .ok found ↔
        store.toNat + 1 < UInt64.size ∧ ∀ i, found = some i ↔ IsNextLoad code store.toNat slot i) ∧
    ∀ (position operands : UInt64) (pieces : List String),
      concatPieces code position operands = .ok pieces ↔
        position.toNat ≠ 0x8000000000000000 ∧ pieces = piecesBefore code position.toNat operands.toNat := by
  have hrun := fun start => (Cursor.before_startingAt code start).run_eq_ok_iff hcode
  refine ⟨fun _ _ => instructionAt?_eq_some, hrun, fun start steps hstart hnear => ?_,
    fun _ _ _ => nextLocalLoad_eq_ok_iff, fun _ _ _ => concatPieces_eq_ok_iff⟩
  refine (hrun start steps).2 fun front s rest hsplit => ?_
  refine Cursor.fits_of_le (Cursor.foldl_goOn_le hstart front) hcode fun offset hs => hnear offset ?_
  rw [hsplit, ← hs]
  exact List.mem_append_right front List.mem_cons_self

/-- A stream of three instructions. In front of all words but one a cursor looks round the end of the range
and finds the last of them. -/
theorem lookups_as_over_integers_at_ends :
    let code : List Instruction := [.pushString "a", .loadLocal 1, .loadElement]
    code.length < 0x8000000000000000 ∧
      (Cursor.atStart code).run [.peek 2, .advance, .peek (-1), .peek 2] =
        .ok [.seen none, .met (some (0, .pushString "a")), .seen none, .seen (some .loadElement)] ∧
      (Cursor.startingAt code 0xffffffffffffffff).run [.peek 4] = .ok [.seen (some .loadElement)] ∧
      (Cursor.startingAt code 0xffffffffffffffff).run [.peek 4] ≠ .ok [.seen none] ∧
      (Cursor.startingAt code 0x8000000000000000).run [.peek 1] ≠ .ok [.seen none] ∧
      nextLocalLoad code 0 1 = .ok (some 1) ∧ IsNextLoad code 0 1 1 ∧
      (∀ found, nextLocalLoad code 0xffffffffffffffff 1 ≠ .ok found) ∧
      concatPieces code 3 2 = .ok ["a"] ∧
      ∀ pieces, concatPieces code 0x8000000000000000 0 ≠ .ok pieces := by
  intro code
  have hcode : code.length < 0x8000000000000000 := by decide
  obtain ⟨-, hrun, hnear, hload, hpieces⟩ := lookups_as_over_integers code hcode
  refine ⟨hcode, ?_, by decide, fun h => ?_, fun h => ?_, rfl, ?_, fun found h => ?_, ?_, fun pieces h => ?_⟩
  · exact hnear 0 _ (by decide) (by simp; decide)
  · exact absurd ((hrun _ _).1 h [] _ [] rfl) (by decide)
  · exact absurd ((hrun _ _).1 h [] _ [] rfl) (by decide)
  · exact (((hload 0 1 (some 1)).1 rfl).2 1).1 rfl
  · exact absurd ((hload _ _ _).1 h).1 (by decide)
  · exact (hpieces 3 2 _).2 ⟨by decide, rfl⟩
  · exact absurd rfl ((hpieces _ _ _).1 h).1

end ModText
