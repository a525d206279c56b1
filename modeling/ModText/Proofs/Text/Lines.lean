import ModText.Text.Blank
import Mathlib.Data.List.DropRight

/-!
# Lines and trimmed texts

How a text comes apart into lines can be told without a scan: a line has no line feed in it, and what
stands between two lines is a line feed with a carriage return in front of it, if there is one. Only the
last line may lack its end. Likewise a trimmed text is told by what was taken away: blanks, until there
is no blank at either end.
-/

namespace ModText.Text

/-! ## Lines -/

/-- The text comes apart into these lines. -/
inductive ComesApart : List Char → List (List Char) → Prop
  | nothing : ComesApart [] []
  /-- The last line lacks its end, so it holds something, and a carriage return belongs to it. -/
  | unended {line : List Char} : line ≠ [] → '\n' ∉ line → ComesApart line [line]
  | feed {line rest : List Char} {lines : List (List Char)} :
      '\n' ∉ line → line.getLast? ≠ some '\r' → ComesApart rest lines →
        ComesApart (line ++ '\n' :: rest) (line :: lines)
  | returnFeed {line rest : List Char} {lines : List (List Char)} :
      '\n' ∉ line → ComesApart rest lines →
        ComesApart (line ++ '\r' :: '\n' :: rest) (line :: lines)

theorem comesApart_lines (text : List Char) : ComesApart text (lines text) := by
  fun_induction lines text with
  | case1 => exact .nothing
  | case2 rest ih => exact @ComesApart.feed [] rest (lines rest) List.not_mem_nil nofun ih
  | case3 rest ih => exact @ComesApart.returnFeed [] rest (lines rest) List.not_mem_nil ih
  | case4 c rest hfeed _ hlines ih =>
    rw [hlines] at ih
    cases ih
    exact .unended (List.cons_ne_nil c []) (by simpa using Ne.symm hfeed)
  | case5 c rest hfeed hreturn l ls hlines ih =>
    have hc : ∀ {line : List Char}, '\n' ∉ line → '\n' ∉ c :: line := fun hline =>
      List.not_mem_cons_of_ne_of_not_mem (Ne.symm hfeed) hline
    rw [hlines] at ih
    cases ih with
    | unended _ hline => exact .unended (List.cons_ne_nil c _) (hc hline)
    | returnFeed hline hrest => exact .returnFeed (hc hline) hrest
    | @feed _ rest _ hline hlast hrest =>
      rw [← List.cons_append]
      refine .feed (hc hline) ?_ hrest
      cases l with
      | nil => simpa using fun heq : c = '\r' => hreturn rest heq rfl
      | cons d l => simpa using hlast

/-- What holds no line feed becomes part of the first line of what follows, unless it ends in a carriage
return and a line feed follows. -/
theorem lines_append {line text l : List Char} {ls : List (List Char)} (hline : '\n' ∉ line)
    (hreturn : text.head? = some '\n' → line.getLast? ≠ some '\r') (htext : lines text = l :: ls) :
    lines (line ++ text) = (line ++ l) :: ls := by
  induction line with
  | nil => exact htext
  | cons c line ih =>
    rw [List.mem_cons, not_or] at hline
    have hrest : lines (line ++ text) = (line ++ l) :: ls := by
      refine ih hline.2 fun hhead => ?_
      cases line with
      | nil => nofun
      | cons d line => simpa using hreturn hhead
    have hkept : ∀ rest, c = '\r' → line ++ text = '\n' :: rest → False := by
      rintro rest rfl hfeed
      cases line with
      | nil => exact hreturn (by rw [← List.nil_append text, hfeed]; rfl) rfl
      | cons d line =>
        rw [List.cons_append, List.cons.injEq] at hfeed
        exact hline.2 (hfeed.1 ▸ List.mem_cons_self)
    rw [List.cons_append, lines.eq_4 c _ (Ne.symm hline.1) hkept, hrest]
    rfl

theorem ComesApart.not_mem {text : List Char} {ls : List (List Char)} (h : ComesApart text ls) :
    ∀ line ∈ ls, '\n' ∉ line := by
  induction h with
  | nothing => simp
  | unended _ hline => exact List.forall_mem_singleton.2 hline
  | feed hline _ _ ih => exact List.forall_mem_cons.2 ⟨hline, ih⟩
  | returnFeed hline _ ih => exact List.forall_mem_cons.2 ⟨hline, ih⟩

theorem comesApart_iff {text : List Char} {ls : List (List Char)} :
    ComesApart text ls ↔ lines text = ls := by
  constructor
  · intro h
    induction h with
    | nothing => rfl
    | @unended line hne hline =>
      obtain ⟨front, c, rfl⟩ : ∃ front c, line = front ++ [c] :=
        ⟨_, _, (List.dropLast_concat_getLast hne).symm⟩
      rw [List.mem_append, List.mem_singleton, not_or] at hline
      have hlast : lines [c] = [[c]] := lines.eq_4 c [] (Ne.symm hline.2) fun _ _ h => nomatch h
      exact lines_append hline.1 (fun hc => absurd (Option.some.inj hc).symm hline.2) hlast
    | @feed line rest ls hline hlast _ ih =>
      rw [lines_append hline (fun _ => hlast) (lines.eq_2 rest), List.append_nil, ih]
    | @returnFeed line rest ls hline _ ih =>
      rw [lines_append hline (by simp) (lines.eq_3 rest), List.append_nil, ih]
  · rintro rfl
    exact comesApart_lines text

/-- A text is a line, or it begins with a line and a line feed. -/
@[elab_as_elim]
theorem feed_induction {motive : List Char → Prop} (unended : ∀ line, '\n' ∉ line → motive line)
    (feed : ∀ line rest, '\n' ∉ line → motive rest → motive (line ++ '\n' :: rest))
    (text : List Char) : motive text := by
  have h : ∀ line, '\n' ∉ line → motive (line ++ text) := by
    induction text with
    | nil => exact fun line hline => unended _ (by rwa [List.append_nil])
    | cons c text ih =>
      intro line hline
      by_cases hc : c = '\n'
      · subst hc
        exact feed line text hline (ih [] List.not_mem_nil)
      · rw [List.append_cons]
        exact ih _ (by simp [hline, Ne.symm hc])
  exact h [] List.not_mem_nil

/-! ## Trimmed texts -/

/-- What is left of the text when all blanks at both its ends are taken away. -/
def TrimsTo (text core : List Char) : Prop :=
  ∃ front back, text = front ++ core ++ back ∧ (∀ c ∈ front, isBlank c) ∧ (∀ c ∈ back, isBlank c) ∧
    (∀ c, core.head? = some c → isBlank c = false) ∧
    ∀ c, core.getLast? = some c → isBlank c = false

/-- Blanks at the front fall away up to the first character that is none. -/
theorem dropWhile_isBlank {front core : List Char} (hfront : ∀ c ∈ front, isBlank c)
    (hcore : ∀ c, core.head? = some c → isBlank c = false) :
    (front ++ core).dropWhile isBlank = core := by
  rw [List.dropWhile_append_of_pos hfront]
  cases core with
  | nil => rfl
  | cons c core => rw [List.dropWhile_cons_of_neg (by simp [hcore c rfl])]

theorem isBlank_of_head?_dropWhile {text : List Char} {c : Char}
    (h : (text.dropWhile isBlank).head? = some c) : isBlank c = false := by
  have hnot := List.head?_dropWhile_not isBlank text
  rwa [h] at hnot

theorem trimsTo_trim (text : List Char) : TrimsTo text (trim text) := by
  obtain ⟨back, hback, hblank⟩ : ∃ back, text.dropWhile isBlank = trim text ++ back ∧
      ∀ c ∈ back, isBlank c := by
    refine ⟨((text.dropWhile isBlank).reverse.takeWhile isBlank).reverse, ?_,
      fun c hc => List.mem_takeWhile_imp (List.mem_reverse.1 hc)⟩
    rw [trim, ← List.reverse_append, List.takeWhile_append_dropWhile, List.reverse_reverse]
  refine ⟨text.takeWhile isBlank, back, ?_, fun c hc => List.mem_takeWhile_imp hc, hblank,
    fun c hc => ?_, fun c hc => ?_⟩
  · rw [List.append_assoc, ← hback, List.takeWhile_append_dropWhile]
  · have hhead : (text.dropWhile isBlank).head? = some c := by
      rw [hback, List.head?_append, hc]
      rfl
    exact isBlank_of_head?_dropWhile hhead
  · rw [trim, List.getLast?_reverse] at hc
    exact isBlank_of_head?_dropWhile hc

theorem trim_eq_iff {text core : List Char} : trim text = core ↔ TrimsTo text core := by
  constructor
  · rintro rfl
    exact trimsTo_trim text
  · rintro ⟨front, back, rfl, hfront, hback, hhead, hlast⟩
    have hends : (front ++ core ++ back).dropWhile isBlank = core ++ if core = [] then [] else back := by
      by_cases hnil : core = []
      · have hall : ∀ c ∈ front ++ back, isBlank c := List.forall_mem_append.2 ⟨hfront, hback⟩
        have hnone : ∀ c, ([] : List Char).head? = some c → isBlank c = false := nofun
        simpa [hnil] using dropWhile_isBlank hall hnone
      · rw [List.append_assoc, dropWhile_isBlank hfront, if_neg hnil]
        intro c hc
        exact hhead c (by rwa [List.head?_append_of_ne_nil _ hnil] at hc)
    rw [trim, hends, List.reverse_append, dropWhile_isBlank, List.reverse_reverse]
    · intro c hc
      split at hc
      · cases hc
      · exact hback c (List.mem_reverse.1 hc)
    · rwa [List.head?_reverse]

theorem trimsTo_self {text : List Char} (hhead : ∀ c, text.head? = some c → isBlank c = false)
    (hlast : ∀ c, text.getLast? = some c → isBlank c = false) : TrimsTo text text :=
  ⟨[], [], (List.append_nil text).symm, by simp, by simp, hhead, hlast⟩

/-- What is left has nothing more to be taken away. -/
theorem TrimsTo.self {text core : List Char} (h : TrimsTo text core) : TrimsTo core core := by
  obtain ⟨_, _, _, _, _, hhead, hlast⟩ := h
  exact trimsTo_self hhead hlast

/-- Where no blank comes first, what is left begins as the text does, if it holds anything. -/
theorem TrimsTo.head?_eq {text core : List Char} (h : TrimsTo text core)
    (htext : ∀ c, text.head? = some c → isBlank c = false) (hcore : core ≠ []) :
    core.head? = text.head? := by
  obtain ⟨front, back, rfl, hfront, -⟩ := h
  cases front with
  | nil => rw [List.nil_append, List.head?_append_of_ne_nil _ hcore]
  | cons c front =>
    have hblank := hfront c List.mem_cons_self
    rw [htext c rfl] at hblank
    cases hblank

theorem TrimsTo.subset {text core : List Char} (h : TrimsTo text core) : core ⊆ text := by
  obtain ⟨front, back, rfl, -⟩ := h
  intro c hc
  simp [hc]

/-- A text of blanks is one of which nothing is left. -/
theorem isEmptyish_iff {s : String} : isEmptyish s = true ↔ trim s.toList = [] := by
  rw [isEmptyish, List.all_eq_true, trim_eq_iff]
  constructor
  · intro h
    exact ⟨s.toList, [], by simp, h, by simp, by simp, by simp⟩
  · rintro ⟨front, back, htext, hfront, hback, -⟩
    rw [htext, List.append_nil]
    exact List.forall_mem_append.2 ⟨hfront, hback⟩

/-- A blank more at the end is taken away, too. -/
theorem trim_append_singleton {c : Char} (hc : isBlank c) (text : List Char) :
    trim (text ++ [c]) = trim text := by
  obtain ⟨front, back, htext, hfront, hback, hends⟩ := trimsTo_trim text
  refine trim_eq_iff.2 ⟨front, back ++ [c], by rw [← List.append_assoc, ← htext], hfront, ?_, hends⟩
  exact List.forall_mem_append.2 ⟨hback, List.forall_mem_singleton.2 hc⟩

end ModText.Text
