import ModText.Idiom.Site
import ModText.Code.Cursor
import Mathlib.Data.List.Basic

/-!
# Positions

A site tells what stands around an instruction, and not where in the stream that is. Here the sites
are counted off: there is one at every position, the instructions next to it are those at the
positions next to its own, and what an idiom finds at the sites comes in the order of the positions.
-/

namespace ModText

namespace Instruction

variable {i : Instruction}

theorem string?_eq_some {text : String} : i.string? = some text ↔ i = .pushString text := by
  cases i <;> simp [string?]

theorem localStore?_eq_some {slot : UInt16} : i.localStore? = some slot ↔ i = .storeLocal slot := by
  cases i <;> simp [localStore?]

theorem localLoad?_eq_some {slot : UInt16} : i.localLoad? = some slot ↔ i = .loadLocal slot := by
  cases i <;> simp [localLoad?]

theorem call?_eq_some {m : MemberRef} : i.call? = some m ↔ i = .call m ∨ i = .callVirtual m := by
  cases i <;> simp [call?]

theorem string?_eq_none_of_call? {m : MemberRef} (h : i.call? = some m) : i.string? = none := by
  cases i <;> simp_all [call?, string?]

theorem callsNamed_eq_true {name : String} :
    i.callsNamed name = true ↔ ∃ m, (i = .call m ∨ i = .callVirtual m) ∧ m.name = name := by
  simp only [callsNamed, Option.any_eq_true, call?_eq_some, beq_iff_eq]

theorem calls_eq_true {type member : String} :
    i.calls type member = true ↔
      ∃ m, (i = .call m ∨ i = .callVirtual m) ∧ m.name = member ∧ m.simpleTypeName = type := by
  simp only [calls, MemberRef.denotes, Option.any_eq_true, call?_eq_some, Bool.and_eq_true, beq_iff_eq]

theorem newObject?_eq_some {c : MemberRef} : i.newObject? = some c ↔ i = .newObject c := by
  cases i <;> simp [newObject?]

theorem fieldStore?_eq_some {field : MemberRef} :
    i.fieldStore? = some field ↔ i = .storeField field := by
  cases i <;> simp [fieldStore?]

theorem loadsArgument_eq_true {n : UInt16} : i.loadsArgument n = true ↔ i = .loadArgument n := by
  cases i <;> simp [loadsArgument]

end Instruction

/-! ## Counting back and forth -/

section

variable {code : List Instruction}

/-- A position in front of the stream answers nothing. -/
theorem instructionAt?_sub_eq_some {i n : Nat} {x : Instruction} :
    instructionAt? code (i - n) = some x ↔ ∃ k, i = k + n ∧ code[k]? = some x := by
  rcases Nat.lt_or_ge i n with hlt | hle
  · obtain ⟨k, hk⟩ := Int.eq_negSucc_of_lt_zero (show (i : Int) - n < 0 by omega)
    rw [hk, instructionAt?]
    constructor
    · exact nofun
    · rintro ⟨k, rfl, -⟩
      omega
  · obtain ⟨k, rfl⟩ := Nat.exists_eq_add_of_le' hle
    rw [show ((k + n : Nat) : Int) - n = (k : Nat) by omega]
    change code[k]? = some x ↔ _
    constructor
    · exact fun hx => ⟨k, rfl, hx⟩
    · rintro ⟨l, hl, hx⟩
      rwa [show k = l by omega]

theorem instructionAt?_add_one (i : Nat) : instructionAt? code (i + 1) = code[i + 1]? :=
  rfl

/-- A member is called at a position, by a plain call or a virtual one. -/
def CallsAt (code : List Instruction) (position : Int) (m : MemberRef) : Prop :=
  instructionAt? code position = some (.call m) ∨ instructionAt? code position = some (.callVirtual m)

theorem callsAt_iff {position : Int} {m : MemberRef} :
    CallsAt code position m ↔ (instructionAt? code position).bind (·.call?) = some m := by
  simp only [CallsAt, Option.bind_eq_some_iff, Instruction.call?_eq_some]
  constructor
  · rintro (h | h)
    · exact ⟨_, h, .inl rfl⟩
    · exact ⟨_, h, .inr rfl⟩
  · rintro ⟨_, h, rfl | rfl⟩
    · exact .inl h
    · exact .inr h

end

/-- The site at a position. -/
def siteAt? (code : List Instruction) (i : Nat) : Option Site :=
  code[i]?.map fun here => ⟨(code.take i).reverse, here, code.drop (i + 1)⟩

theorem exists_siteAt? {code : List Instruction} {i : Nat} {x : Instruction}
    (h : code[i]? = some x) : ∃ s, siteAt? code i = some s :=
  ⟨_, by rw [siteAt?, h, Option.map_some]⟩

namespace Site

theorem getElem?_sitesFrom (before code : List Instruction) (i : Nat) :
    (sitesFrom before code)[i]? =
      code[i]?.map fun here => ⟨(code.take i).reverse ++ before, here, code.drop (i + 1)⟩ := by
  induction code generalizing before i with
  | nil => rfl
  | cons first rest ih =>
    cases i with
    | zero => rfl
    | succ i => simp [sitesFrom, ih]

variable {code : List Instruction} {i : Nat} {s : Site}

theorem here_of_siteAt? (h : siteAt? code i = some s) : code[i]? = some s.here := by
  obtain ⟨here, hhere, rfl⟩ := Option.map_eq_some_iff.1 h
  exact hhere

/-- What stands in front of a site, at any distance. -/
theorem before_getElem?_eq_some (h : siteAt? code i = some s) {n : Nat} {x : Instruction} :
    s.before[n]? = some x ↔ ∃ k, i = k + n + 1 ∧ code[k]? = some x := by
  obtain ⟨here, hhere, rfl⟩ := Option.map_eq_some_iff.1 h
  have hlength : i < code.length := List.getElem?_eq_some_iff.1 hhere |>.1
  have htake : (code.take i).length = i := by
    rw [List.length_take]
    omega
  by_cases hn : n < i
  · rw [List.getElem?_reverse (by omega), htake, List.getElem?_take_of_lt (by omega)]
    constructor
    · exact fun hx => ⟨i - 1 - n, by omega, hx⟩
    · rintro ⟨k, rfl, hx⟩
      rwa [show k + n + 1 - 1 - n = k by omega]
  · constructor
    · intro hx
      have := (List.getElem?_eq_some_iff.1 hx).1
      rw [List.length_reverse, htake] at this
      omega
    · rintro ⟨k, rfl, -⟩
      omega

theorem getElem?_before (h : siteAt? code i = some s) (n : Nat) :
    s.before[n]? = instructionAt? code (i - (n + 1 : Nat)) :=
  Option.ext fun _ => (before_getElem?_eq_some h).trans (instructionAt?_sub_eq_some (n := n + 1)).symm

theorem previous?_eq_some (h : siteAt? code i = some s) {x : Instruction} :
    s.previous? = some x ↔ ∃ k, i = k + 1 ∧ code[k]? = some x := by
  rw [previous?, List.head?_eq_getElem?, before_getElem?_eq_some h]

theorem previous?_of_siteAt? (h : siteAt? code i = some s) :
    s.previous? = instructionAt? code (i - 1) := by
  rw [previous?, List.head?_eq_getElem?]
  exact getElem?_before h 0

theorem after_of_siteAt? (h : siteAt? code i = some s) : s.after = code.drop (i + 1) := by
  obtain ⟨here, -, rfl⟩ := Option.map_eq_some_iff.1 h
  rfl

theorem next?_of_siteAt? (h : siteAt? code i = some s) : s.next? = code[i + 1]? := by
  rw [next?, after_of_siteAt? h, List.head?_drop]

theorem after_eq_cons (h : siteAt? code i = some s) {next : Instruction}
    {rest : List Instruction} :
    s.after = next :: rest ↔ code[i + 1]? = some next ∧ rest = code.drop (i + 2) := by
  have htail : (code.drop (i + 1)).tail = code.drop (i + 2) := List.tail_drop
  rw [after_of_siteAt? h, ← List.head?_drop, ← htail]
  constructor
  · intro hcons
    rw [hcons]
    exact ⟨rfl, rfl⟩
  · rintro ⟨hnext, rfl⟩
    exact (List.cons_head?_tail hnext).symm

end Site

theorem getElem?_sites (code : List Instruction) (i : Nat) :
    (sites code)[i]? = siteAt? code i := by
  rw [sites, Site.getElem?_sitesFrom, siteAt?]
  simp only [List.append_nil]

theorem length_sites (code : List Instruction) : (sites code).length = code.length := by
  have hfrom : ∀ before, (Site.sitesFrom before code).length = code.length := by
    induction code with
    | nil => exact fun _ => rfl
    | cons i rest ih => exact fun before => congrArg (· + 1) (ih (i :: before))
  exact hfrom []

variable {β : Type}

/-- What sites show is what the positions show, one after the other. -/
theorem flatMap_sites (shown : Site → List β) (code : List Instruction) :
    (sites code).flatMap shown =
      (List.range code.length).flatMap fun i => (siteAt? code i).elim [] shown := by
  have hindexed : ∀ found : List Site, found.flatMap shown =
      (List.range found.length).flatMap fun i => found[i]?.elim [] shown := by
    intro found
    induction found with
    | nil => rfl
    | cons s rest ih =>
      rw [List.length_cons, List.range_succ_eq_map, List.flatMap_cons, List.flatMap_cons,
        List.flatMap_map, ih]
      rfl
  simp only [hindexed, length_sites, getElem?_sites]

/-- What is found at the sites of a stream, with the positions. -/
def findings (find : Site → Option β) (code : List Instruction) : List (Nat × β) :=
  (sites code).zipIdx.filterMap fun (s, i) => (find s).map (i, ·)

theorem map_snd_findings (find : Site → Option β) (code : List Instruction) :
    (findings find code).map Prod.snd = (sites code).filterMap find := by
  rw [findings, List.map_filterMap]
  conv_rhs => rw [← List.zipIdx_map_fst 0 (sites code), List.filterMap_map]
  congr 1
  funext ⟨s, i⟩
  simp [Function.comp_def]

theorem mem_findings {find : Site → Option β} {code : List Instruction} {i : Nat} {x : β} :
    (i, x) ∈ findings find code ↔ ∃ s, siteAt? code i = some s ∧ find s = some x := by
  rw [findings, List.mem_filterMap]
  constructor
  · rintro ⟨⟨s, k⟩, hs, hfound⟩
    obtain ⟨y, hy, heq⟩ := Option.map_eq_some_iff.1 hfound
    obtain ⟨rfl, rfl⟩ := Prod.mk.inj heq
    rw [List.mem_zipIdx_iff_getElem?, getElem?_sites] at hs
    exact ⟨s, hs, hy⟩
  · rintro ⟨s, hs, hfound⟩
    refine ⟨(s, i), ?_, Option.map_eq_some_iff.2 ⟨x, hfound, rfl⟩⟩
    rwa [List.mem_zipIdx_iff_getElem?, getElem?_sites]

/-- The findings come in the order of their positions, at most one at each. -/
theorem pairwise_findings (find : Site → Option β) (code : List Instruction) :
    ((findings find code).map Prod.fst).Pairwise (· < ·) := by
  have hcounted : (sites code).zipIdx.Pairwise fun p q => p.2 < q.2 := by
    rw [← List.pairwise_map, List.zipIdx_map_snd]
    exact List.pairwise_lt_range'
  rw [List.pairwise_map, findings, List.pairwise_filterMap]
  refine hcounted.imp ?_
  rintro ⟨s, i⟩ ⟨t, k⟩ hlt x hx y hy
  obtain ⟨-, -, rfl⟩ := Option.map_eq_some_iff.1 hx
  obtain ⟨-, -, rfl⟩ := Option.map_eq_some_iff.1 hy
  exact hlt

end ModText
