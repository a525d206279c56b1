import Mathlib.Data.List.Nodup
import Mathlib.Logic.Function.Iterate
import ModText.Proofs.Code.Ancestors

/-!
# Depth first, by recursion and with a stack

The ancestors of a type can be told by recursion: each base type in its turn, and behind it all that is
above it, with names that were met before passed over. Or they are found in a loop that takes names from a
stack and puts the base types of what it has found back on it. Read from its top, the stack is what the
recursion still has to do, so both tell the same names in the same order.

The recursion is a relation here, since there is nothing in the names themselves that gets smaller. That the
loop finds what it tells for every module also says that it ends, on types that are above each other as well.
-/

namespace ModText

namespace Module

variable {m : Module} {name : String} {met names rest below out : List String} {t u : TypeDef}

/-- The recursive walk along these names, after others have been met, and what it tells. -/
inductive Walks (m : Module) : List String → List String → List String → Prop
  | done {met : List String} : Walks m met [] []
  | again {met rest out : List String} {name : String} :
      name ∈ met → Walks m met rest out → Walks m met (name :: rest) out
  | outside {met rest out : List String} {name : String} :
      name ∉ met → (∀ t, ¬ m.Declares name t) → Walks m (met ++ [name]) rest out →
        Walks m met (name :: rest) (name :: out)
  | inside {met rest below out : List String} {name : String} {t : TypeDef} :
      name ∉ met → m.Declares name t → Walks m (met ++ [name]) t.baseTypes below →
        Walks m (met ++ name :: below) rest out → Walks m met (name :: rest) (name :: below ++ out)

/-- The type that a full name stands for. -/
def declared? (m : Module) (name : String) : Option TypeDef :=
  m.types.reverse.find? (·.fullName == name)

theorem declared?_eq_some : m.declared? name = some t ↔ m.Declares name t :=
  m.find?_reverse_eq_some_iff_declares name t

theorem declared?_eq_none : m.declared? name = none ↔ ∀ t, ¬ m.Declares name t := by
  rw [Option.eq_none_iff_forall_ne_some]
  exact forall_congr' fun t => not_congr declared?_eq_some

theorem basesOf_ofTypes_eq (m : Module) (name : String) :
    (Hierarchy.ofTypes m.types).basesOf name = ((m.declared? name).map (·.baseTypes)).getD [] :=
  Hierarchy.basesOf_ofTypes m.types name

theorem Declares.unique (ht : m.Declares name t) (hu : m.Declares name u) : t = u :=
  Option.some.inj ((declared?_eq_some.2 ht).symm.trans (declared?_eq_some.2 hu))

theorem fullName_of_declared? (h : m.declared? name = some t) : t.fullName = name :=
  (declared?_eq_some.1 h).choose_spec.choose_spec.2.1

/-! ## The recursion -/

/-- What comes first is walked first, and the rest with what was told until then. -/
theorem Walks.exists_of_append {first : List String} (h : m.Walks met (first ++ rest) out) :
    ∃ before behind, out = before ++ behind ∧ m.Walks met first before ∧
      m.Walks (met ++ before) rest behind := by
  induction first generalizing met out with
  | nil => exact ⟨[], out, rfl, .done, (List.append_nil met).symm ▸ h⟩
  | cons name first ih =>
    cases h with
    | again hmet h =>
      obtain ⟨before, behind, rfl, hbefore, hbehind⟩ := ih h
      exact ⟨before, behind, rfl, .again hmet hbefore, hbehind⟩
    | outside hnew hnone h =>
      obtain ⟨before, behind, rfl, hbefore, hbehind⟩ := ih h
      rw [List.append_assoc] at hbehind
      exact ⟨name :: before, behind, rfl, .outside hnew hnone hbefore, hbehind⟩
    | @inside _ _ below _ _ t hnew hdeclares hbelow h =>
      obtain ⟨before, behind, rfl, hbefore, hbehind⟩ := ih h
      rw [List.append_assoc] at hbehind
      exact ⟨name :: below ++ before, behind, (List.append_assoc _ _ _).symm,
        .inside hnew hdeclares hbelow hbefore, hbehind⟩

/-- A walk tells one thing. -/
theorem Walks.unique {out' : List String} (h : m.Walks met names out) (h' : m.Walks met names out') :
    out = out' := by
  induction h generalizing out' with
  | done =>
    cases h'
    rfl
  | again hmet _ ih =>
    cases h' with
    | again _ h' => exact ih h'
    | outside hnew => exact absurd hmet hnew
    | inside hnew => exact absurd hmet hnew
  | outside hnew hnone _ ih =>
    cases h' with
    | again hmet => exact absurd hmet hnew
    | outside _ _ h' => rw [ih h']
    | inside _ hdeclares => exact absurd hdeclares (hnone _)
  | inside hnew hdeclares _ _ ihbelow ih =>
    cases h' with
    | again hmet => exact absurd hmet hnew
    | outside _ hnone => exact absurd hdeclares (hnone _)
    | inside _ hdeclares' hbelow' h' =>
      obtain rfl := hdeclares.unique hdeclares'
      obtain rfl := ihbelow hbelow'
      rw [ih h']

/-- The names that are found one after the other are told by the recursion. -/
theorem walks_reach {seen : Std.HashSet String} (hseen : ∀ name, name ∈ seen ↔ name ∈ met)
    (pending : List String) : m.Walks met pending ((Hierarchy.ofTypes m.types).reach seen pending) := by
  fun_induction (Hierarchy.ofTypes m.types).reach seen pending generalizing met with
  | case1 => exact .done
  | case2 seen name rest hmem ih => exact .again ((hseen name).1 hmem) (ih hseen)
  | case3 seen name rest hnew ih =>
    have hmet : name ∉ met := fun hmem => hnew ((hseen name).2 hmem)
    have hwalk := @ih (met ++ [name]) fun other => by
      rw [Std.HashSet.mem_insert, hseen, List.mem_append, List.mem_singleton, beq_iff_eq, or_comm,
        eq_comm]
    rw [basesOf_ofTypes_eq] at hwalk ⊢
    cases hdeclared : m.declared? name with
    | none =>
      rw [hdeclared] at hwalk
      exact .outside hmet (declared?_eq_none.1 hdeclared) hwalk
    | some t =>
      rw [hdeclared] at hwalk
      obtain ⟨below, behind, hout, hbelow, hbehind⟩ := hwalk.exists_of_append
      rw [List.append_assoc, List.singleton_append] at hbehind
      simp only [Option.map_some, Option.getD_some] at hout ⊢
      rw [hout]
      exact .inside hmet (declared?_eq_some.1 hdeclared) hbelow hbehind

/-! ## The loop -/

/-- What a search has come to: the names found so far, the names to look at, the next one last, and the
types whose base types have been put there. -/
structure Search where
  chain : List String := []
  seen : Std.HashSet String := ∅
  stack : List String
  expanded : List TypeDef := []

namespace Search

/-- The search above a type. -/
def above (t : TypeDef) : Search where
  stack := t.baseTypes.reverse

/-- The search after one more name has been taken from the stack, if there is one. -/
def step (m : Module) (s : Search) : Search :=
  match s.stack.getLast? with
  | none => s
  | some name =>
    let rest := s.stack.dropLast
    if name ∈ s.seen then { s with stack := rest }
    else
      match m.declared? name with
      | none => { s with chain := s.chain ++ [name], seen := s.seen.insert name, stack := rest }
      | some t =>
        { chain := s.chain ++ [name], seen := s.seen.insert name,
          stack := rest ++ t.baseTypes.reverse, expanded := s.expanded ++ [t] }

variable {chain pending rest : List String} {seen : Std.HashSet String} {expanded : List TypeDef}

theorem step_of_mem (hseen : name ∈ seen) :
    step m ⟨chain, seen, (name :: rest).reverse, expanded⟩ = ⟨chain, seen, rest.reverse, expanded⟩ := by
  simp [step, hseen]

theorem step_of_not_mem (hnew : name ∉ seen) :
    step m ⟨chain, seen, (name :: rest).reverse, expanded⟩ =
      ⟨chain ++ [name], seen.insert name,
        (((m.declared? name).map (·.baseTypes)).getD [] ++ rest).reverse,
        expanded ++ (m.declared? name).toList⟩ := by
  cases hdeclared : m.declared? name <;> simp [step, hnew, hdeclared]

/-- The loop is over after this many steps, and not before, with this result. -/
def Ends (m : Module) (s : Search) (steps : ℕ) (result : Search) : Prop :=
  (step m)^[steps] s = result ∧ result.stack = [] ∧ ∀ k < steps, ((step m)^[k] s).stack ≠ []

theorem Ends.of_step {s result : Search} {steps : ℕ} (hstack : s.stack ≠ [])
    (h : Ends m (step m s) steps result) : Ends m s (steps + 1) result := by
  obtain ⟨hresult, hover, hbefore⟩ := h
  refine ⟨hresult, hover, fun k hk => ?_⟩
  cases k with
  | zero => exact hstack
  | succ k => exact hbefore k (Nat.lt_of_succ_lt_succ hk)

/-- The loop finds what can be reached and goes through the types that the names found stand for. It takes
one step for every name that was ever put on the stack. -/
theorem exists_ends (chain : List String) (expanded : List TypeDef) (seen : Std.HashSet String)
    (pending : List String) :
    let found := (Hierarchy.ofTypes m.types).reach seen pending
    let through := found.filterMap m.declared?
    ∃ seen', Ends m ⟨chain, seen, pending.reverse, expanded⟩
      (pending.length + (through.flatMap (·.baseTypes)).length)
      ⟨chain ++ found, seen', [], expanded ++ through⟩ := by
  fun_induction (Hierarchy.ofTypes m.types).reach seen pending generalizing chain expanded with
  | case1 seen => exact ⟨seen, by simp, rfl, by simp⟩
  | case2 seen name rest hseen ih =>
    obtain ⟨seen', hends⟩ := ih chain expanded
    rw [← step_of_mem hseen] at hends
    refine ⟨seen', ?_⟩
    rw [List.length_cons, Nat.add_right_comm]
    exact hends.of_step (by simp)
  | case3 seen name rest hnew ih =>
    obtain ⟨seen', hends⟩ := ih (chain ++ [name]) (expanded ++ (m.declared? name).toList)
    rw [basesOf_ofTypes_eq] at hends ⊢
    rw [← step_of_not_mem hnew] at hends
    refine ⟨seen', ?_⟩
    convert hends.of_step (by simp) using 1
    · cases hdeclared : m.declared? name with
      | none =>
        rw [List.filterMap_cons_none hdeclared, List.length_cons]
        simp only [Option.map_none, Option.getD_none, List.nil_append]
        omega
      | some t =>
        rw [List.filterMap_cons_some hdeclared, List.length_cons, List.flatMap_cons, List.length_append]
        simp only [Option.map_some, Option.getD_some, List.length_append]
        omega
    · cases hdeclared : m.declared? name <;> simp [hdeclared]

end Search

/-! ## No name twice -/

theorem nodup_reach {h : Hierarchy} (seen : Std.HashSet String) (pending : List String) :
    (h.reach seen pending).Nodup ∧ ∀ name ∈ h.reach seen pending, name ∉ seen := by
  fun_induction h.reach seen pending with
  | case1 => exact ⟨List.nodup_nil, by simp⟩
  | case2 seen name rest hseen ih => exact ih
  | case3 seen name rest hnew ih =>
    obtain ⟨hnodup, hfresh⟩ := ih
    refine ⟨List.nodup_cons.2 ⟨fun hmem => hfresh name hmem Std.HashSet.mem_insert_self, hnodup⟩, ?_⟩
    intro other hother
    rcases List.mem_cons.1 hother with rfl | hother
    · exact hnew
    · exact fun hmem => hfresh other hother (Std.HashSet.mem_insert.2 (.inr hmem))

/-- The loop above a type ends, whether or not types are above each other, and it finds what the recursion
tells. No name is found twice, and no type has its base types put on the stack twice. -/
theorem ancestors_depth_first (m : Module) (t : TypeDef) :
    let chain := (Hierarchy.ofTypes m.types).ancestors t
    let expanded := chain.filterMap m.declared?
    (∀ out, m.Walks [] t.baseTypes out ↔ out = chain) ∧
    (∃ seen, Search.Ends m (.above t) (t.baseTypes.length + (expanded.flatMap (·.baseTypes)).length)
      ⟨chain, seen, [], expanded⟩) ∧
    chain.Nodup ∧ expanded.Nodup := by
  have hwalk : m.Walks [] t.baseTypes ((Hierarchy.ofTypes m.types).ancestors t) :=
    walks_reach (by simp) t.baseTypes
  have hnodup : ((Hierarchy.ofTypes m.types).ancestors t).Nodup := (nodup_reach ∅ t.baseTypes).1
  refine ⟨fun out => ⟨fun hout => hout.unique hwalk, ?_⟩, Search.exists_ends [] [] ∅ t.baseTypes, hnodup, ?_⟩
  · rintro rfl
    exact hwalk
  · refine hnodup.filterMap fun name other u hname hother => ?_
    rw [← fullName_of_declared? hname, ← fullName_of_declared? hother]

end Module

end ModText
