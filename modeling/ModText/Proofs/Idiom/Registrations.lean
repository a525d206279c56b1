import ModText.Idiom.Custom
import ModText.Proofs.Idiom.Positions
import Mathlib.Data.List.Forall2
import Mathlib.Data.List.Nodup
import Mathlib.Data.Set.List
import Mathlib.Tactic.IntervalCases

/-!
# The positions of custom texts

A custom text is found at the call that makes its object. Here it is told by positions where its
parts stand: the key in front of the call, the store behind it, the first later load of the local
that is stored into, and the text behind that load.
-/

namespace ModText

/-- A call that registers a text: the local its object is kept in, the load of that local from which
the text is taken, the key and the text. Calls and loads are told by their positions. -/
structure Registration where
  call : Nat
  slot : UInt16
  load : Nat
  key : String
  value : String

/-- The registration stands in the stream: the key in front of the call, the store behind it, the
first later load of the local, and the text behind that load. -/
structure Registration.StandsIn (code : List Instruction) (r : Registration) : Prop where
  called : ∃ m : MemberRef,
    (code[r.call]? = some (.call m) ∨ code[r.call]? = some (.callVirtual m)) ∧
      m.name = "CreateTranslation"
  key : 0 < r.call ∧ code[r.call - 1]? = some (.pushString r.key)
  store : code[r.call + 1]? = some (.storeLocal r.slot)
  later : r.call + 1 < r.load
  load : code[r.load]? = some (.loadLocal r.slot)
  first : ∀ i, r.call + 1 < i → i < r.load → code[i]? ≠ some (.loadLocal r.slot)
  value : code[r.load + 1]? = some (.pushString r.value)

/-- The first load of a local stands at the least position at which that local is loaded. -/
theorem firstLoad?_eq_some {slot : UInt16} {code rest : List Instruction} :
    firstLoad? slot code = some rest ↔ ∃ n, code[n]? = some (.loadLocal slot) ∧
      (∀ i < n, code[i]? ≠ some (.loadLocal slot)) ∧ rest = code.drop (n + 1) := by
  induction code with
  | nil => simp [firstLoad?]
  | cons first code ih =>
    rw [firstLoad?]
    split
    · rename_i hfirst
      obtain rfl := Instruction.localLoad?_eq_some.1 hfirst
      constructor
      · intro h
        exact ⟨0, rfl, fun i hi => absurd hi (Nat.not_lt_zero i), (Option.some.inj h).symm⟩
      · rintro ⟨n, -, hbefore, rfl⟩
        cases n with
        | zero => rfl
        | succ n => exact absurd rfl (hbefore 0 (Nat.succ_pos n))
    · rename_i hfirst
      rw [ih]
      constructor
      · rintro ⟨n, hn, hbefore, rfl⟩
        refine ⟨n + 1, hn, fun i hi => ?_, rfl⟩
        cases i with
        | zero => exact fun h => hfirst (Instruction.localLoad?_eq_some.2 (Option.some.inj h))
        | succ i => exact hbefore i (Nat.lt_of_succ_lt_succ hi)
      · rintro ⟨n, hn, hbefore, rfl⟩
        cases n with
        | zero => exact absurd (Instruction.localLoad?_eq_some.2 (Option.some.inj hn)) hfirst
        | succ n => exact ⟨n, hn, fun i hi => hbefore (i + 1) (Nat.succ_lt_succ hi), rfl⟩

/-- The first load from a position on stands at the least such position behind it. -/
theorem firstLoad?_drop_eq_some {slot : UInt16} {code rest : List Instruction} {start : Nat} :
    firstLoad? slot (code.drop start) = some rest ↔ ∃ load, start ≤ load ∧
      code[load]? = some (.loadLocal slot) ∧
      (∀ i, start ≤ i → i < load → code[i]? ≠ some (.loadLocal slot)) ∧
      rest = code.drop (load + 1) := by
  rw [firstLoad?_eq_some]
  simp only [List.getElem?_drop, List.drop_drop]
  constructor
  · rintro ⟨n, hn, hbefore, rfl⟩
    refine ⟨start + n, Nat.le_add_right _ _, hn, fun i hi hlt => ?_, rfl⟩
    obtain ⟨k, rfl⟩ := Nat.exists_eq_add_of_le hi
    exact hbefore k (by omega)
  · rintro ⟨load, hload, hn, hbefore, rfl⟩
    obtain ⟨n, rfl⟩ := Nat.exists_eq_add_of_le hload
    exact ⟨n, hn, fun i hi => hbefore (start + i) (by omega) (by omega), rfl⟩

/-- A site registers a text exactly if a registration stands there. -/
theorem registration?_eq_some {code : List Instruction} {call : Nat} {s : Site}
    (h : siteAt? code call = some s) {key value : String} :
    s.registration? = some (key, value) ↔
      ∃ slot load, (⟨call, slot, load, key, value⟩ : Registration).StandsIn code := by
  have hhere := Site.here_of_siteAt? h
  constructor
  · intro hpair
    rw [Site.registration?] at hpair
    split at hpair
    · rename_i hcalled
      obtain ⟨m, hm, hname⟩ := Instruction.callsNamed_eq_true.1 hcalled
      split at hpair
      · cases hpair
      · rename_i store rest hafter
        simp only [Option.bind_eq_bind, Option.pure_def, Option.bind_eq_some_iff, Option.some.injEq,
          Prod.mk.injEq, Instruction.string?_eq_some, Instruction.localStore?_eq_some,
          exists_eq_right] at hpair
        obtain ⟨slot, rfl, _, hkey, used, hused, _, hvalue, rfl, rfl⟩ := hpair
        obtain ⟨hstore, rfl⟩ := (Site.after_eq_cons h).1 hafter
        obtain ⟨k, rfl, hkey⟩ := (Site.previous?_eq_some h).1 hkey
        obtain ⟨load, hlater, hload, hfirst, rfl⟩ := firstLoad?_drop_eq_some.1 hused
        rw [List.head?_drop] at hvalue
        exact ⟨slot, load, ⟨m, by rwa [hhere, Option.some_inj, Option.some_inj], hname⟩,
          ⟨Nat.succ_pos k, hkey⟩, hstore, hlater, hload, hfirst, hvalue⟩
    · cases hpair
  · rintro ⟨slot, load, ⟨m, hm, hname⟩, ⟨hpos, hkey⟩, hstore, hlater, hload, hfirst, hvalue⟩
    have hcalled : s.here.callsNamed registeringMethod = true :=
      Instruction.callsNamed_eq_true.2 ⟨m, by rwa [hhere, Option.some_inj, Option.some_inj] at hm,
        hname⟩
    have hafter := (Site.after_eq_cons h).2 ⟨hstore, rfl⟩
    have hprevious : s.previous? = some (.pushString key) :=
      (Site.previous?_eq_some h).2 ⟨call - 1, (Nat.sub_add_cancel hpos).symm, hkey⟩
    have hused : firstLoad? slot (code.drop (call + 2)) = some (code.drop (load + 1)) :=
      firstLoad?_drop_eq_some.2 ⟨load, hlater, hload, hfirst, rfl⟩
    rw [Site.registration?, if_pos hcalled, hafter]
    simp [Instruction.localStore?, Instruction.string?, hprevious, hused, hvalue]

theorem mem_findings_registration? {code : List Instruction} {call : Nat} {key value : String} :
    (call, key, value) ∈ findings Site.registration? code ↔
      ∃ slot load, (⟨call, slot, load, key, value⟩ : Registration).StandsIn code := by
  rw [mem_findings]
  constructor
  · rintro ⟨s, hs, hfound⟩
    exact (registration?_eq_some hs).1 hfound
  · rintro ⟨slot, load, hr⟩
    obtain ⟨s, hs⟩ : ∃ s, siteAt? code call = some s := by
      obtain ⟨m, hm | hm, -⟩ := hr.called
      all_goals exact exists_siteAt? hm
    exact ⟨s, hs, (registration?_eq_some hs).2 ⟨slot, load, hr⟩⟩

namespace Registration

variable {code : List Instruction} {r q : Registration}

/-- The load from which a text is taken is never behind another load of the local. -/
theorem StandsIn.load_le (hr : r.StandsIn code) {i : Nat} (hi : r.call + 1 < i)
    (hload : code[i]? = some (.loadLocal r.slot)) : r.load ≤ i :=
  Nat.le_of_not_lt fun hlt => hr.first i hi hlt hload

/-- A call registers one text. -/
theorem StandsIn.eq_of_call_eq (hr : r.StandsIn code) (hq : q.StandsIn code)
    (h : r.call = q.call) : r = q := by
  have hslot : r.slot = q.slot := by
    have hstore := hr.store
    rw [h, hq.store] at hstore
    exact (Instruction.storeLocal.inj (Option.some.inj hstore)).symm
  have hload : r.load = q.load := by
    apply Nat.le_antisymm
    · exact hr.load_le (h ▸ hq.later) (hslot ▸ hq.load)
    · exact hq.load_le (h ▸ hr.later) (hslot ▸ hr.load)
  have hkey := hr.key.2
  rw [h, hq.key.2] at hkey
  have hvalue := hr.value
  rw [hload, hq.value] at hvalue
  cases r
  cases q
  simp_all

end Registration

/-- The keys and texts of a stream are those of the registrations that stand in it, in the order of
the calls. -/
theorem exists_registrations (code : List Instruction) :
    ∃ found : List Registration, (found.map (·.call)).Pairwise (· < ·) ∧
      (∀ r, r ∈ found ↔ r.StandsIn code) ∧
      registrations code = found.map fun r => (r.key, r.value) := by
  obtain ⟨found, hfound⟩ : ∃ found : List { r : Registration // r.StandsIn code },
      found.map (fun r => (r.1.call, r.1.key, r.1.value)) = findings Site.registration? code := by
    rw [← Set.mem_range, Set.range_list_map]
    rintro ⟨call, key, value⟩ hmem
    obtain ⟨slot, load, hr⟩ := mem_findings_registration?.1 hmem
    exact ⟨⟨_, hr⟩, rfl⟩
  refine ⟨found.map Subtype.val, ?_, fun r => ⟨?_, fun hr => ?_⟩, ?_⟩
  · have hcalls := pairwise_findings Site.registration? code
    rw [← hfound, List.map_map] at hcalls
    rwa [List.map_map]
  · rw [List.mem_map]
    rintro ⟨q, -, rfl⟩
    exact q.2
  · have hmem := mem_findings_registration?.2 ⟨r.slot, r.load, hr⟩
    rw [← hfound, List.mem_map] at hmem
    obtain ⟨q, hq, heq⟩ := hmem
    rw [hr.eq_of_call_eq q.2 (congrArg Prod.fst heq).symm]
    exact List.mem_map_of_mem hq
  · rw [registrations, ← map_snd_findings, ← hfound]
    simp

/-- The custom texts of a type are told by the bodies of its methods, one after the other, and in a
body by the positions of the calls that register one: a record for each such call, in their order,
and no other record. -/
theorem customTexts_at_registrations (t : TypeDef) :
    ∃ found : List (List Registration),
      List.Forall₂ (fun code calls => (calls.map Registration.call).Pairwise (· < ·) ∧
        ∀ r, r ∈ calls ↔ r.StandsIn code) t.bodies found ∧
      customTexts t = found.flatten.map fun r => ⟨r.key, t.namespaceName, r.value⟩ := by
  choose found hsorted hmem hpairs using exists_registrations
  refine ⟨t.bodies.map found, ?_, ?_⟩
  · rw [List.forall₂_map_right_iff, List.forall₂_same]
    exact fun code _ => ⟨hsorted code, hmem code⟩
  · simp only [customTexts, hpairs, ← List.flatMap_def, List.map_flatMap, List.map_map]
    rfl

/-! ## Locals that are used again -/

namespace Registration

variable {code : List Instruction} {r q : Registration}

/-- Something else is stored in the local before its load exactly if the local is not loaded before
that store. -/
theorem StandsIn.lt_load_iff (hr : r.StandsIn code) {store : Nat} (hlater : r.call + 1 < store)
    (hstore : code[store]? = some (.storeLocal r.slot)) :
    store < r.load ↔
      ∀ i, r.call + 1 < i → i < store → code[i]? ≠ some (.loadLocal r.slot) := by
  constructor
  · exact fun hlt i hi his => hr.first i hi (his.trans hlt)
  · intro hunused
    refine Nat.lt_of_le_of_ne (Nat.le_of_not_lt fun hlt => hunused r.load hr.later hlt hr.load) ?_
    rintro rfl
    rw [hr.load] at hstore
    cases hstore

/-- Two texts are taken from one load exactly if their objects are kept in one local, and the second
is stored before the first is used. -/
theorem StandsIn.load_eq_iff (hr : r.StandsIn code) (hq : q.StandsIn code) (h : r.call < q.call) :
    r.load = q.load ↔ r.slot = q.slot ∧ q.call + 1 < r.load := by
  constructor
  · intro hload
    have hloaded := hr.load
    rw [hload, hq.load] at hloaded
    exact ⟨(Instruction.loadLocal.inj (Option.some.inj hloaded)).symm, hload ▸ hq.later⟩
  · rintro ⟨hslot, hlater⟩
    apply Nat.le_antisymm
    · exact hr.load_le (Nat.lt_trans (Nat.succ_lt_succ h) hq.later) (hslot ▸ hq.load)
    · exact hq.load_le hlater (hslot ▸ hr.load)

theorem StandsIn.value_eq (hr : r.StandsIn code) (hq : q.StandsIn code) (h : r.load = q.load) :
    r.value = q.value := by
  have hvalue := hr.value
  rw [h, hq.value] at hvalue
  exact (Instruction.pushString.inj (Option.some.inj hvalue)).symm

end Registration

/-- In the stream a local is loaded between any two stores into it. -/
def LoadsBetweenStores (code : List Instruction) : Prop :=
  ∀ (slot : UInt16) (first second : Nat), first < second →
    code[first]? = some (.storeLocal slot) → code[second]? = some (.storeLocal slot) →
      ∃ i, first < i ∧ i < second ∧ code[i]? = some (.loadLocal slot)

/-- A key gets the text behind the first load of its local, whatever has been stored there since.
Another store stands in between exactly if the local is not loaded before that store; then two keys
whose objects are kept in that local get one text. If a local is loaded between any two stores into
it, then no store stands in between, and no two texts are taken from one load. -/
theorem registrations_of_reused_locals (code : List Instruction) :
    ∃ found : List Registration,
      registrations code = found.map (fun r => (r.key, r.value)) ∧
      (∀ r, r ∈ found ↔ r.StandsIn code) ∧
      (∀ r ∈ found, ∀ store, r.call + 1 < store → code[store]? = some (.storeLocal r.slot) →
        (store < r.load ↔
          ∀ i, r.call + 1 < i → i < store → code[i]? ≠ some (.loadLocal r.slot))) ∧
      (∀ r ∈ found, ∀ q ∈ found, r.call < q.call →
        (r.load = q.load ↔ r.slot = q.slot ∧ q.call + 1 < r.load) ∧
        (r.load = q.load → r.value = q.value)) ∧
      (LoadsBetweenStores code →
        (∀ r ∈ found, ∀ store, r.call + 1 < store → store < r.load →
          code[store]? ≠ some (.storeLocal r.slot)) ∧
        (found.map Registration.load).Nodup) := by
  obtain ⟨found, hsorted, hmem, hpairs⟩ := exists_registrations code
  have hstands : ∀ r ∈ found, r.StandsIn code := fun r hr => (hmem r).1 hr
  refine ⟨found, hpairs, hmem, ?_, ?_, ?_⟩
  · exact fun r hr store hlater hstore => (hstands r hr).lt_load_iff hlater hstore
  · exact fun r hr q hq h => ⟨(hstands r hr).load_eq_iff (hstands q hq) h,
      (hstands r hr).value_eq (hstands q hq)⟩
  · intro hbetween
    have hkept : ∀ r ∈ found, ∀ store, r.call + 1 < store → store < r.load →
        code[store]? ≠ some (.storeLocal r.slot) := by
      intro r hr store hlater hlt hstore
      obtain ⟨i, hi, his, hload⟩ :=
        hbetween r.slot (r.call + 1) store hlater (hstands r hr).store hstore
      exact ((hstands r hr).lt_load_iff hlater hstore).1 hlt i hi his hload
    refine ⟨hkept, ?_⟩
    -- of two texts from one load, the object of the second would be stored before that load
    rw [List.pairwise_map] at hsorted
    rw [List.Nodup, List.pairwise_map]
    refine hsorted.imp_of_mem fun {r q} hr hq hlt hload => ?_
    obtain ⟨hslot, hlater⟩ := ((hstands r hr).load_eq_iff (hstands q hq) hlt).1 hload
    exact hkept r hr (q.call + 1) (Nat.succ_lt_succ hlt) hlater (hslot ▸ (hstands q hq).store)

/-- Two objects are kept in one local, and the first is not used before the second is stored. -/
def overwrittenCode : List Instruction :=
  [.pushString "A", .call ⟨"Mod", "CreateTranslation", 1⟩, .storeLocal 0,
    .pushString "B", .call ⟨"Mod", "CreateTranslation", 1⟩, .storeLocal 0,
    .loadLocal 0, .pushString "V"]

/-- Two objects are kept in one local, one after the other. -/
def reusedCode : List Instruction :=
  [.pushString "A", .call ⟨"Mod", "CreateTranslation", 1⟩, .storeLocal 0,
    .loadLocal 0, .pushString "Alpha",
    .pushString "B", .call ⟨"Mod", "CreateTranslation", 1⟩, .storeLocal 0,
    .loadLocal 0, .pushString "Beta"]

/-- The stores into a local stand at two positions only, and a load between them. -/
theorem loadsBetweenStores_reusedCode : LoadsBetweenStores reusedCode := by
  have hstores : ∀ (slot : UInt16) (i : Nat), reusedCode[i]? = some (.storeLocal slot) →
      slot = 0 ∧ (i = 2 ∨ i = 7) := by
    intro slot i hi
    have hlt : i < 10 := (List.getElem?_eq_some_iff.1 hi).1
    interval_cases i <;> simp_all [reusedCode]
  intro slot first second hlt hfirst hsecond
  obtain ⟨rfl, hfirst⟩ := hstores slot first hfirst
  obtain ⟨-, hsecond⟩ := hstores 0 second hsecond
  exact ⟨3, by omega, by omega, rfl⟩

theorem registrations_of_overwrittenCode_and_reusedCode :
    registrations overwrittenCode = [("A", "V"), ("B", "V")] ∧
    (∃ r q : Registration, r.StandsIn overwrittenCode ∧ q.StandsIn overwrittenCode ∧
      r.key = "A" ∧ q.key = "B" ∧ r.load = q.load) ∧
    registrations reusedCode = [("A", "Alpha"), ("B", "Beta")] ∧
    ∀ r q : Registration, r.StandsIn reusedCode → q.StandsIn reusedCode → r.load = q.load → r = q := by
  refine ⟨by decide, ?_, by decide, ?_⟩
  · obtain ⟨found, -, hmem, -, hloads, -⟩ := registrations_of_reused_locals overwrittenCode
    have hfirst : (⟨1, 0, 6, "A", "V"⟩ : Registration).StandsIn overwrittenCode :=
      ⟨⟨_, .inl rfl, rfl⟩, ⟨by decide, rfl⟩, rfl, by decide, rfl,
        fun i hi hlt => by interval_cases i <;> decide, rfl⟩
    have hsecond : (⟨4, 0, 6, "B", "V"⟩ : Registration).StandsIn overwrittenCode :=
      ⟨⟨_, .inl rfl, rfl⟩, ⟨by decide, rfl⟩, rfl, by decide, rfl,
        fun i hi hlt => by interval_cases i, rfl⟩
    exact ⟨_, _, hfirst, hsecond, rfl, rfl,
      (hloads _ ((hmem _).2 hfirst) _ ((hmem _).2 hsecond) (by decide)).1.2 ⟨rfl, by decide⟩⟩
  · obtain ⟨found, -, hmem, -, -, hgood⟩ := registrations_of_reused_locals reusedCode
    obtain ⟨-, hnodup⟩ := hgood loadsBetweenStores_reusedCode
    intro r q hr hq hload
    exact List.inj_on_of_nodup_map hnodup ((hmem r).2 hr) ((hmem q).2 hq) hload

end ModText
