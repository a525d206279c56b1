import ModText.Proofs.Mod.Assignments

/-!
# Properties that are written down again

Properties can be written as they are meant: a line for each pair, with an equals sign between key and
value. What such lines set is not always what was written, since a key may begin like a remark or hold
an equals sign, and blanks at the ends fall away. But reading leaves only pairs for which nothing of that
kind can happen (`IsNormal`), so what was once read is read again from its own lines, in the same order.
-/

namespace ModText.Properties

/-! ## Pairs that stand on a line -/

/-- The line on which a pair is written. -/
def lineOf (e : String × String) : List Char :=
  e.1.toList ++ '=' :: e.2.toList

/-- A pair that is set by the line on which it is written. -/
structure IsPlain (e : String × String) : Prop where
  key : Text.TrimsTo e.1.toList e.1.toList
  value : Text.TrimsTo e.2.toList e.2.toList
  sign : '=' ∉ e.1.toList
  remark : e.1.toList.head? ≠ some '#'
  line : '\n' ∉ lineOf e

/-- What a line sets is plain. -/
theorem isPlain_of_assigns {line : List Char} {key value : String} (hline : '\n' ∉ line)
    (h : Assigns line key value) : IsPlain (key, value) := by
  obtain ⟨core, left, right, hcore, hremark, rfl, hleft, hkey, hvalue⟩ := h
  have hparts : left ++ '=' :: right ⊆ line := hcore.subset
  have hends := hcore.self
  refine ⟨hkey.self, hvalue.self, fun hmem => hleft (hkey.subset hmem), fun hhead => ?_, ?_⟩
  · -- a key that begins like a remark would stand at the very beginning of the trimmed line
    have hne : key.toList ≠ [] := by
      rintro hnil
      rw [hnil] at hhead
      cases hhead
    obtain ⟨c, left, rfl⟩ := List.exists_cons_of_ne_nil fun hnil : left = [] =>
      hne (List.subset_nil.1 (hnil ▸ hkey.subset))
    obtain ⟨-, -, -, -, -, hfirst, -⟩ := hends
    rw [hkey.head?_eq hfirst hne] at hhead
    exact hremark hhead
  · rw [lineOf, List.mem_append, List.mem_cons]
    rintro (hmem | hmem | hmem)
    · exact hline (hparts (List.mem_append_left _ (hkey.subset hmem)))
    · cases hmem
    · exact hline (hparts (List.mem_append_right _ (List.mem_cons_of_mem _ (hvalue.subset hmem))))

namespace IsPlain

variable {e : String × String}

/-- The line of a plain pair has no blank at either end. -/
theorem trimsTo_lineOf (h : IsPlain e) : Text.TrimsTo (lineOf e) (lineOf e) := by
  obtain ⟨-, -, -, -, -, hkey, -⟩ := h.key
  obtain ⟨-, -, -, -, -, -, hvalue⟩ := h.value
  refine Text.trimsTo_self (fun c hc => ?_) fun c hc => ?_
  · cases hfirst : e.1.toList with
    | nil =>
      rw [lineOf, hfirst] at hc
      cases hc
      decide
    | cons d key =>
      rw [lineOf, hfirst] at hc
      cases hc
      exact hkey c (by rw [hfirst]; rfl)
  · rw [lineOf, List.getLast?_append, List.getLast?_cons] at hc
    cases hlast : e.2.toList.getLast? with
    | none =>
      rw [hlast] at hc
      cases hc
      decide
    | some d =>
      rw [hlast] at hc
      cases hc
      exact hvalue d hlast

/-- A plain pair is set by the line on which it is written. -/
theorem assigns_lineOf (h : IsPlain e) : Assigns (lineOf e) e.1 e.2 := by
  refine ⟨lineOf e, e.1.toList, e.2.toList, h.trimsTo_lineOf, fun hhead => ?_, rfl, h.sign, h.key,
    h.value⟩
  cases hfirst : e.1.toList with
  | nil =>
    rw [lineOf, hfirst] at hhead
    cases hhead
  | cons c key =>
    rw [lineOf, hfirst] at hhead
    exact h.remark (by rw [hfirst]; exact hhead)

theorem getLast?_lineOf (h : IsPlain e) : (lineOf e).getLast? ≠ some '\r' := by
  intro hlast
  obtain ⟨-, -, -, -, -, -, hends⟩ := h.trimsTo_lineOf
  exact absurd (hends '\r' hlast) (by decide)

end IsPlain

/-! ## Texts -/

/-- No key stands twice, and every pair is plain. -/
structure IsNormal (p : Properties) : Prop where
  keys : (p.entries.map Prod.fst).Nodup
  plain : ∀ e ∈ p.entries, IsPlain e

/-- The lines on which the properties are written, in their order. -/
def lines (p : Properties) : List (List Char) :=
  p.entries.map lineOf

/-- The properties as a text, every line with its end. -/
def toText (p : Properties) : String :=
  String.ofList (p.lines.flatMap (· ++ ['\n']))

theorem isPlain_of_mem_assignments {text : List Char} {e : String × String}
    (he : e ∈ assignments text) : IsPlain e := by
  obtain ⟨line, hline, hset⟩ := List.mem_filterMap.1 he
  exact isPlain_of_assigns ((Text.comesApart_lines text).not_mem line hline)
    (assignment?_eq_some_iff.1 hset)

/-- Nothing is among the properties that was not set. -/
theorem mem_of_mem_setAll {pairs : List (String × String)} {e : String × String}
    (he : e ∈ (setAll {} pairs).entries) : e ∈ pairs := by
  have hkeys := nodup_keys_setAll (p := {}) List.nodup_nil pairs
  have hget := (mem_entries_iff hkeys).1 he
  rw [get?_setAll] at hget
  obtain ⟨before, after, hpairs, -⟩ := lookup_reverse_eq_some_iff.1 (by simpa [get?] using hget)
  simp [hpairs]

/-- What is read is normal. -/
theorem isNormal_ofText (text : String) : (ofText text).IsNormal :=
  ⟨nodup_keys_ofText text, fun _ he => isPlain_of_mem_assignments (mem_of_mem_setAll he)⟩

namespace IsNormal

variable {p : Properties}

theorem filterMap_lines (h : p.IsNormal) : p.lines.filterMap assignment? = p.entries := by
  rw [lines, List.filterMap_map]
  refine (List.filterMap_congr fun e he => ?_).trans List.filterMap_some
  exact assignment?_eq_some_iff.2 (h.plain e he).assigns_lineOf

/-- Normal properties are what their lines set. -/
theorem ofText_of_comesApart (h : p.IsNormal) {text : String}
    (htext : Text.ComesApart text.toList p.lines) : ofText text = p := by
  rw [ofText, assignments, Text.comesApart_iff.1 htext, h.filterMap_lines]
  exact setAll_of_nodup [] h.keys

/-- The text of normal properties comes apart into their lines again. -/
theorem comesApart_toText (h : p.IsNormal) : Text.ComesApart p.toText.toList p.lines := by
  have hlines : ∀ ls : List (List Char), (∀ l ∈ ls, '\n' ∉ l ∧ l.getLast? ≠ some '\r') →
      Text.ComesApart (ls.flatMap (· ++ ['\n'])) ls := by
    intro ls hls
    induction ls with
    | nil => exact .nothing
    | cons l ls ih =>
      rw [List.forall_mem_cons] at hls
      rw [List.flatMap_cons, List.append_assoc, List.singleton_append]
      exact .feed hls.1.1 hls.1.2 (ih hls.2)
  rw [toText, String.toList_ofList]
  refine hlines p.lines fun l hl => ?_
  obtain ⟨e, he, rfl⟩ := List.mem_map.1 hl
  exact ⟨(h.plain e he).line, (h.plain e he).getLast?_lineOf⟩

end IsNormal

/-- Some bytes tell the properties exactly if these are normal. -/
theorem exists_ofBytes?_iff {p : Properties} : (∃ bytes, ofBytes? bytes = some p) ↔ p.IsNormal := by
  constructor
  · rintro ⟨bytes, hp⟩
    obtain ⟨text, -, rfl⟩ := Option.map_eq_some_iff.1 hp
    exact isNormal_ofText text
  · intro h
    exact ⟨p.toText.toUTF8, by rw [ofBytes?_toUTF8, h.ofText_of_comesApart h.comesApart_toText]⟩

/-- **What was read is read again**: the properties that some bytes tell are told by every text that comes
apart into their lines, a key, an equals sign and a value on each, in their order, and their own text is
such a text. The identity of the mod is the same in both cases. -/
theorem ofBytes?_of_own_lines {bytes : ByteArray} {p : Properties} (h : ofBytes? bytes = some p) :
    Text.ComesApart p.toText.toList p.lines ∧
    ∀ text : String, Text.ComesApart text.toList p.lines →
      ∃ q, ofBytes? text.toUTF8 = some q ∧ q.entries = p.entries ∧
        ∀ name, ModIdentity.ofProperties name q = ModIdentity.ofProperties name p := by
  have hnormal : p.IsNormal := exists_ofBytes?_iff.1 ⟨bytes, h⟩
  refine ⟨hnormal.comesApart_toText, fun text htext => ⟨p, ?_, rfl, fun _ => rfl⟩⟩
  rw [ofBytes?_toUTF8, hnormal.ofText_of_comesApart htext]

/-- An empty key, a value that looks like a remark, a carriage return inside a key, and a key that is set
again. -/
theorem ofBytes?_of_own_lines_odd :
    let p : Properties := ⟨[("", "#b ="), ("k\rl", ""), ("displayName", "A")]⟩
    ofBytes? "# a = b\n = #b =\r\nk\rl = x\n\u3000displayName =\u00a0A\r\r\nk\rl=".toUTF8 = some p ∧
      p.toText = "=#b =\nk\rl=\ndisplayName=A\n" ∧
      ∃ q, ofBytes? p.toText.toUTF8 = some q ∧ q.entries = p.entries ∧
        ModIdentity.ofProperties "Mod" q = ⟨"Mod", "1.0", some "A"⟩ := by
  intro p
  have hp : ofBytes? "# a = b\n = #b =\r\nk\rl = x\n\u3000displayName =\u00a0A\r\r\nk\rl=".toUTF8 =
      some p := by
    rw [ofBytes?_toUTF8]
    decide +kernel
  obtain ⟨happart, hread⟩ := ofBytes?_of_own_lines hp
  obtain ⟨q, hq, hentries, hidentity⟩ := hread p.toText happart
  exact ⟨hp, by decide +kernel, q, hq, hentries, by rw [hidentity]; decide +kernel⟩

end ModText.Properties
