import ModText.Proofs.Record.RoundTrip
import ModText.Proofs.Text.Lines

/-!
# What the lines of a mod set

The properties of a mod can be told from its lines alone: a key stands where it is first set, with the
value that is set last. It does not matter how far the lines have been read. Setting what the first lines
set and then what the others set comes to the same as reading all of them at once, so texts may be joined
by a line feed, and a carriage return at the end of a line is one more blank to trim.
-/

namespace ModText.Properties

/-! ## Assignments -/

/-- The trimmed line is no remark, and its first equals sign stands between the key and the value. -/
def Assigns (line : List Char) (key value : String) : Prop :=
  ∃ core left right, Text.TrimsTo line core ∧ core.head? ≠ some '#' ∧ core = left ++ '=' :: right ∧
    '=' ∉ left ∧ Text.TrimsTo left key.toList ∧ Text.TrimsTo right value.toList

/-- The pairs are what those of the lines set that set something. -/
inductive Tells : List (List Char) → List (String × String) → Prop
  | nothing : Tells [] []
  | assigns {line : List Char} {key value : String} {lines : List (List Char)}
      {pairs : List (String × String)} :
      Assigns line key value → Tells lines pairs → Tells (line :: lines) ((key, value) :: pairs)
  | silent {line : List Char} {lines : List (List Char)} {pairs : List (String × String)} :
      (∀ key value, ¬Assigns line key value) → Tells lines pairs → Tells (line :: lines) pairs

theorem assignment?_eq_some_iff {line : List Char} {key value : String} :
    assignment? line = some (key, value) ↔ Assigns line key value := by
  constructor
  · intro h
    rw [assignment?] at h
    split at h
    · cases h
    · rename_i hremark
      split at h
      · cases h
      · rename_i c right hright
        obtain ⟨rfl, rfl⟩ := Prod.mk.inj (Option.some.inj h)
        have hc := List.head?_dropWhile_not (· ≠ '=') (Text.trim line)
        rw [hright] at hc
        have hsign : c = '=' := by simpa using hc
        refine ⟨Text.trim line, _, right, Text.trimsTo_trim line, hremark,
          (List.takeWhile_append_dropWhile (p := (· ≠ '='))).symm.trans (by rw [hright, hsign]), ?_,
          by simpa using Text.trimsTo_trim _, by simpa using Text.trimsTo_trim _⟩
        intro hmem
        simpa using List.mem_takeWhile_imp hmem
  · rintro ⟨core, left, right, hcore, hremark, rfl, hleft, hkey, hvalue⟩
    have hbefore : ∀ c ∈ left, decide (c ≠ '=') = true := by
      intro c hc
      exact decide_eq_true fun heq => hleft (heq ▸ hc)
    rw [assignment?, Text.trim_eq_iff.2 hcore, if_neg hremark, List.dropWhile_append_of_pos hbefore,
      List.takeWhile_append_of_pos hbefore]
    simp [Text.trim_eq_iff.2 hkey, Text.trim_eq_iff.2 hvalue]

theorem tells_filterMap (lines : List (List Char)) : Tells lines (lines.filterMap assignment?) := by
  induction lines with
  | nil => exact .nothing
  | cons line lines ih =>
    cases h : assignment? line with
    | none =>
      rw [List.filterMap_cons_none h]
      refine .silent (fun key value hline => ?_) ih
      rw [assignment?_eq_some_iff.2 hline] at h
      cases h
    | some pair =>
      rw [List.filterMap_cons_some h]
      exact .assigns (assignment?_eq_some_iff.1 h) ih

/-- A blank more at the end of a line makes no difference. -/
theorem assignment?_append_singleton {c : Char} (hc : Text.isBlank c) (line : List Char) :
    assignment? (line ++ [c]) = assignment? line := by
  rw [assignment?, assignment?, Text.trim_append_singleton hc]

/-! ## Texts line by line -/

theorem assignments_of_line {line : List Char} (hline : '\n' ∉ line) :
    assignments line = (assignment? line).toList := by
  by_cases hne : line = []
  · subst hne
    rfl
  · rw [assignments, Text.comesApart_iff.1 (.unended hne hline), List.filterMap_cons, List.filterMap_nil]
    cases assignment? line <;> rfl

theorem assignments_feed {line : List Char} (hline : '\n' ∉ line) (rest : List Char) :
    assignments (line ++ '\n' :: rest) = (assignment? line).toList ++ assignments rest := by
  by_cases hreturn : line.getLast? = some '\r'
  · -- the carriage return belongs to the end of the line
    obtain ⟨front, rfl⟩ := List.getLast?_eq_some_iff.1 hreturn
    rw [List.mem_append, not_or] at hline
    have happart := Text.ComesApart.returnFeed hline.1 (Text.comesApart_lines rest)
    rw [assignments, ← List.append_cons, Text.comesApart_iff.1 happart, List.filterMap_cons,
      assignment?_append_singleton (by decide)]
    cases assignment? front <;> rfl
  · have happart := Text.ComesApart.feed hline hreturn (Text.comesApart_lines rest)
    rw [assignments, Text.comesApart_iff.1 happart, List.filterMap_cons]
    cases assignment? line <;> rfl

theorem assignments_append_feed (a b : List Char) :
    assignments (a ++ '\n' :: b) = assignments a ++ assignments b := by
  induction a using Text.feed_induction with
  | unended line hline => rw [assignments_feed hline, assignments_of_line hline]
  | feed line rest hline ih =>
    rw [List.append_assoc, List.cons_append, assignments_feed hline, assignments_feed hline, ih,
      List.append_assoc]

/-- The text with a carriage return in front of every line feed. -/
def withReturns (text : List Char) : List Char :=
  text.flatMap fun c => if c = '\n' then ['\r', '\n'] else [c]

theorem withReturns_of_line {line : List Char} (hline : '\n' ∉ line) : withReturns line = line := by
  have hsame : ∀ c ∈ line, (if c = '\n' then ['\r', '\n'] else [c]) = [c] := by
    intro c hc
    exact if_neg fun heq : c = '\n' => hline (heq ▸ hc)
  rw [withReturns, List.flatMap_congr hsame, List.flatMap_singleton']

theorem assignments_withReturns (text : List Char) :
    assignments (withReturns text) = assignments text := by
  induction text using Text.feed_induction with
  | unended line hline => rw [withReturns_of_line hline]
  | feed line rest hline ih =>
    have hparts : withReturns (line ++ '\n' :: rest) = (line ++ ['\r']) ++ '\n' :: withReturns rest := by
      rw [withReturns, List.flatMap_append, List.flatMap_cons, ← withReturns, ← withReturns,
        withReturns_of_line hline]
      simp
    have hreturned : '\n' ∉ line ++ ['\r'] := by
      simpa using hline
    rw [hparts, assignments_feed hreturned, assignments_feed hline,
      assignment?_append_singleton (by decide), ih]

/-! ## Keys and values -/

theorem setAll_cons (p : Properties) (e : String × String) (rest : List (String × String)) :
    p.setAll (e :: rest) = (p.set e.1 e.2).setAll rest :=
  rfl

/-- Keys that are new come behind, in the order in which they are first set. -/
theorem map_fst_setAll (p : Properties) (pairs : List (String × String)) :
    (p.setAll pairs).entries.map Prod.fst = p.entries.map Prod.fst ++
      ((pairs.map Prod.fst).filter (· ∉ p.entries.map Prod.fst)).eraseDups := by
  induction pairs generalizing p with
  | nil => simp [setAll]
  | cons e rest ih =>
    have hkeys : (p.set e.1 e.2).entries.map Prod.fst = _ := map_fst_setIn e.1 e.2 p.entries
    rw [setAll_cons, ih, hkeys, List.map_cons]
    split
    · rename_i hmem
      rw [List.filter_cons_of_neg (by simpa using hmem)]
    · rename_i hnew
      rw [List.filter_cons_of_pos (by simpa using hnew), List.eraseDups_cons, List.filter_filter,
        List.append_assoc, List.singleton_append]
      have hboth : (fun key => decide (key ∉ p.entries.map Prod.fst ++ [e.1])) =
          fun key => !(key == e.1) && decide (key ∉ p.entries.map Prod.fst) := by
        funext key
        rw [Bool.eq_iff_iff]
        simp [and_comm]
      rw [hboth]

theorem lookup_cons_eq_ite (e : String × String) (rest : List (String × String)) (key : String) :
    (e :: rest).lookup key = if key = e.1 then some e.2 else rest.lookup key := by
  rw [List.lookup_cons]
  split <;> simp_all

theorem lookup_setIn (k v key : String) (entries : List (String × String)) :
    (setIn k v entries).lookup key = if key = k then some v else entries.lookup key := by
  induction entries with
  | nil => exact lookup_cons_eq_ite (k, v) [] key
  | cons e rest ih =>
    rw [setIn, lookup_cons_eq_ite]
    split
    · rename_i hk
      rw [lookup_cons_eq_ite, ← hk]
      split <;> rfl
    · rename_i hk
      rw [lookup_cons_eq_ite, ih]
      by_cases hkey : key = e.1
      · rw [if_pos hkey, if_neg fun heq => hk (hkey.symm.trans heq), if_pos hkey]
      · rw [if_neg hkey, if_neg hkey]

/-- The value of a key is the one that is set last. -/
theorem get?_setAll (p : Properties) (pairs : List (String × String)) (key : String) :
    (p.setAll pairs).get? key = (pairs.reverse.lookup key).or (p.get? key) := by
  induction pairs generalizing p with
  | nil => rfl
  | cons e rest ih =>
    have hset : (p.set e.1 e.2).get? key = ([e].lookup key).or (p.get? key) := by
      rw [get?, set, lookup_setIn, lookup_cons_eq_ite]
      split <;> rfl
    rw [setAll_cons, ih, hset, List.reverse_cons, List.lookup_append, Option.or_assoc]

theorem mem_entries_iff {p : Properties} (hkeys : (p.entries.map Prod.fst).Nodup)
    {key value : String} : (key, value) ∈ p.entries ↔ p.get? key = some value := by
  rw [get?, List.lookup_eq_some_iff]
  constructor
  · intro h
    obtain ⟨front, back, hentries⟩ := List.append_of_mem h
    refine ⟨front, back, hentries, fun e he => ?_⟩
    rw [hentries, List.map_append, List.nodup_append] at hkeys
    simpa using (hkeys.2.2 e.1 (List.mem_map_of_mem he) key (by simp)).symm
  · rintro ⟨front, back, hentries, -⟩
    simp [hentries]

theorem lookup_reverse_eq_some_iff {pairs : List (String × String)} {key value : String} :
    pairs.reverse.lookup key = some value ↔
      ∃ before after, pairs = before ++ (key, value) :: after ∧ key ∉ after.map Prod.fst := by
  have hother : ∀ after : List (String × String),
      (∀ e ∈ after.reverse, (key != e.1) = true) ↔ key ∉ after.map Prod.fst := by
    intro after
    simp only [List.mem_reverse, bne_iff_ne, List.mem_map, not_exists, not_and, ne_comm]
  rw [List.lookup_eq_some_iff]
  constructor
  · rintro ⟨after, before, hpairs, hafter⟩
    refine ⟨before.reverse, after.reverse, ?_, (hother _).1 (by rwa [List.reverse_reverse])⟩
    rw [← List.reverse_reverse pairs, hpairs]
    simp
  · rintro ⟨before, after, rfl, hafter⟩
    exact ⟨after.reverse, before.reverse, by simp, (hother after).2 hafter⟩

/-! ## Setting again -/

theorem setIn_setIn_self (k v w : String) (entries : List (String × String)) :
    setIn k v (setIn k w entries) = setIn k v entries := by
  induction entries with
  | nil => simp [setIn]
  | cons e rest ih =>
    rw [setIn, setIn]
    split
    · rename_i hk
      rw [setIn, if_pos hk]
    · rename_i hk
      rw [setIn, if_neg hk, ih]

theorem setIn_comm {k l : String} (hne : l ≠ k) (v w : String) {entries : List (String × String)}
    (hk : k ∈ entries.map Prod.fst) :
    setIn k v (setIn l w entries) = setIn l w (setIn k v entries) := by
  induction entries with
  | nil => cases hk
  | cons e rest ih =>
    by_cases hek : e.1 = k
    · simp [setIn, hek, hne.symm]
    · have hrest : k ∈ rest.map Prod.fst := by
        simpa [Ne.symm hek] using hk
      by_cases hel : e.1 = l
      · simp [setIn, hel, hne]
      · simp [setIn, hek, hel, ih hrest]

theorem mem_map_fst_set {p : Properties} {key k v : String} :
    key ∈ (p.set k v).entries.map Prod.fst ↔ key ∈ p.entries.map Prod.fst ∨ key = k := by
  rw [set, map_fst_setIn]
  split
  · rename_i hk
    exact (or_iff_left_of_imp fun heq => heq ▸ hk).symm
  · rw [List.mem_append, List.mem_singleton]

/-- A key may be set before or after others if it has its place already. -/
theorem set_setAll {p : Properties} {k : String} (v : String) {pairs : List (String × String)}
    (hk : k ∈ p.entries.map Prod.fst) (hnew : k ∉ pairs.map Prod.fst) :
    (p.setAll pairs).set k v = (p.set k v).setAll pairs := by
  induction pairs generalizing p with
  | nil => rfl
  | cons e rest ih =>
    rw [List.map_cons, List.mem_cons, not_or] at hnew
    have hkept : k ∈ (p.set e.1 e.2).entries.map Prod.fst := mem_map_fst_set.2 (.inl hk)
    have hswap : (p.set e.1 e.2).set k v = (p.set k v).set e.1 e.2 :=
      congrArg mk (setIn_comm (Ne.symm hnew.1) v e.2 hk)
    rw [setAll_cons, ih hkept hnew.2, hswap]
    rfl

theorem setAll_setIn (p : Properties) (k v : String) {entries : List (String × String)}
    (hkeys : (entries.map Prod.fst).Nodup) :
    p.setAll (setIn k v entries) = (p.setAll entries).set k v := by
  induction entries generalizing p with
  | nil => rfl
  | cons e rest ih =>
    rw [List.map_cons, List.nodup_cons] at hkeys
    rw [setIn]
    split
    · rename_i hk
      have hplaced : k ∈ (p.set e.1 e.2).entries.map Prod.fst := mem_map_fst_set.2 (.inr hk.symm)
      have hsame : p.set k v = (p.set e.1 e.2).set k v := by
        rw [hk]
        exact congrArg mk (setIn_setIn_self k v e.2 p.entries).symm
      rw [setAll_cons, setAll_cons, set_setAll v hplaced (hk ▸ hkeys.1), ← hsame, hk]
    · exact ih (p.set e.1 e.2) hkeys.2

/-- Setting what the entries hold and then the pairs is setting what the entries hold once the pairs
are set. -/
theorem setAll_entries_setAll (p : Properties) {q : Properties}
    (hkeys : (q.entries.map Prod.fst).Nodup) (pairs : List (String × String)) :
    p.setAll (q.setAll pairs).entries = (p.setAll q.entries).setAll pairs := by
  induction pairs generalizing q with
  | nil => rfl
  | cons e rest ih =>
    have hset : p.setAll (q.set e.1 e.2).entries = (p.setAll q.entries).set e.1 e.2 :=
      setAll_setIn p e.1 e.2 hkeys
    calc p.setAll (q.setAll (e :: rest)).entries
        = (p.setAll (q.set e.1 e.2).entries).setAll rest := ih (nodup_keys_set hkeys e.1 e.2)
      _ = (p.setAll q.entries).setAll (e :: rest) := by
          rw [hset]
          rfl

theorem ofText_append_feed (a b : String) :
    ofText (a ++ "\n" ++ b) = (ofText a).setAll (ofText b).entries := by
  have hparts : (a ++ "\n" ++ b).toList = a.toList ++ '\n' :: b.toList := by
    simp
  calc ofText (a ++ "\n" ++ b)
      = (ofText a).setAll (assignments b.toList) := by
        rw [ofText, hparts, assignments_append_feed, setAll, List.foldl_append]
        rfl
    _ = (ofText a).setAll (ofText b).entries :=
        (setAll_entries_setAll (ofText a) (q := {}) List.nodup_nil _).symm

theorem ofBytes?_eq_none_iff {bytes : ByteArray} :
    ofBytes? bytes = none ↔ ¬∃ text : String, text.toUTF8 = bytes := by
  constructor
  · rintro h ⟨text, rfl⟩
    rw [ofBytes?_toUTF8] at h
    cases h
  · intro h
    have hinvalid : ¬bytes.IsValidUTF8 := fun hvalid => h ⟨String.fromUTF8 bytes hvalid, rfl⟩
    rw [ofBytes?, String.fromUTF8?, dif_neg hinvalid]
    rfl

/-- **What a mod tells is what its lines set**: bytes tell nothing exactly if they are no text. A text
comes apart into lines, of which some set a key; each key stands once, in the order in which the keys are
first set, with the value that is set last. So a text behind another one, after a line feed, overwrites
what the first one sets, and it makes no difference whether a carriage return comes before every line
feed. -/
theorem ofBytes?_of_lines :
    (∀ bytes : ByteArray, ofBytes? bytes = none ↔ ¬∃ text : String, text.toUTF8 = bytes) ∧
    (∀ text : String, ∃ p lines pairs, ofBytes? text.toUTF8 = some p ∧
      Text.ComesApart text.toList lines ∧ Tells lines pairs ∧ (p.entries.map Prod.fst).Nodup ∧
      p.entries.map Prod.fst = (pairs.map Prod.fst).eraseDups ∧
      ∀ key value, (key, value) ∈ p.entries ↔
        ∃ before after, pairs = before ++ (key, value) :: after ∧ key ∉ after.map Prod.fst) ∧
    (∀ a b : String, ∃ p q, ofBytes? a.toUTF8 = some p ∧ ofBytes? b.toUTF8 = some q ∧
      ofBytes? (a ++ "\n" ++ b).toUTF8 = some (p.setAll q.entries)) ∧
    ∀ text : String,
      ofBytes? (String.ofList (withReturns text.toList)).toUTF8 = ofBytes? text.toUTF8 := by
  refine ⟨fun bytes => ofBytes?_eq_none_iff, fun text => ?_, fun a b => ?_, fun text => ?_⟩
  · have hkeys := nodup_keys_ofText text
    refine ⟨ofText text, _, _, ofBytes?_toUTF8 text, Text.comesApart_lines _, tells_filterMap _, hkeys,
      ?_, fun key value => ?_⟩
    · rw [ofText, map_fst_setAll]
      simp [assignments]
    · rw [mem_entries_iff hkeys, ofText, get?_setAll, ← lookup_reverse_eq_some_iff]
      simp [get?, assignments]
  · exact ⟨_, _, ofBytes?_toUTF8 a, ofBytes?_toUTF8 b, by rw [ofBytes?_toUTF8, ofText_append_feed]⟩
  · rw [ofBytes?_toUTF8, ofBytes?_toUTF8, ofText, String.toList_ofList, assignments_withReturns, ofText]

end ModText.Properties
