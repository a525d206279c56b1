import ModText.Disk.Path
import ModText.Disk.Location

/-!
# Where a path leads

On a disk without links the place that a path leads to can be read off its text. `Path.target` is
that place and `Path.entered` are the places that the path goes down into on its way, the last one
included. Both say where the path leads if everything is there; whether it is there is a question
to the disk.

Joining appends: what is entered by a joined path is what the first part enters, and then what the
relative part enters from there.
-/

namespace ModText

/-- A segment that leads down: it is not empty and not dots alone. -/
def IsStep (s : String) : Prop :=
  s ≠ "" ∧ s ≠ "." ∧ s ≠ ".."

instance (s : String) : Decidable (IsStep s) :=
  inferInstanceAs (Decidable (_ ∧ _))

theorem IsStep.not_idle {s : String} (h : IsStep s) : ¬(s = "" ∨ s = ".") :=
  not_or.2 ⟨h.1, h.2.1⟩

theorem IsStep.not_up {s : String} (h : IsStep s) : s ≠ ".." :=
  h.2.2

theorem IsName.isStep {s : String} (h : IsName s) : IsStep s :=
  ⟨h.1, h.2.1, h.2.2.1⟩

namespace Location

/-- The place that segments lead to from a place. -/
def along (l : Location) : List String → Location
  | [] => l
  | s :: rest =>
    if s = "" ∨ s = "." then along l rest
    else if s = ".." then along l.dropLast rest
    else along (l ++ [s]) rest

/-- The places that segments go down into on their way from a place. -/
def entered (l : Location) : List String → List Location
  | [] => []
  | s :: rest =>
    if s = "" ∨ s = "." then entered l rest
    else if s = ".." then entered l.dropLast rest
    else (l ++ [s]) :: entered (l ++ [s]) rest

theorem along_append (l : Location) (a b : List String) :
    l.along (a ++ b) = (l.along a).along b := by
  induction a generalizing l with
  | nil => rfl
  | cons s a ih =>
    rw [List.cons_append, along, along]
    split
    · exact ih l
    · split
      · exact ih _
      · exact ih _

theorem entered_append (l : Location) (a b : List String) :
    l.entered (a ++ b) = l.entered a ++ (l.along a).entered b := by
  induction a generalizing l with
  | nil => rfl
  | cons s a ih =>
    rw [List.cons_append, along, entered, entered]
    split
    · exact ih l
    · split
      · exact ih _
      · rw [ih, List.cons_append]

/-- Segments that name nothing lead nowhere. -/
theorem along_idle (l : Location) {segments : List String}
    (h : ∀ s ∈ segments, s = "" ∨ s = ".") : l.along segments = l := by
  induction segments with
  | nil => rfl
  | cons s rest ih =>
    rw [along, if_pos (h s List.mem_cons_self)]
    exact ih fun r hr => h r (List.mem_cons_of_mem s hr)

theorem entered_idle (l : Location) {segments : List String}
    (h : ∀ s ∈ segments, s = "" ∨ s = ".") : l.entered segments = [] := by
  induction segments with
  | nil => rfl
  | cons s rest ih =>
    rw [entered, if_pos (h s List.mem_cons_self)]
    exact ih fun r hr => h r (List.mem_cons_of_mem s hr)

theorem along_singleton (l : Location) {s : String} (h : IsStep s) : l.along [s] = l ++ [s] := by
  rw [along, if_neg h.not_idle, if_neg h.not_up, along]

theorem entered_singleton (l : Location) {s : String} (h : IsStep s) :
    l.entered [s] = [l ++ [s]] := by
  rw [entered, if_neg h.not_idle, if_neg h.not_up, entered]

/-- What lies above the place that segments lead to lies above the place they start from, or they go
down into it. -/
theorem prefix_or_mem_entered {l m : Location} {segments : List String}
    (h : m <+: l.along segments) : m <+: l ∨ m ∈ l.entered segments := by
  induction segments generalizing l with
  | nil => exact Or.inl h
  | cons s rest ih =>
    rw [along] at h
    rw [entered]
    split at h
    · rename_i hidle
      rw [if_pos hidle]
      exact ih h
    · rename_i hidle
      rw [if_neg hidle]
      split at h
      · rename_i hup
        rw [if_pos hup]
        exact (ih h).imp_left fun hm => hm.trans (List.dropLast_prefix l)
      · rename_i hup
        rw [if_neg hup, List.mem_cons]
        rcases ih h with hm | hm
        · rcases List.prefix_concat_iff.1 hm with rfl | hm
          · exact Or.inr (Or.inl rfl)
          · exact Or.inl hm
        · exact Or.inr (Or.inr hm)

/-- Only the segments that name something count. -/
theorem along_filter (l : Location) (segments : List String) :
    l.along (segments.filter fun s => s != "" && s != ".") = l.along segments ∧
      l.entered (segments.filter fun s => s != "" && s != ".") = l.entered segments := by
  induction segments generalizing l with
  | nil => exact ⟨rfl, rfl⟩
  | cons s rest ih =>
    by_cases hidle : s = "" ∨ s = "."
    · rw [List.filter_cons_of_neg (by rcases hidle with rfl | rfl <;> simp), along, entered,
        if_pos hidle, if_pos hidle]
      exact ih l
    · rw [List.filter_cons_of_pos (by simpa [not_or] using hidle)]
      simp only [along, entered, if_neg hidle]
      split
      · exact ih _
      · exact ⟨(ih _).1, by rw [(ih _).2]⟩

/-- Steps lead straight down. -/
theorem along_steps (l : Location) {steps : List String} (h : ∀ s ∈ steps, IsStep s) :
    l.along steps = l ++ steps := by
  induction steps generalizing l with
  | nil => simp [along]
  | cons s steps ih =>
    have hs := h s List.mem_cons_self
    rw [along, if_neg hs.not_idle, if_neg hs.not_up,
      ih (l ++ [s]) fun r hr => h r (List.mem_cons_of_mem s hr)]
    simp

/-- Steps enter every place on the way down, and no other. -/
theorem mem_entered_steps {l m : Location} {steps : List String} (h : ∀ s ∈ steps, IsStep s) :
    m ∈ l.entered steps ↔ ∃ front, front ≠ [] ∧ front <+: steps ∧ m = l ++ front := by
  induction steps generalizing l with
  | nil =>
    simp only [entered, List.not_mem_nil, false_iff]
    rintro ⟨front, hne, hfront, _⟩
    exact hne (List.prefix_nil.1 hfront)
  | cons s steps ih =>
    have hs := h s List.mem_cons_self
    rw [entered, if_neg hs.not_idle, if_neg hs.not_up, List.mem_cons,
      ih fun r hr => h r (List.mem_cons_of_mem s hr)]
    constructor
    · rintro (rfl | ⟨front, hne, hfront, rfl⟩)
      · exact ⟨[s], by simp, by simp, rfl⟩
      · exact ⟨s :: front, by simp, List.cons_prefix_cons.2 ⟨rfl, hfront⟩, by simp⟩
    · rintro ⟨front, hne, hfront, rfl⟩
      cases front with
      | nil => exact absurd rfl hne
      | cons r front =>
        obtain ⟨rfl, hrest⟩ := List.cons_prefix_cons.1 hfront
        by_cases hnil : front = []
        · exact Or.inl (by rw [hnil])
        · exact Or.inr ⟨front, hnil, hrest, by simp⟩

end Location

namespace Path

/-! ## Segments -/

theorem splitSlashes_ne_nil (cs : List Char) : splitSlashes cs ≠ [] := by
  cases cs with
  | nil => simp [splitSlashes]
  | cons c cs =>
    rw [splitSlashes]
    split
    · simp
    · split <;> simp

theorem splitSlashes_of_not_mem {cs : List Char} (h : '/' ∉ cs) : splitSlashes cs = [cs] := by
  induction cs with
  | nil => rfl
  | cons c cs ih =>
    rw [List.mem_cons, not_or] at h
    rw [splitSlashes, if_neg (Ne.symm h.1), ih h.2]

theorem splitSlashes_append_slash (a b : List Char) :
    splitSlashes (a ++ '/' :: b) = splitSlashes a ++ splitSlashes b := by
  induction a with
  | nil => simp [splitSlashes]
  | cons c a ih =>
    rw [List.cons_append, splitSlashes, splitSlashes]
    split
    · rw [ih, List.cons_append]
    · rw [ih]
      cases hsplit : splitSlashes a with
      | nil => exact absurd hsplit (splitSlashes_ne_nil a)
      | cons s ss => simp

/-- What holds no slash and is put behind a text becomes part of its last segment. -/
theorem splitSlashes_append {b : List Char} (h : '/' ∉ b) (a : List Char) :
    ∃ front last, splitSlashes a = front ++ [last] ∧
      splitSlashes (a ++ b) = front ++ [last ++ b] := by
  induction a with
  | nil => exact ⟨[], [], rfl, splitSlashes_of_not_mem h⟩
  | cons c a ih =>
    obtain ⟨front, last, ha, hab⟩ := ih
    rw [List.cons_append, splitSlashes, splitSlashes, ha, hab]
    split
    · exact ⟨[] :: front, last, rfl, rfl⟩
    · cases front with
      | nil => exact ⟨[], c :: last, rfl, rfl⟩
      | cons s front => exact ⟨(c :: s) :: front, last, rfl, rfl⟩

theorem not_mem_of_mem_splitSlashes {s cs : List Char} (h : s ∈ splitSlashes cs) : '/' ∉ s := by
  induction cs generalizing s with
  | nil =>
    rw [splitSlashes, List.mem_singleton] at h
    simp [h]
  | cons c cs ih =>
    rw [splitSlashes] at h
    split at h
    · rcases List.mem_cons.1 h with rfl | h
      · simp
      · exact ih h
    · rename_i hc
      split at h
      · rw [List.mem_singleton] at h
        simp [h, Ne.symm hc]
      · rename_i t ts hsplit
        rcases List.mem_cons.1 h with rfl | h
        · simp [Ne.symm hc, ih (hsplit ▸ List.mem_cons_self)]
        · exact ih (hsplit ▸ List.mem_cons_of_mem t h)

theorem not_mem_of_mem_segments {p : Path} {s : String} (h : s ∈ p.segments) : '/' ∉ s.toList := by
  obtain ⟨cs, hcs, rfl⟩ := List.mem_map.1 h
  rw [String.toList_ofList]
  exact not_mem_of_mem_splitSlashes hcs

theorem segments_of_not_mem {s : String} (h : '/' ∉ s.toList) : (Path.mk s).segments = [s] := by
  rw [segments, splitSlashes_of_not_mem h, List.map_singleton, String.ofList_toList]

theorem segments_append_slash (a b : String) :
    (Path.mk (a ++ "/" ++ b)).segments = (Path.mk a).segments ++ (Path.mk b).segments := by
  have hslash : (a ++ "/" ++ b).toList = a.toList ++ '/' :: b.toList := by simp
  rw [segments, segments, segments, hslash, splitSlashes_append_slash, List.map_append]

theorem segments_append_of_not_mem {b : String} (h : '/' ∉ b.toList) (a : String) :
    ∃ front last, (Path.mk (a ++ b)).segments = front ++ [last ++ b] := by
  obtain ⟨front, last, _, hab⟩ := splitSlashes_append h a.toList
  refine ⟨front.map String.ofList, String.ofList last, ?_⟩
  rw [segments, String.toList_append, hab, List.map_append, List.map_singleton, String.ofList_append,
    String.ofList_toList]

/-- Segments that are put together with slashes come apart again. -/
theorem segments_intercalate {names : List String} (hne : names ≠ [])
    (h : ∀ s ∈ names, '/' ∉ s.toList) : (Path.mk ("/".intercalate names)).segments = names := by
  induction names with
  | nil => exact absurd rfl hne
  | cons s names ih =>
    have hs := segments_of_not_mem (h s List.mem_cons_self)
    cases names with
    | nil => rw [String.intercalate_singleton, hs]
    | cons r names =>
      rw [String.intercalate_cons_cons, segments_append_slash, hs,
        ih (by simp) fun t ht => h t (List.mem_cons_of_mem s ht)]
      rfl

/-- The segments of a path give its text again when slashes are put between them. -/
theorem intercalate_segments (p : Path) : "/".intercalate p.segments = p.text := by
  have h : ∀ cs, "/".intercalate ((splitSlashes cs).map String.ofList) = String.ofList cs := by
    intro cs
    induction cs with
    | nil => rfl
    | cons c cs ih =>
      rw [splitSlashes]
      cases hsplit : splitSlashes cs with
      | nil => exact absurd hsplit (splitSlashes_ne_nil cs)
      | cons s ss =>
        rw [hsplit] at ih
        split
        · rename_i hc
          rw [List.map_cons, List.map_cons, String.intercalate_cons_cons, ← List.map_cons, ih, hc]
          simp
        · cases ss with
          | nil => simpa [← String.toList_inj] using ih
          | cons t ts =>
            simp only [List.map_cons, String.intercalate_cons_cons] at ih ⊢
            rw [← String.toList_inj] at ih ⊢
            simpa using ih
  rw [segments, h, String.ofList_toList]

/-! ## Targets -/

/-- The place from which a path is followed by a program that runs at a place. -/
def origin (c : Location) (p : Path) : Location :=
  if p.isAbsolute then [] else c

/-- The place that a path leads to, for a program that runs at a place. -/
def target (c : Location) (p : Path) : Location :=
  (p.origin c).along p.segments

/-- The places that a path goes down into, for a program that runs at a place. -/
def entered (c : Location) (p : Path) : List Location :=
  (p.origin c).entered p.segments

theorem origin_of_isAbsolute {p : Path} (h : p.isAbsolute) (c : Location) : p.origin c = [] :=
  if_pos h

theorem isAbsolute_join {p : Path} {relative : String} (h : (Path.mk relative).isAbsolute = false) :
    (p.join relative).isAbsolute = p.isAbsolute := by
  rw [join, if_neg (by simp [h])]
  obtain ⟨text⟩ := p
  simp only [isAbsolute] at h ⊢
  by_cases hempty : text = ""
  · simp [hempty, h]
  · obtain ⟨c, cs, hcs⟩ : ∃ c cs, text.toList = c :: cs :=
      List.exists_cons_of_ne_nil (by simpa using hempty)
    split <;> simp [hcs]

theorem isAbsolute_join_of_isAbsolute {p : Path} (h : p.isAbsolute) (relative : String) :
    (p.join relative).isAbsolute := by
  by_cases hrelative : (Path.mk relative).isAbsolute
  · rw [join, if_pos hrelative, hrelative]
  · rw [isAbsolute_join (by simpa using hrelative), h]

/-- A joined path is as long as its parts, or longer. -/
theorem utf8ByteSize_join {p : Path} {relative : String}
    (h : (Path.mk relative).isAbsolute = false) :
    p.text.utf8ByteSize + relative.utf8ByteSize ≤ (p.join relative).text.utf8ByteSize := by
  rw [join, if_neg (by simp [h])]
  split <;> simp only [String.utf8ByteSize_append] <;> omega

/-- The segments of a joined path are those of its two parts but for segments that name nothing. -/
theorem segments_join {p : Path} {relative : String} (h : (Path.mk relative).isAbsolute = false) :
    ∃ front idle, (p.join relative).segments = front ++ (Path.mk relative).segments ∧
      p.segments = front ++ idle ∧ ∀ s ∈ idle, s = "" ∨ s = "." := by
  rw [join, if_neg (by simp [h])]
  obtain ⟨text⟩ := p
  by_cases hempty : text = ""
  · refine ⟨[], [""], ?_, ?_, by simp⟩
    · simp [hempty]
    · rw [hempty]
      rfl
  · by_cases hslash : (Path.mk text).endsInSlash
    · obtain ⟨front, hfront⟩ : ∃ front, text.toList = front ++ ['/'] := by
        rw [endsInSlash, beq_iff_eq, List.getLast?_eq_some_iff] at hslash
        exact hslash
      refine ⟨(splitSlashes front).map String.ofList, [""], ?_, ?_, by simp⟩
      · rw [if_pos (by simp [hslash])]
        have htext : (text ++ relative).toList = front ++ '/' :: relative.toList := by simp [hfront]
        rw [segments, segments, htext, splitSlashes_append_slash, List.map_append]
      · rw [segments, hfront, splitSlashes_append_slash]
        simp [splitSlashes]
    · refine ⟨(Path.mk text).segments, [], ?_, by simp, by simp⟩
      rw [if_neg (by simp [hempty, hslash])]
      exact segments_append_slash text relative

theorem target_join (c : Location) {p : Path} {relative : String}
    (h : (Path.mk relative).isAbsolute = false) :
    (p.join relative).target c = (p.target c).along (Path.mk relative).segments := by
  obtain ⟨front, idle, hjoin, hp, hidle⟩ := segments_join (p := p) h
  rw [target, target, origin, isAbsolute_join h, ← origin, hjoin, hp, Location.along_append,
    Location.along_append, Location.along_idle _ hidle]

theorem entered_join (c : Location) {p : Path} {relative : String}
    (h : (Path.mk relative).isAbsolute = false) :
    (p.join relative).entered c =
      p.entered c ++ (p.target c).entered (Path.mk relative).segments := by
  obtain ⟨front, idle, hjoin, hp, hidle⟩ := segments_join (p := p) h
  rw [entered, entered, target, origin, isAbsolute_join h, ← origin, hjoin, hp,
    Location.entered_append, Location.entered_append, Location.along_append,
    Location.entered_idle _ hidle, Location.along_idle _ hidle, List.append_nil]

/-- Behind the last segment that names something there is nothing but slashes. -/
theorem segments_of_dropWhile {p : Path} {last : String} {front : List String}
    (h : p.segments.reverse.dropWhile (· = "") = last :: front) :
    last ≠ "" ∧ ∃ idle, p.segments = front.reverse ++ last :: idle ∧ ∀ s ∈ idle, s = "" := by
  have hsplit := List.takeWhile_append_dropWhile (p := fun s => decide (s = ""))
    (l := p.segments.reverse)
  rw [h] at hsplit
  refine ⟨?_, (p.segments.reverse.takeWhile (· = "")).reverse, ?_, ?_⟩
  · have hhead := List.head?_dropWhile_not (fun s => decide (s = "")) p.segments.reverse
    simpa [h] using hhead
  · have hreverse := congrArg List.reverse hsplit
    simpa using hreverse.symm
  · intro s hs
    have hempty := List.all_eq_true.1 List.all_takeWhile s (List.mem_reverse.1 hs)
    simpa using hempty

/-- What a path leads to lies where the segments before its last one lead, if that is a step. -/
theorem target_of_last {p : Path} {last : String} {front : List String}
    (h : p.segments.reverse.dropWhile (· = "") = last :: front) (hlast : IsStep last)
    (c : Location) :
    p.target c = (p.origin c).along front.reverse ++ [last] ∧
      p.entered c = (p.origin c).entered front.reverse ++ [p.target c] := by
  obtain ⟨_, idle, hsegments, hempty⟩ := segments_of_dropWhile h
  have hidle : ∀ s ∈ idle, s = "" ∨ s = "." := fun s hs => Or.inl (hempty s hs)
  rw [← List.singleton_append] at hsegments
  have htarget : p.target c = (p.origin c).along front.reverse ++ [last] := by
    rw [target, hsegments, Location.along_append, Location.along_append,
      Location.along_singleton _ hlast, Location.along_idle _ hidle]
  refine ⟨htarget, ?_⟩
  rw [htarget, entered, hsegments, Location.entered_append, Location.entered_append,
    Location.along_singleton _ hlast, Location.entered_singleton _ hlast,
    Location.entered_idle _ hidle, List.append_nil]

/-! ## Parents -/

theorem isAbsolute_iff_segments {p : Path} :
    p.isAbsolute = true ↔ ∃ s rest, p.segments = "" :: s :: rest := by
  obtain ⟨text⟩ := p
  simp only [isAbsolute, segments]
  cases htext : text.toList with
  | nil => simp [splitSlashes]
  | cons c cs =>
    rw [splitSlashes]
    cases hsplit : splitSlashes cs with
    | nil => exact absurd hsplit (splitSlashes_ne_nil cs)
    | cons t ts =>
      by_cases hc : c = '/'
      · simp [hc]
      · simp [hc]

/-- A segment is a relative path. -/
theorem isAbsolute_of_not_mem {s : String} (h : '/' ∉ s.toList) :
    (Path.mk s).isAbsolute = false := by
  rw [← Bool.not_eq_true, isAbsolute_iff_segments, segments_of_not_mem h]
  simp

/-- Names that are put together with slashes are a relative path with these names as its
segments. -/
theorem segments_names {names : List String} (hne : names ≠ []) (hnames : ∀ s ∈ names, IsName s) :
    (Path.mk ("/".intercalate names)).isAbsolute = false ∧
      (Path.mk ("/".intercalate names)).segments = names := by
  have hsegments := segments_intercalate hne fun s hs => (hnames s hs).2.2.2.1
  refine ⟨?_, hsegments⟩
  rw [← Bool.not_eq_true, isAbsolute_iff_segments, hsegments]
  rintro ⟨s, rest, rfl⟩
  exact (hnames "" List.mem_cons_self).1 rfl

theorem steps_names {names : List String} (hne : names ≠ []) (hnames : ∀ s ∈ names, IsName s) :
    (Path.mk ("/".intercalate names)).steps = names := by
  rw [steps, (segments_names hne hnames).2, List.filter_eq_self]
  intro s hs
  simp [(hnames s hs).1, (hnames s hs).2.1]

/-- The segments of a path are those behind the root, after an empty one if the path starts there. -/
theorem segments_eq_body (p : Path) :
    p.segments = (if p.isAbsolute then [""] else []) ++ p.body.reverse := by
  rw [body, List.reverse_reverse]
  split
  · rename_i habsolute
    obtain ⟨s, rest, hsegments⟩ := isAbsolute_iff_segments.1 habsolute
    rw [hsegments]
    rfl
  · rfl

theorem target_eq_body (c : Location) (p : Path) :
    p.target c = (p.origin c).along p.body.reverse := by
  have hroot : (p.origin c).along (if p.isAbsolute then [""] else []) = p.origin c :=
    Location.along_idle _ (by split <;> simp)
  rw [target, segments_eq_body, Location.along_append, hroot]

theorem entered_eq_body (c : Location) (p : Path) :
    p.entered c = (p.origin c).entered p.body.reverse := by
  rw [entered, segments_eq_body, Location.entered_append]
  split
  · rw [Location.along_idle _ (by simp), Location.entered_idle _ (by simp), List.nil_append]
  · rfl

theorem not_mem_of_mem_body {p : Path} {s : String} (h : s ∈ p.body) : '/' ∉ s.toList := by
  apply not_mem_of_mem_segments (p := p)
  rw [segments_eq_body]
  exact List.mem_append_right _ (List.mem_reverse.2 h)

theorem segments_ofBody {absolute : Bool} {body : List String} (h : ∀ s ∈ body, '/' ∉ s.toList) :
    (ofBody absolute body).segments =
      (if absolute then [""] else []) ++ (if body = [] then [""] else body.reverse) := by
  have hbehind : (Path.mk ("/".intercalate body.reverse)).segments =
      if body = [] then [""] else body.reverse := by
    by_cases hnil : body = []
    · rw [if_pos hnil, hnil]
      rfl
    · rw [if_neg hnil]
      exact segments_intercalate (by simpa using hnil) fun s hs => h s (List.mem_reverse.1 hs)
  cases absolute with
  | false => simpa [ofBody] using hbehind
  | true =>
    have htext : ofBody true body = ⟨"" ++ "/" ++ "/".intercalate body.reverse⟩ := by simp [ofBody]
    rw [htext, segments_append_slash, hbehind]
    rfl

/-- A path that keeps the root and some first segments of another is followed from the same place. -/
theorem isAbsolute_ofBody {p : Path} {body : List String} (h : body <:+ p.body) :
    (ofBody p.isAbsolute body).isAbsolute = p.isAbsolute := by
  have hslash : ∀ s ∈ body, '/' ∉ s.toList := fun s hs => not_mem_of_mem_body (h.subset hs)
  cases habsolute : p.isAbsolute with
  | true => simp [isAbsolute, ofBody]
  | false =>
    rw [← Bool.not_eq_true, isAbsolute_iff_segments, segments_ofBody hslash]
    rintro ⟨s, rest, hsegments⟩
    have hnil : body ≠ [] := by
      rintro rfl
      simp at hsegments
    simp only [Bool.false_eq_true, if_false, hnil, List.nil_append] at hsegments
    have hfront : body.reverse <+: p.segments := by
      rw [segments_eq_body, habsolute]
      exact List.reverse_prefix.2 h
    obtain ⟨more, hmore⟩ := hfront
    have hroot : p.isAbsolute = true :=
      isAbsolute_iff_segments.2 ⟨s, rest ++ more, by rw [← hmore, hsegments]; rfl⟩
    rw [habsolute] at hroot
    cases hroot

theorem origin_ofBody {p : Path} {body : List String} (h : body <:+ p.body) (c : Location) :
    (ofBody p.isAbsolute body).origin c = p.origin c := by
  rw [origin, origin, isAbsolute_ofBody h]

theorem entered_ofBody {p : Path} {body : List String} (h : body <:+ p.body) (c : Location) :
    (ofBody p.isAbsolute body).entered c = (p.origin c).entered body.reverse := by
  have hslash : ∀ s ∈ body, '/' ∉ s.toList := fun s hs => not_mem_of_mem_body (h.subset hs)
  rw [entered, origin_ofBody h, segments_ofBody hslash, Location.entered_append,
    Location.entered_idle _ (by split <;> simp), Location.along_idle _ (by split <;> simp)]
  split
  · rename_i hnil
    rw [hnil, Location.entered_idle _ (by simp)]
    rfl
  · rfl

theorem dropIdle_suffix (absolute : Bool) (body : List String) : dropIdle absolute body <:+ body := by
  fun_induction dropIdle absolute body with
  | case1 => exact List.suffix_rfl
  | case2 => exact List.nil_suffix
  | case3 => exact List.suffix_rfl
  | case4 s rest _ _ ih => exact ih.trans (List.suffix_cons s rest)
  | case5 => exact List.suffix_rfl

theorem parentBodies_suffix {absolute : Bool} {body parent : List String}
    (h : parent ∈ parentBodies absolute body) : parent <:+ body := by
  fun_induction parentBodies absolute body with
  | case1 => cases h
  | case2 => cases h
  | case3 => exact (List.mem_singleton.1 h) ▸ List.nil_suffix
  | case4 s rest _ _ ih => exact (ih h).trans (List.suffix_cons s rest)
  | case5 s rest _ _ ih =>
    rcases List.mem_cons.1 h with rfl | h
    · exact (dropIdle_suffix absolute rest).trans (List.suffix_cons s rest)
    · exact (ih h).trans (List.suffix_cons s rest)

theorem along_dropIdle (absolute : Bool) (l : Location) (body : List String) :
    l.along (dropIdle absolute body).reverse = l.along body.reverse ∧
      l.entered (dropIdle absolute body).reverse = l.entered body.reverse := by
  fun_induction dropIdle absolute body with
  | case1 => exact ⟨rfl, rfl⟩
  | case2 s hs =>
    have hidle : ∀ r ∈ [s], r = "" ∨ r = "." := by
      rw [List.forall_mem_singleton]
      simp only [Bool.or_eq_true, decide_eq_true_eq, Bool.and_eq_true, beq_iff_eq] at hs
      exact hs.imp_right And.right
    exact ⟨(Location.along_idle l hidle).symm, (Location.entered_idle l hidle).symm⟩
  | case3 => exact ⟨rfl, rfl⟩
  | case4 s rest _ hs ih =>
    have hidle : ∀ r ∈ [s], r = "" ∨ r = "." := by simpa using hs
    rw [List.reverse_cons, Location.along_append, Location.entered_append,
      Location.along_idle _ hidle, Location.entered_idle _ hidle, List.append_nil]
    exact ih
  | case5 => exact ⟨rfl, rfl⟩

/-- A path enters what its parent enters and then its target, unless its last step goes up. A path
without a parent enters nothing. -/
theorem entered_parentBodies (absolute : Bool) (l : Location) (body : List String) :
    match (parentBodies absolute body).head? with
    | none => l.entered body.reverse = []
    | some parent => l.entered body.reverse = l.entered parent.reverse ∨
        l.entered body.reverse = l.entered parent.reverse ++ [l.along body.reverse] := by
  fun_induction parentBodies absolute body with
  | case1 => rfl
  | case2 s hs =>
    apply Location.entered_idle l
    simp only [List.reverse_singleton, List.forall_mem_singleton]
    simp only [Bool.or_eq_true, decide_eq_true_eq, Bool.and_eq_true, beq_iff_eq] at hs
    exact hs.imp_right And.right
  | case3 s hs =>
    simp only [List.head?_cons, List.reverse_singleton, List.reverse_nil, Location.entered,
      Location.along]
    split
    · exact Or.inl rfl
    · split
      · exact Or.inl rfl
      · exact Or.inr rfl
  | case4 s rest _ hs ih =>
    have hidle : ∀ r ∈ [s], r = "" ∨ r = "." := by simpa using hs
    rw [List.reverse_cons, Location.along_append, Location.entered_append,
      Location.along_idle _ hidle, Location.entered_idle _ hidle, List.append_nil]
    exact ih
  | case5 s rest _ hs ih =>
    have hnamed : ¬(s = "" ∨ s = ".") := by simpa using hs
    simp only [List.head?_cons]
    rw [List.reverse_cons, Location.along_append, Location.entered_append,
      (along_dropIdle absolute l rest).2]
    simp only [Location.entered, if_neg hnamed]
    split
    · exact Or.inl (List.append_nil _)
    · rename_i hup
      refine Or.inr ?_
      rw [Location.along, if_neg hnamed, if_neg hup, Location.along]

/-- Of the bodies of a path and its parents, a later one enters nothing that an earlier one does not
enter. -/
theorem pairwise_parentBodies (absolute : Bool) (l : Location) (body : List String) :
    (body :: parentBodies absolute body).Pairwise fun b b' =>
      l.entered b'.reverse ⊆ l.entered b.reverse := by
  fun_induction parentBodies absolute body with
  | case1 => exact List.pairwise_singleton _ _
  | case2 => exact List.pairwise_singleton _ _
  | case3 => simp [Location.entered]
  | case4 s rest _ hs ih =>
    have hidle : ∀ r ∈ [s], r = "" ∨ r = "." := by simpa using hs
    have hsame : l.entered (s :: rest).reverse = l.entered rest.reverse := by
      rw [List.reverse_cons, Location.entered_append, Location.entered_idle _ hidle,
        List.append_nil]
    rw [List.pairwise_cons] at ih ⊢
    rw [hsame]
    exact ih
  | case5 s rest _ _ ih =>
    have hrest : l.entered rest.reverse ⊆ l.entered (s :: rest).reverse := by
      rw [List.reverse_cons, Location.entered_append]
      exact List.subset_append_left _ _
    rw [List.pairwise_cons] at ih
    rw [List.pairwise_cons, List.pairwise_cons]
    refine ⟨?_, ?_, ih.2⟩
    · intro b hb
      rcases List.mem_cons.1 hb with rfl | hb
      · rw [(along_dropIdle absolute l rest).2]
        exact hrest
      · exact List.Subset.trans (ih.1 b hb) hrest
    · intro b hb
      rw [(along_dropIdle absolute l rest).2]
      exact ih.1 b hb

theorem pairwise_ancestors (p : Path) (c : Location) :
    p.ancestors.Pairwise fun q r => r.entered c ⊆ q.entered c := by
  have hbodies := pairwise_parentBodies p.isAbsolute (p.origin c) p.body
  rw [List.pairwise_cons] at hbodies
  rw [ancestors, List.pairwise_cons, List.pairwise_map]
  constructor
  · intro q hq
    obtain ⟨body, hbody, rfl⟩ := List.mem_map.1 hq
    rw [entered_ofBody (parentBodies_suffix hbody), entered_eq_body]
    exact hbodies.1 body hbody
  · apply hbodies.2.imp_of_mem
    intro b b' hb hb' hsubset
    rw [entered_ofBody (parentBodies_suffix hb), entered_ofBody (parentBodies_suffix hb')]
    exact hsubset

theorem isAbsolute_ancestors {p q : Path} (hq : q ∈ p.ancestors) :
    q.isAbsolute = p.isAbsolute := by
  rcases List.mem_cons.1 hq with rfl | hq
  · rfl
  · obtain ⟨body, hbody, rfl⟩ := List.mem_map.1 hq
    exact isAbsolute_ofBody (parentBodies_suffix hbody)

theorem mem_ancestors_of_parent? {p q : Path} (h : p.parent? = some q) : q ∈ p.ancestors := by
  obtain ⟨body, hbody, rfl⟩ := Option.map_eq_some_iff.1 h
  exact List.mem_cons_of_mem p (List.mem_map.2 ⟨body, List.mem_of_mem_head? hbody, rfl⟩)

/-- A parent enters nothing that the path itself does not enter. -/
theorem entered_ancestors {p q : Path} (hq : q ∈ p.ancestors) (c : Location) :
    q.entered c ⊆ p.entered c := by
  rcases List.mem_cons.1 hq with rfl | hq
  · exact List.Subset.refl _
  · exact (List.pairwise_cons.1 (p.pairwise_ancestors c)).1 q hq

theorem entered_of_ancestors_eq_singleton {p : Path} (h : p.ancestors = [p]) (c : Location) :
    p.entered c = [] := by
  have hbodies : parentBodies p.isAbsolute p.body = [] := by simpa [ancestors] using h
  have hentered := entered_parentBodies p.isAbsolute (p.origin c) p.body
  rw [hbodies] at hentered
  rw [entered_eq_body]
  exact hentered

theorem entered_of_parent?_eq_none {p : Path} (h : p.parent? = none) (c : Location) :
    p.entered c = [] := by
  apply entered_of_ancestors_eq_singleton
  rw [ancestors, List.head?_eq_none_iff.1 (Option.map_eq_none_iff.1 h), List.map_nil]

theorem entered_of_parent?_eq_some {p q : Path} (h : p.parent? = some q) (c : Location) :
    p.entered c = q.entered c ∨ p.entered c = q.entered c ++ [p.target c] := by
  obtain ⟨body, hbody, rfl⟩ := Option.map_eq_some_iff.1 h
  have hentered := entered_parentBodies p.isAbsolute (p.origin c) p.body
  rw [hbody] at hentered
  rw [entered_eq_body, target_eq_body,
    entered_ofBody (parentBodies_suffix (List.mem_of_mem_head? hbody))]
  exact hentered

end Path

end ModText
