import ModText.Config
import ModText.Proofs.Text.Lines

/-!
# What keeps a configuration from being used

Patterns, names of markers and the code file are checked one after the other, and the first that is
refused is what is said. `Config.IsUsable` tells what is accepted and `Config.FirstObjection` what is
said otherwise, both without the checks.
-/

namespace ModText

namespace Config

variable {c : Config}

/-- The names of the markers, each with what it marks, in the order in which they are checked. -/
def namedMarkers (c : Config) : List (String × String) :=
  [("item", c.markers.item), ("npc", c.markers.npc), ("buff", c.markers.buff),
    ("tile", c.markers.tile)]

/-- All patterns are patterns, and neither the name of a marker nor the code file is blank. -/
structure IsUsable (c : Config) : Prop where
  patterns : ∀ pattern ∈ c.resourceIgnores, ∃ tokens, Glob.parse pattern = .ok tokens
  markers : ∀ marker ∈ c.namedMarkers, Text.trim marker.2.toList ≠ []
  codeFile : Text.trim c.codeFile.toList ≠ []

/-- The first thing that keeps a configuration from being used, and what is said about it. -/
inductive FirstObjection (c : Config) : Failure → Prop
  | pattern {front behind : List String} {pattern : String} {e : Glob.PatternError}
    (hpatterns : c.resourceIgnores = front ++ pattern :: behind)
    (hfront : ∀ earlier ∈ front, ∃ tokens, Glob.parse earlier = .ok tokens)
    (hparse : Glob.parse pattern = .error e) :
    FirstObjection c ⟨[.validating pattern], .pattern e⟩
  | marker {front behind : List (String × String)} {kind name : String}
    (hpatterns : ∀ pattern ∈ c.resourceIgnores, ∃ tokens, Glob.parse pattern = .ok tokens)
    (hmarkers : c.namedMarkers = front ++ (kind, name) :: behind)
    (hfront : ∀ earlier ∈ front, Text.trim earlier.2.toList ≠ [])
    (hblank : Text.trim name.toList = []) :
    FirstObjection c (.refusal (.blankMarker kind))
  | codeFile
    (hpatterns : ∀ pattern ∈ c.resourceIgnores, ∃ tokens, Glob.parse pattern = .ok tokens)
    (hmarkers : ∀ marker ∈ c.namedMarkers, Text.trim marker.2.toList ≠ [])
    (hblank : Text.trim c.codeFile.toList = []) :
    FirstObjection c (.refusal .blankCodeFile)

theorem checkPatterns_append {front : List String}
    (h : ∀ pattern ∈ front, ∃ tokens, Glob.parse pattern = .ok tokens) (rest : List String) :
    checkPatterns (front ++ rest) = checkPatterns rest := by
  induction front with
  | nil => rfl
  | cons pattern front ih =>
    obtain ⟨⟨tokens, hparse⟩, hfront⟩ := List.forall_mem_cons.1 h
    rw [List.cons_append, checkPatterns, hparse]
    exact ih hfront

theorem checkMarkers_append {front : List (String × String)}
    (h : ∀ marker ∈ front, Text.trim marker.2.toList ≠ []) (rest : List (String × String)) :
    checkMarkers (front ++ rest) = checkMarkers rest := by
  induction front with
  | nil => rfl
  | cons marker front ih =>
    obtain ⟨hmarker, hfront⟩ := List.forall_mem_cons.1 h
    rw [List.cons_append, checkMarkers, if_neg (mt Text.isEmptyish_iff.1 hmarker)]
    exact ih hfront

theorem checkPatterns_of_forall {patterns : List String}
    (h : ∀ pattern ∈ patterns, ∃ tokens, Glob.parse pattern = .ok tokens) :
    checkPatterns patterns = .ok () := by
  rw [← List.append_nil patterns, checkPatterns_append h, checkPatterns]

theorem checkMarkers_of_forall {markers : List (String × String)}
    (h : ∀ marker ∈ markers, Text.trim marker.2.toList ≠ []) : checkMarkers markers = .ok () := by
  rw [← List.append_nil markers, checkMarkers_append h, checkMarkers]

theorem validate_of_isUsable (h : c.IsUsable) : c.validate = .ok () := by
  rw [validate, checkPatterns_of_forall h.patterns, ← namedMarkers,
    checkMarkers_of_forall h.markers, if_neg (mt Text.isEmptyish_iff.1 h.codeFile)]
  rfl

theorem validate_of_firstObjection {f : Failure} (h : c.FirstObjection f) :
    c.validate = .error f := by
  rw [validate, ← namedMarkers]
  cases h with
  | pattern hpatterns hfront hparse =>
    rw [hpatterns, checkPatterns_append hfront, checkPatterns, hparse]
    rfl
  | marker hpatterns hmarkers hfront hblank =>
    rw [checkPatterns_of_forall hpatterns, hmarkers, checkMarkers_append hfront, checkMarkers,
      if_pos (Text.isEmptyish_iff.2 hblank)]
    rfl
  | codeFile hpatterns hmarkers hblank =>
    rw [checkPatterns_of_forall hpatterns, checkMarkers_of_forall hmarkers,
      if_pos (Text.isEmptyish_iff.2 hblank)]
    rfl

/-- Either all members of a list have a property, or there is a first one that has not. -/
theorem forall_or_exists_first {α : Type} (p : α → Prop) (xs : List α) : (∀ x ∈ xs, p x) ∨
    ∃ front x behind, xs = front ++ x :: behind ∧ (∀ y ∈ front, p y) ∧ ¬ p x := by
  classical
  cases hfind : xs.find? (¬ p ·) with
  | none =>
    left
    simpa using hfind
  | some x =>
    right
    obtain ⟨hx, front, behind, hxs, hfront⟩ := List.find?_eq_some_iff_append.1 hfind
    exact ⟨front, x, behind, hxs, by simpa using hfront, by simpa using hx⟩

theorem isUsable_or_firstObjection (c : Config) : c.IsUsable ∨ ∃ f, c.FirstObjection f := by
  rcases forall_or_exists_first (fun pattern => ∃ tokens, Glob.parse pattern = .ok tokens)
    c.resourceIgnores with hpatterns | ⟨front, pattern, behind, hsplit, hfront, hpattern⟩
  · rcases forall_or_exists_first (fun marker => Text.trim marker.2.toList ≠ []) c.namedMarkers with
      hmarkers | ⟨front, ⟨kind, name⟩, behind, hsplit, hfront, hmarker⟩
    · by_cases hcode : Text.trim c.codeFile.toList = []
      · exact .inr ⟨_, .codeFile hpatterns hmarkers hcode⟩
      · exact .inl ⟨hpatterns, hmarkers, hcode⟩
    · exact .inr ⟨_, .marker hpatterns hsplit hfront (not_not.1 hmarker)⟩
  · cases hparse : Glob.parse pattern with
    | error e => exact .inr ⟨_, .pattern hsplit hfront hparse⟩
    | ok tokens => exact absurd ⟨tokens, hparse⟩ hpattern

theorem validate_eq_ok_iff : c.validate = .ok () ↔ c.IsUsable := by
  refine ⟨fun h => ?_, validate_of_isUsable⟩
  rcases isUsable_or_firstObjection c with husable | ⟨f, hf⟩
  · exact husable
  · rw [validate_of_firstObjection hf] at h
    cases h

theorem validate_eq_error_iff {f : Failure} : c.validate = .error f ↔ c.FirstObjection f := by
  refine ⟨fun h => ?_, validate_of_firstObjection⟩
  rcases isUsable_or_firstObjection c with husable | ⟨g, hg⟩
  · rw [validate_of_isUsable husable] at h
    cases h
  · rw [validate_of_firstObjection hg, Except.error.injEq] at h
    rwa [← h]

theorem checkPatterns_default : checkPatterns ({} : Config).resourceIgnores = .ok () := by
  simp [checkPatterns, Glob.parse, Glob.parseFrom, Glob.pushTree]

theorem validate_default : validate {} = .ok () := by
  rw [validate, checkPatterns_default]
  decide +kernel

/-- What is taken for granted can be used. -/
theorem isUsable_default : IsUsable {} :=
  validate_eq_ok_iff.1 validate_default

end Config

end ModText
