import Mathlib.Data.Finset.Insert
import ModText.Proofs.Config.RoundTrip
import ModText.Proofs.Json.Choice

/-!
# Configurations that say little

A configuration file need not give all settings. What it gives counts, in any order and whatever
else stands between, and what it does not give has its default, each setting for itself; the names
of the markers are settings of their own, although they stand in an object of theirs. So the file
holds one configuration, and that is used exactly if nothing in it is refused. The patterns are
looked at first, then the names of the markers and then the code file, and the first objection is
the one that is raised.
-/

namespace ModText

open Json (Draft Decoded Medium Shape chosen)

/-! ## Settings -/

/-- What a configuration file can give. -/
inductive Setting where
  | outputRoot
  | codeFile
  | item
  | npc
  | buff
  | tile
  | categories
  | copyResources
  | resourceIgnores
  deriving DecidableEq

namespace Setting

/-- Whether the setting is the name of a marker. -/
def isMarker : Setting → Bool
  | item | npc | buff | tile => true
  | _ => false

end Setting

namespace MarkerNames

variable {n : MarkerNames} {S : Finset Setting} {d : Draft}

/-- The given names, and the defaults of the others. -/
def restrict (n : MarkerNames) (S : Finset Setting) : MarkerNames where
  item := if .item ∈ S then n.item else ({} : MarkerNames).item
  npc := if .npc ∈ S then n.npc else ({} : MarkerNames).npc
  buff := if .buff ∈ S then n.buff else ({} : MarkerNames).buff
  tile := if .tile ∈ S then n.tile else ({} : MarkerNames).tile

/-- The fields of the given names. -/
def given (n : MarkerNames) (S : Finset Setting) : List (String × Draft) :=
  chosen (.item ∈ S) "item" (.string n.item) ++ (chosen (.npc ∈ S) "npc" (.string n.npc) ++
    (chosen (.buff ∈ S) "buff" (.string n.buff) ++ chosen (.tile ∈ S) "tile" (.string n.tile)))

/-- The document is an object with the given names and whatever else. -/
def Tells (n : MarkerNames) (S : Finset Setting) (d : Draft) : Prop :=
  ∃ members, d = .object members true ∧ shape.Holds (n.given S) members

theorem commutes_shape : shape.Commutes := by
  have hitem : shape.Puts "item" Draft.text fun v n => { n with item := v } := fun _ _ => rfl
  have hnpc : shape.Puts "npc" Draft.text fun v n => { n with npc := v } := fun _ _ => rfl
  have hbuff : shape.Puts "buff" Draft.text fun v n => { n with buff := v } := fun _ _ => rfl
  have htile : shape.Puts "tile" Draft.text fun v n => { n with tile := v } := fun _ _ => rfl
  have hfields : shape.fields.map Prod.fst = ["item", "npc", "buff", "tile"] := rfl
  rw [Shape.Commutes, hfields]
  simp only [List.pairwise_cons, List.forall_mem_cons, List.not_mem_nil, List.Pairwise.nil,
    IsEmpty.forall_iff, implies_true, and_true]
  exact ⟨⟨hitem.commuteAt hnpc fun _ _ _ => rfl, hitem.commuteAt hbuff fun _ _ _ => rfl,
      hitem.commuteAt htile fun _ _ _ => rfl⟩,
    ⟨hnpc.commuteAt hbuff fun _ _ _ => rfl, hnpc.commuteAt htile fun _ _ _ => rfl⟩,
    hbuff.commuteAt htile fun _ _ _ => rfl⟩

theorem nodup_given : ((n.given S).map Prod.fst).Nodup := by
  have hall : ["item", "npc", "buff", "tile"].Nodup := by decide
  refine hall.sublist ?_
  simp only [given, List.map_append]
  exact (Json.sublist_chosen _ "item" _).append ((Json.sublist_chosen _ "npc" _).append
    ((Json.sublist_chosen _ "buff" _).append (Json.sublist_chosen _ "tile" _)))

theorem readFields_given : shape.readFields (n.given S) shape.absent = .ok (n.restrict S) := by
  have hitem : shape.Sets "item" Draft.text item fun v n => { n with item := v } :=
    ⟨fun _ _ => rfl, fun _ => rfl⟩
  have hnpc : shape.Sets "npc" Draft.text npc fun v n => { n with npc := v } :=
    ⟨fun _ _ => rfl, fun _ => rfl⟩
  have hbuff : shape.Sets "buff" Draft.text buff fun v n => { n with buff := v } :=
    ⟨fun _ _ => rfl, fun _ => rfl⟩
  have htile : shape.Sets "tile" Draft.text tile fun v n => { n with tile := v } :=
    ⟨fun _ _ => rfl, fun _ => rfl⟩
  rw [given, ← List.append_nil (chosen _ "tile" _), hitem.readFields_chosen rfl,
    hnpc.readFields_chosen rfl, hbuff.readFields_chosen rfl, htile.readFields_chosen rfl]
  rfl

theorem decode_of_tells (h : n.Tells S d) (hspelled : d.IsSpelled) (medium : Medium) :
    shape.decode medium d = .ok (n.restrict S) := by
  obtain ⟨members, rfl, hholds⟩ := h
  exact Shape.decode_of_holds commutes_shape (by simp [shape]) hholds hspelled nodup_given
    readFields_given

end MarkerNames

namespace Config

variable {c : Config} {S : Finset Setting} {d : Draft} {medium : Medium}

/-- The given settings, and the defaults of the others. -/
def restrict (c : Config) (S : Finset Setting) : Config where
  outputRoot := if .outputRoot ∈ S then c.outputRoot else ({} : Config).outputRoot
  codeFile := if .codeFile ∈ S then c.codeFile else ({} : Config).codeFile
  markers := c.markers.restrict S
  categories := if .categories ∈ S then c.categories else ({} : Config).categories
  copyResources := if .copyResources ∈ S then c.copyResources else ({} : Config).copyResources
  resourceIgnores :=
    if .resourceIgnores ∈ S then c.resourceIgnores else ({} : Config).resourceIgnores

/-- The fields of the given settings. Those for the names of the markers are told apart. -/
def given (c : Config) (S : Finset Setting) (markers : List (String × Draft)) :
    List (String × Draft) :=
  chosen (.outputRoot ∈ S) "outputRoot" (.string c.outputRoot) ++
    (chosen (.codeFile ∈ S) "codeFile" (.string c.codeFile) ++ (markers ++
    (chosen (.categories ∈ S) "categories" (.ofList (fun k => .string k.name) c.categories) ++
    (chosen (.copyResources ∈ S) "copyResources" (.bool c.copyResources) ++
    chosen (.resourceIgnores ∈ S) "resourceIgnores" (.ofList .string c.resourceIgnores)))))

/-- The document is an object with the given settings and whatever else. If the name of no marker is
given, then it may have an object for them or not. -/
inductive Tells (c : Config) (S : Finset Setting) : Draft → Prop
  | unmarked {members : List (Option String × Draft)}
    (hmarkers : ∀ setting ∈ S, setting.isMarker = false)
    (hholds : (shape .text).Holds (c.given S []) members) : Tells c S (.object members true)
  | marked {names : Draft} {members : List (Option String × Draft)}
    (hnames : c.markers.Tells S names)
    (hholds : (shape .text).Holds (c.given S [("markers", names)]) members) :
    Tells c S (.object members true)

theorem restrict_markers (h : ∀ setting ∈ S, setting.isMarker = false) :
    c.markers.restrict S = {} := by
  have hnone : ∀ setting : Setting, setting.isMarker → setting ∉ S := by
    intro setting hmarker hmem
    rw [h setting hmem] at hmarker
    cases hmarker
  simp [MarkerNames.restrict, hnone .item rfl, hnone .npc rfl, hnone .buff rfl, hnone .tile rfl]

/-- All settings together make the whole configuration. -/
theorem restrict_of_forall_mem (h : ∀ setting, setting ∈ S) : c.restrict S = c := by
  simp [restrict, MarkerNames.restrict, h]

section Fields

theorem sets_outputRoot : (shape medium).Sets "outputRoot" Draft.text outputRoot
    fun v c => { c with outputRoot := v } :=
  ⟨fun _ _ => rfl, fun _ => rfl⟩

theorem sets_codeFile : (shape medium).Sets "codeFile" Draft.text codeFile
    fun v c => { c with codeFile := v } :=
  ⟨fun _ _ => rfl, fun _ => rfl⟩

theorem sets_markers : (shape medium).Sets "markers" (MarkerNames.shape.decode medium) markers
    fun v c => { c with markers := v } :=
  ⟨fun _ _ => rfl, fun _ => rfl⟩

theorem sets_categories : (shape medium).Sets "categories" (Draft.list (Category.decode medium))
    categories fun v c => { c with categories := v } :=
  ⟨fun _ _ => rfl, fun _ => rfl⟩

theorem sets_copyResources : (shape medium).Sets "copyResources" Draft.flag copyResources
    fun v c => { c with copyResources := v } :=
  ⟨fun _ _ => rfl, fun _ => rfl⟩

theorem sets_resourceIgnores : (shape medium).Sets "resourceIgnores" (Draft.list Draft.text)
    resourceIgnores fun v c => { c with resourceIgnores := v } :=
  ⟨fun _ _ => rfl, fun _ => rfl⟩

end Fields

theorem commutes_shape : (shape medium).Commutes := by
  have houtput := (@sets_outputRoot medium).puts
  have hcode := (@sets_codeFile medium).puts
  have hmarkers := (@sets_markers medium).puts
  have hcategories := (@sets_categories medium).puts
  have hcopy := (@sets_copyResources medium).puts
  have hignores := (@sets_resourceIgnores medium).puts
  have hfields : (shape medium).fields.map Prod.fst = ["outputRoot", "codeFile", "markers",
    "categories", "copyResources", "resourceIgnores"] := rfl
  rw [Shape.Commutes, hfields]
  simp only [List.pairwise_cons, List.forall_mem_cons, List.not_mem_nil, List.Pairwise.nil,
    IsEmpty.forall_iff, implies_true, and_true]
  exact ⟨⟨houtput.commuteAt hcode fun _ _ _ => rfl, houtput.commuteAt hmarkers fun _ _ _ => rfl,
      houtput.commuteAt hcategories fun _ _ _ => rfl, houtput.commuteAt hcopy fun _ _ _ => rfl,
      houtput.commuteAt hignores fun _ _ _ => rfl⟩,
    ⟨hcode.commuteAt hmarkers fun _ _ _ => rfl, hcode.commuteAt hcategories fun _ _ _ => rfl,
      hcode.commuteAt hcopy fun _ _ _ => rfl, hcode.commuteAt hignores fun _ _ _ => rfl⟩,
    ⟨hmarkers.commuteAt hcategories fun _ _ _ => rfl, hmarkers.commuteAt hcopy fun _ _ _ => rfl,
      hmarkers.commuteAt hignores fun _ _ _ => rfl⟩,
    ⟨hcategories.commuteAt hcopy fun _ _ _ => rfl, hcategories.commuteAt hignores fun _ _ _ => rfl⟩,
    hcopy.commuteAt hignores fun _ _ _ => rfl⟩

theorem nodup_given {markers : List (String × Draft)}
    (hmarkers : (markers.map Prod.fst).Sublist ["markers"]) :
    ((c.given S markers).map Prod.fst).Nodup := by
  have hall : ["outputRoot", "codeFile", "markers", "categories", "copyResources",
    "resourceIgnores"].Nodup := by decide
  refine hall.sublist ?_
  simp only [given, List.map_append]
  exact (Json.sublist_chosen _ "outputRoot" _).append <|
    (Json.sublist_chosen _ "codeFile" _).append <| hmarkers.append <|
    (Json.sublist_chosen _ "categories" _).append <|
    (Json.sublist_chosen _ "copyResources" _).append <| Json.sublist_chosen _ "resourceIgnores" _

/-- Reading the given settings gives them, if reading what is told of the markers gives their
names. -/
theorem readFields_given {markers : List (String × Draft)}
    (hmarkers : ∀ (rest : List (String × Draft)) (a : Config), a.markers = {} →
      (shape .text).readFields (markers ++ rest) a =
        (shape .text).readFields rest { a with markers := c.markers.restrict S }) :
    (shape .text).readFields (c.given S markers) (shape .text).absent = .ok (c.restrict S) := by
  have hcategories := Draft.list_ofList (f := id) c.categories fun k _ => k.decode_name .text
  rw [List.map_id] at hcategories
  rw [given, ← List.append_nil (chosen _ "resourceIgnores" _),
    sets_outputRoot.readFields_chosen rfl, sets_codeFile.readFields_chosen rfl, hmarkers _ _ rfl,
    sets_categories.readFields_chosen hcategories, sets_copyResources.readFields_chosen rfl,
    sets_resourceIgnores.readFields_chosen (Draft.list_strings c.resourceIgnores)]
  rfl

/-- **A document is decoded as what it tells.** -/
theorem decode_of_tells (h : c.Tells S d) (hspelled : d.IsSpelled) :
    (shape .text).decode .text d = .ok (c.restrict S) := by
  cases h with
  | unmarked hmarkers hholds =>
    refine Shape.decode_of_holds commutes_shape (by simp [shape]) hholds hspelled
      (nodup_given (List.nil_sublist _)) (readFields_given ?_)
    intro rest a ha
    rw [restrict_markers hmarkers, ← ha]
    rfl
  | @marked names members hnames hholds =>
    refine Shape.decode_of_holds commutes_shape (by simp [shape]) hholds hspelled
      (nodup_given (List.Sublist.refl _)) (readFields_given ?_)
    intro rest a _
    have hnamed : ("markers", names) ∈ c.given S [("markers", names)] := by simp [given]
    have hdecode := MarkerNames.decode_of_tells hnames
      (hspelled.members _ (hholds.mem hnamed)) .text
    rw [List.singleton_append, Shape.readFields, List.foldlM_cons, sets_markers.puts, hdecode]
    rfl

theorem ofText_of_tells {text : String} (h : c.Tells S d)
    (hspells : Json.Spells (.element d) (Text.symbolsOf text)) :
    ofText text = .ok (c.restrict S) := by
  rw [ofText, Json.decodeText, Draft.ofSymbols_of_spells hspells]
  simp [decode_of_tells h (Draft.isSpelled_of_spells hspells)]

/-- The document of a configuration tells all of it. -/
theorem tells_toJson (h : ∀ setting, setting ∈ S) : c.Tells S c.toJson.draft := by
  have hnames : c.markers.Tells S c.markers.toJson.draft := by
    refine ⟨_, rfl, ?_, by simp [Json.draftMembers]⟩
    simp only [MarkerNames.given, chosen, h, if_true]
    exact .refl _
  refine .marked hnames ⟨?_, by simp [Json.draftMembers]⟩
  simp only [given, chosen, h, if_true]
  exact .refl _

/-! ## Loading -/

/-- **A configuration file counts for what it gives.** Let a document give some settings of a
configuration, in any order and with any other fields. A text that spells it:

* is decoded as the given settings and the defaults of the others; that is the whole configuration
  if all settings are given, as they are by the text that the configuration is written as;
* is loaded, from a file in which it is found, as just that, exactly if all of it can be used;
  otherwise loading fails with the first objection. -/
theorem load_of_tells {text : String} (h : c.Tells S d)
    (hspells : Json.Spells (.element d) (Text.symbolsOf text)) :
    ofText text = .ok (c.restrict S) ∧
    ((∀ setting, setting ∈ S) → c.restrict S = c ∧ c.Tells S c.toJson.draft ∧
      Json.Spells (.element c.toJson.draft) (Text.symbolsOf c.toJson.toPretty) ∧
      ofText c.toJson.toPretty = .ok c) ∧
    ∀ (w : Workspace) (folder file : Path), findFile w folder = some file →
      w.read? file = some text.toUTF8 →
      (∀ loaded, load w folder = .ok loaded ↔
        loaded = c.restrict S ∧ (c.restrict S).IsUsable) ∧
      ∀ f, load w folder = .error f ↔ (c.restrict S).FirstObjection f := by
  have hdecode := ofText_of_tells h hspells
  refine ⟨hdecode, fun hall => ⟨restrict_of_forall_mem hall, tells_toJson hall, ?_,
    c.ofText_toPretty⟩, ?_⟩
  · have hspells := (Json.spells_text c.held_toJson [] Json.blanks_nil).2
    rwa [String.ofList_nil, String.append_empty] at hspells
  · intro w folder file hfile hread
    rw [load, hfile]
    simp only [ofFile_of_ofText hread hdecode]
    rw [← validate_eq_ok_iff]
    simp only [← validate_eq_error_iff]
    cases (c.restrict S).validate with
    | error g => simp [Except.map]
    | ok => simp [Except.map, eq_comm]

/-- A document that gives the output root and the name of one marker, and asks for nothing else. -/
def frugalDocument : Json :=
  .object [("comment", .null), ("markers", .object [("npc", .string " ")]),
    ("outputRoot", .string "out")]

/-- A disk with that document as the configuration of a folder. -/
def frugalWorkspace : Workspace :=
  let w := ((⟨.empty, {}⟩ : Workspace).makeFolders ⟨"/in"⟩).1
  (w.write? ⟨"/in/.modlocrc.json"⟩ frugalDocument.toCompact.toUTF8).getD w

/-- The document is decoded with defaults for what it does not give, and not loaded, because the
name of a marker is blank. -/
theorem load_of_tells_frugal :
    let c : Config := { outputRoot := "out", markers := { npc := " " } }
    let S : Finset Setting := {.outputRoot, .npc}
    c.Tells S frugalDocument.draft ∧
      Json.Spells (.element frugalDocument.draft) (Text.symbolsOf frugalDocument.toCompact) ∧
      ofText frugalDocument.toCompact = .ok c ∧
      load frugalWorkspace ⟨"/in"⟩ = .error (.refusal (.blankMarker "npc")) := by
  intro c S
  have htells : c.Tells S frugalDocument.draft := by
    refine .marked ⟨_, rfl, .refl _, by simp [Json.draftMembers]⟩ ⟨.swap .., ?_⟩
    simp [Json.draftMembers]
  have hheld : frugalDocument.Held := by simp [frugalDocument]
  have hspells := (Json.spells_text hheld [] Json.blanks_nil).1
  rw [String.ofList_nil, String.append_empty] at hspells
  obtain ⟨hdecode, -, hload⟩ := load_of_tells htells hspells
  have hsame : c.restrict S = c := by decide +kernel
  rw [hsame] at hdecode hload
  refine ⟨htells, hspells, hdecode, ?_⟩
  refine ((hload frugalWorkspace ⟨"/in"⟩ ⟨"/in/.modlocrc.json"⟩ ?_ ?_).2 _).2 ?_
  · decide +kernel
  · decide +kernel
  · have hmarkers : c.namedMarkers = [("item", c.markers.item)] ++
      ("npc", " ") :: [("buff", c.markers.buff), ("tile", c.markers.tile)] := rfl
    exact .marker isUsable_default.patterns hmarkers (by decide +kernel) (by decide +kernel)

end Config

end ModText
