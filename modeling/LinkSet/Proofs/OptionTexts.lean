import LinkSet.Proofs.TrimmedTexts
import LinkSet.Settings
import Mathlib.Data.List.Forall2

/-!
# Settings from texts

The units that may be changed are given as a text. It is the star, or it lists names of units between
commas (`UnitFilter.Lists`). A text that lists no name is refused.

What is written for a set of units is read as this set, in whatever order the names are and whatever
white space is around them, and so are the other settings (`Settings.ofOptions_ofFlags`). A unit that
is called `*` cannot be given alone.
-/

namespace LinkSet

namespace UnitFilter

variable {text name : String} {units : NameSet} {names padded : List String}

/-! ## Names in a text -/

/-- Between commas, the text has the name, but for white space. -/
def Lists (text name : String) : Prop :=
  name ≠ "" ∧ ∃ piece ∈ Text.pieces ',' text.toList, Text.trim piece = name.toList

theorem toList_comma : ",".toList = [','] := rfl

theorem isBlank_comma : Text.isBlank ',' = false := rfl

theorem map_trim_pieces (text : String) :
    (Text.pieces ',' (Text.trim text.toList)).map Text.trim
      = (Text.pieces ',' text.toList).map Text.trim :=
  ((Text.pads_trim text.toList).map_trim_pieces isBlank_comma).symm

theorem mem_namesIn : name ∈ namesIn text ↔ Lists text name := by
  rw [namesIn, map_trim_pieces, Lists]
  simp only [List.mem_map, List.mem_filter, decide_eq_true_eq]
  constructor
  · rintro ⟨_, ⟨⟨piece, hpiece, rfl⟩, hne⟩, rfl⟩
    refine ⟨?_, piece, hpiece, ?_⟩
    · intro hempty
      exact hne (String.ofList_eq_empty_iff.1 hempty)
    · rw [String.toList_ofList]
  · rintro ⟨hne, piece, hpiece, htrim⟩
    refine ⟨name.toList, ⟨⟨piece, hpiece, htrim⟩, ?_⟩, String.ofList_toList⟩
    intro hempty
    exact hne (String.toList_eq_nil_iff.1 hempty)

theorem namesIn_eq_nil : namesIn text = [] ↔ ∀ name, ¬ Lists text name := by
  rw [List.eq_nil_iff_forall_not_mem]
  simp only [mem_namesIn]

theorem ofList_namesIn_eq_iff :
    NameSet.ofList (namesIn text) = units ↔ ∀ name, name ∈ units ↔ Lists text name := by
  rw [eq_comm, Std.ExtTreeSet.ext_mem_iff]
  simp only [NameSet.mem_ofList, mem_namesIn]

/-- The star lists itself and nothing else. -/
theorem lists_of_star (hstar : Text.trim text.toList = ['*']) : Lists text name ↔ name = "*" := by
  have hpieces := map_trim_pieces text
  rw [hstar] at hpieces
  have hmem : (∃ piece ∈ Text.pieces ',' text.toList, Text.trim piece = name.toList)
      ↔ name.toList = ['*'] := by
    rw [← List.mem_map, ← hpieces]
    exact List.mem_singleton
  rw [Lists, hmem]
  constructor
  · rintro ⟨_, hname⟩
    exact String.toList_inj.1 hname
  · rintro rfl
    exact ⟨by decide, rfl⟩

/-! ## What a text is read as -/

theorem ofText_cases (text : String) :
    (Text.trim text.toList = ['*'] ∧ ofText text = .ok .all)
      ∨ (Text.trim text.toList ≠ ['*'] ∧ namesIn text = [] ∧ ofText text = .error .emptyUnitFilter)
      ∨ (Text.trim text.toList ≠ ['*'] ∧ namesIn text ≠ []
        ∧ ofText text = .ok (.only (NameSet.ofList (namesIn text)))) := by
  unfold ofText
  by_cases hstar : Text.trim text.toList = ['*']
  · exact .inl ⟨hstar, if_pos hstar⟩
  · rw [if_neg hstar]
    by_cases hnone : namesIn text = []
    · exact .inr (.inl ⟨hstar, hnone, if_pos hnone⟩)
    · exact .inr (.inr ⟨hstar, hnone, if_neg hnone⟩)

theorem ofText_eq_all : ofText text = .ok .all ↔ Text.trim text.toList = ['*'] := by
  rcases ofText_cases text with ⟨hstar, hresult⟩ | ⟨hstar, _, hresult⟩ | ⟨hstar, _, hresult⟩
  · exact iff_of_true hresult hstar
  · rw [hresult]
    exact iff_of_false (fun h => nomatch h) hstar
  · rw [hresult]
    exact iff_of_false (fun h => nomatch h) hstar

theorem ofText_eq_error {cause : OptionError} :
    ofText text = .error cause ↔ cause = .emptyUnitFilter ∧ ∀ name, ¬ Lists text name := by
  rw [← namesIn_eq_nil]
  rcases ofText_cases text with ⟨hstar, hresult⟩ | ⟨_, hnone, hresult⟩ | ⟨_, hsome, hresult⟩
  · rw [hresult]
    have hlists : Lists text "*" := (lists_of_star hstar).2 rfl
    refine iff_of_false (fun h => nomatch h) ?_
    rintro ⟨_, hnone⟩
    exact namesIn_eq_nil.1 hnone "*" hlists
  · rw [hresult, Except.error.injEq]
    constructor
    · rintro rfl
      exact ⟨rfl, hnone⟩
    · rintro ⟨rfl, _⟩
      rfl
  · rw [hresult]
    refine iff_of_false (fun h => nomatch h) ?_
    rintro ⟨_, hnone⟩
    exact hsome hnone

theorem ofText_eq_only :
    ofText text = .ok (.only units)
      ↔ Text.trim text.toList ≠ ['*'] ∧ units ≠ ∅ ∧ ∀ name, name ∈ units ↔ Lists text name := by
  rw [← ofList_namesIn_eq_iff]
  rcases ofText_cases text with ⟨hstar, hresult⟩ | ⟨_, hnone, hresult⟩ | ⟨hstar, hsome, hresult⟩
  · rw [hresult]
    refine iff_of_false (fun h => nomatch h) ?_
    rintro ⟨hnot, _⟩
    exact hnot hstar
  · rw [hresult, hnone]
    refine iff_of_false (fun h => nomatch h) ?_
    rintro ⟨_, hne, rfl⟩
    exact hne rfl
  · rw [hresult, Except.ok.injEq, UnitFilter.only.injEq]
    constructor
    · rintro rfl
      refine ⟨hstar, ?_, rfl⟩
      intro hempty
      exact hsome (Std.ExtTreeSet.ofList_eq_empty_iff.1 hempty)
    · rintro ⟨_, _, hunits⟩
      exact hunits

/-! ## Texts for units -/

/-- The name can be listed in a text: something is left of it, and nothing is lost. -/
def IsListable (name : String) : Prop :=
  name ≠ "" ∧ ',' ∉ name.toList ∧ Text.IsBare name.toList

instance : Decidable (IsListable name) := inferInstanceAs (Decidable (_ ∧ _ ∧ _))

/-- The texts are the names, with white space around them. -/
def PadsAll (names padded : List String) : Prop :=
  List.Forall₂ (fun name text => Text.Pads name.toList text.toList) names padded

theorem PadsAll.not_mem (h : PadsAll names padded) (hnames : ∀ name ∈ names, ',' ∉ name.toList) :
    ∀ text ∈ padded, ',' ∉ text.toList := by
  induction h with
  | nil => exact fun _ htext => nomatch htext
  | cons hpads _ ih =>
    obtain ⟨hname, hnames⟩ := List.forall_mem_cons.1 hnames
    exact List.forall_mem_cons.2 ⟨hpads.not_mem isBlank_comma hname, ih hnames⟩

theorem PadsAll.map_trim (h : PadsAll names padded)
    (hnames : ∀ name ∈ names, Text.IsBare name.toList) :
    (padded.map String.toList).map Text.trim = names.map String.toList := by
  induction h with
  | nil => rfl
  | cons hpads _ ih =>
    obtain ⟨hname, hnames⟩ := List.forall_mem_cons.1 hnames
    rw [List.map_cons, List.map_cons, List.map_cons, ih hnames,
      Text.trim_eq_iff.2 ⟨hname, hpads⟩]

/-- Names between commas are listed, whatever white space is around them. -/
theorem lists_intercalate (h : PadsAll names padded) (hne : names ≠ [])
    (hnames : ∀ name ∈ names, IsListable name) :
    Lists (String.intercalate "," padded) name ↔ name ∈ names := by
  have hcomma := h.not_mem fun name hname => (hnames name hname).2.1
  have hsome : padded ≠ [] := by
    rintro rfl
    cases h
    exact hne rfl
  rw [Lists, Text.pieces_intercalate toList_comma hsome hcomma, ← List.mem_map,
    h.map_trim fun name hname => (hnames name hname).2.2]
  constructor
  · rintro ⟨_, hmem⟩
    obtain ⟨name', hname', heq⟩ := List.mem_map.1 hmem
    rwa [← String.toList_inj.1 heq]
  · intro hname
    exact ⟨(hnames name hname).1, List.mem_map_of_mem hname⟩

theorem ofText_intercalate (h : PadsAll names padded) (hunits : ∀ name, name ∈ units ↔ name ∈ names)
    (hnames : ∀ name ∈ units, IsListable name) (hsome : units ≠ ∅)
    (hstar : units ≠ NameSet.ofList ["*"]) :
    ofText (String.intercalate "," padded) = .ok (.only units) := by
  have hne : names ≠ [] := by
    rintro rfl
    apply hsome
    rw [Std.ExtTreeSet.eq_empty_iff_forall_not_mem]
    intro name hname
    exact List.not_mem_nil ((hunits name).1 hname)
  have hlists : ∀ name, name ∈ units ↔ Lists (String.intercalate "," padded) name := by
    intro name
    rw [hunits, lists_intercalate h hne fun name hname => hnames name ((hunits name).2 hname)]
  refine ofText_eq_only.2 ⟨?_, hsome, hlists⟩
  intro htrim
  apply hstar
  apply Std.ExtTreeSet.ext_mem
  intro name
  rw [hlists, lists_of_star htrim, NameSet.mem_ofList, List.mem_singleton]

end UnitFilter

/-! ## What options are read as -/

theorem Options.ofPairs_toPairs (o : Options) : ofPairs o.toPairs = o := by
  obtain ⟨units, finalizing, sealing, level⟩ := o
  cases units <;> cases finalizing <;> cases sealing <;> cases level <;> rfl

theorem Options.isOn_flag (isOff : Bool) : isOn (some (if isOff then "n" else "y")) = !isOff := by
  cases isOff <;> rfl

theorem Level.ofName?_name (level : Level) : ofName? level.name = some level := by
  cases level <;> rfl

namespace Settings

theorem ofOptions_ofFlags_eq {text : String} {filter : UnitFilter}
    (h : UnitFilter.ofText text = .ok filter) (noFinal noSeal : Bool) (level : Level) :
    ofOptions (Options.ofFlags text noFinal noSeal level.name)
      = .ok { filter, level, finalizing := !noFinal, sealing := !noSeal } := by
  have hlevel : levelOf (some level.name) = .ok level := by
    rw [levelOf, Level.ofName?_name]
  simp only [ofOptions, Options.ofFlags, Options.isOn_flag, h, hlevel]
  rfl

/-- The units are read from their text, and what is written for settings is read as these settings. -/
theorem ofOptions_ofFlags :
    (∀ text : String,
        (UnitFilter.ofText text = .ok .all ↔ Text.trim text.toList = ['*'])
        ∧ (∀ units, UnitFilter.ofText text = .ok (.only units)
          ↔ Text.trim text.toList ≠ ['*'] ∧ units ≠ ∅
            ∧ ∀ name, name ∈ units ↔ UnitFilter.Lists text name)
        ∧ ∀ cause, UnitFilter.ofText text = .error cause
          ↔ cause = .emptyUnitFilter ∧ ∀ name, ¬ UnitFilter.Lists text name)
    ∧ ∀ (units : NameSet) (names padded : List String) (noFinal noSeal : Bool) (level : Level),
        units ≠ ∅ → units ≠ NameSet.ofList ["*"] →
        (∀ name ∈ units, UnitFilter.IsListable name) → (∀ name, name ∈ units ↔ name ∈ names) →
        UnitFilter.PadsAll names padded →
        ofOptions (Options.ofPairs
            (Options.ofFlags (String.intercalate "," padded) noFinal noSeal level.name).toPairs)
          = .ok { filter := .only units, level, finalizing := !noFinal, sealing := !noSeal } := by
  constructor
  · intro text
    exact ⟨UnitFilter.ofText_eq_all, fun _ => UnitFilter.ofText_eq_only,
      fun _ => UnitFilter.ofText_eq_error⟩
  · intro units names padded noFinal noSeal level hsome hstar hnames hunits hpadded
    have hfilter := UnitFilter.ofText_intercalate hpadded hunits hnames hsome hstar
    rw [Options.ofPairs_toPairs, ofOptions_ofFlags_eq hfilter]

/-- White space around the names can be any. -/
theorem ofOptions_ofFlags_padded :
    (∀ name ∈ NameSet.ofList ["app", "lib"], UnitFilter.IsListable name)
    ∧ UnitFilter.PadsAll ["lib", "app"] [" lib\u00a0", "\tapp"]
    ∧ ofOptions (Options.ofPairs (Options.ofFlags " lib\u00a0,\tapp" true false "debug").toPairs)
      = .ok { filter := .only (NameSet.ofList ["app", "lib"]), level := .debug, finalizing := false } := by
  have hsome : NameSet.ofList ["app", "lib"] ≠ ∅ := by
    intro hempty
    cases Std.ExtTreeSet.ofList_eq_empty_iff.1 hempty
  have hstar : NameSet.ofList ["app", "lib"] ≠ NameSet.ofList ["*"] := by
    intro heq
    have happ : "app" ∈ NameSet.ofList ["app", "lib"] := NameSet.mem_ofList.2 List.mem_cons_self
    rw [heq, NameSet.mem_ofList] at happ
    exact absurd happ (by decide)
  have hnames : ∀ name ∈ NameSet.ofList ["app", "lib"], UnitFilter.IsListable name := by
    intro name hname
    have hall : ∀ name ∈ ["app", "lib"], UnitFilter.IsListable name := by decide
    exact hall name (NameSet.mem_ofList.1 hname)
  have horder : ∀ name, name ∈ NameSet.ofList ["app", "lib"] ↔ name ∈ ["lib", "app"] := by
    intro name
    rw [NameSet.mem_ofList]
    exact (List.Perm.swap "lib" "app" []).mem_iff
  have hpadded : UnitFilter.PadsAll ["lib", "app"] [" lib\u00a0", "\tapp"] :=
    .cons (Text.trim_eq_iff.1 rfl).2 (.cons (Text.trim_eq_iff.1 rfl).2 .nil)
  have htext : String.intercalate "," [" lib\u00a0", "\tapp"] = " lib\u00a0,\tapp" := by decide
  have hread := ofOptions_ofFlags.2 _ _ _ true false .debug hsome hstar hnames horder hpadded
  rw [htext] at hread
  exact ⟨hnames, hpadded, hread⟩

end Settings

end LinkSet
