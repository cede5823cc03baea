import LinkSet.Proofs.ClosedWorld

/-!
# Warnings

There is one thing that a run would warn of: a subtype that may be listed only if it is public, and
that the index does not find under the path that it should have (`Index.Misses`). Where warnings are
reported, there is one exactly if the way to a verdict comes to such a subtype
(`Verdict.exists_warn_iff`). It never does. Before subtypes are tried, the unit of the type is asked
whether it declares them all, and what a unit declares was read from the path that it is looked for
under (`Index.exists_byPath_of_declares`).

All else that is remarked on is below the level of warnings. So a run whose level is that of warnings
or above does not report anything (`Tightening.events_run_eq_nil`).
-/

namespace LinkSet

/-! ## Remarks below the level of warnings -/

/-- The event may be reported at the chosen level, and is less than a warning. -/
def Event.IsMinor (chosen : Level) (e : Event) : Prop :=
  ∃ level, level.below .warning = true ∧ chosen.enabled level = true
    ∧ level.severity? = some e.severity

/-- Nothing but minor events is on the way to the value. -/
def Remarked.IsQuiet {α : Type} (chosen : Level) (x : Remarked α) : Prop :=
  ∀ e ∈ x.events, e.IsMinor chosen

variable {α β : Type} {chosen level : Level}

theorem Event.IsMinor.severity_ne_warn {e : Event} (h : e.IsMinor chosen) :
    e.severity ≠ .warn := by
  obtain ⟨level, hbelow, _, hseverity⟩ := h
  intro hwarn
  rw [hwarn] at hseverity
  cases level <;> cases hseverity
  cases hbelow

/-- Levels from that of warnings on have no minor events. -/
theorem Event.IsMinor.below {e : Event} (h : e.IsMinor chosen) : chosen.below .warning = true := by
  obtain ⟨level, hbelow, henabled, _⟩ := h
  have hle : chosen.rank ≤ level.rank := by
    simp only [Level.enabled, Bool.and_eq_true, decide_eq_true_eq] at henabled
    exact henabled.2
  have hlt : level.rank < Level.warning.rank := by
    simpa [Level.below] using hbelow
  simpa [Level.below] using Nat.lt_of_le_of_lt hle hlt

namespace Remarked

theorem isQuiet_pure (a : α) : (pure a : Remarked α).IsQuiet chosen := by
  intro e he
  cases he

theorem IsQuiet.bind {x : Remarked α} {f : α → Remarked β} (hx : x.IsQuiet chosen)
    (hf : (f x.value).IsQuiet chosen) : (x >>= f).IsQuiet chosen := by
  intro e he
  rw [events_bind] at he
  rcases List.mem_append.1 he with he | he
  · exact hx e he
  · exact hf e he

theorem isQuiet_of_events {x : Remarked α} (h : x.events = []) : x.IsQuiet chosen := by
  intro e he
  rw [h] at he
  cases he

theorem IsQuiet.events_eq_nil {x : Remarked α} (h : x.IsQuiet chosen)
    (hchosen : chosen = .warning ∨ chosen = .error ∨ chosen = .off) : x.events = [] := by
  rw [List.eq_nil_iff_forall_not_mem]
  intro e he
  have hbelow := (h e he).below
  rcases hchosen with rfl | rfl | rfl <;> cases hbelow

end Remarked

theorem Level.events_remark (henabled : chosen.enabled level = true) {severity : Severity}
    (hseverity : level.severity? = some severity) {message : String} :
    (chosen.remark level message).events = [⟨severity, message⟩] := by
  unfold Level.remark
  rw [hseverity]
  exact if_pos henabled

theorem Level.isQuiet_remark (hbelow : level.below .warning = true) (message : String) :
    (chosen.remark level message).IsQuiet chosen := by
  intro e he
  unfold Level.remark at he
  cases hseverity : level.severity? with
  | none =>
    simp only [hseverity] at he
    cases he
  | some severity =>
    simp only [hseverity] at he
    by_cases henabled : chosen.enabled level = true
    · rw [if_pos henabled, List.mem_singleton] at he
      rw [he]
      exact ⟨level, hbelow, henabled, hseverity⟩
    · rw [if_neg henabled] at he
      cases he

/-! ## Types that are missing -/

namespace Index

variable {ix : Index} {owner unit candidate missing : String} {candidates : List String}

/-- Whether the candidate may be listed depends on a type that is not found. -/
def Misses (ix : Index) (owner unit candidate : String) : Prop :=
  TypeName.isNested candidate = false ∧ TypeName.package owner ≠ TypeName.package candidate
    ∧ ix.byPath[EntryPath.ofType unit candidate]? = none

/-- Trying the candidates in order comes to one that is missing. -/
inductive ComesTo (ix : Index) (level : Level) (owner unit : String) : List String → String → Prop
  /-- The first one is missing. -/
  | here {candidate : String} {candidates : List String} (hmisses : ix.Misses owner unit candidate) :
    ComesTo ix level owner unit (candidate :: candidates) candidate
  /-- The first one may be listed, and a later one is missing. -/
  | later {candidate missing : String} {candidates : List String}
    (hpermits : (ix.permits level owner unit candidate).value = true)
    (h : ComesTo ix level owner unit candidates missing) :
    ComesTo ix level owner unit (candidate :: candidates) missing

theorem ComesTo.misses (h : ix.ComesTo level owner unit candidates missing) :
    missing ∈ candidates ∧ ix.Misses owner unit missing := by
  induction h with
  | here hmisses => exact ⟨List.mem_cons_self, hmisses⟩
  | later _ _ ih => exact ⟨List.mem_cons_of_mem _ ih.1, ih.2⟩

theorem permits_of_misses (h : ix.Misses owner unit candidate) :
    ix.permits level owner unit candidate = do
      level.remark .warning ("Entry " ++ candidate ++ " not found in unit " ++ unit)
      return false := by
  obtain ⟨hnested, hpackage, hnone⟩ := h
  rw [permits, hnested, if_neg (by decide), if_neg hpackage, hnone]

theorem events_permits (h : ¬ ix.Misses owner unit candidate) :
    (ix.permits level owner unit candidate).events = [] := by
  unfold permits
  by_cases hnested : TypeName.isNested candidate = true
  · rw [if_pos hnested]
    rfl
  · rw [if_neg hnested]
    by_cases hpackage : TypeName.package owner = TypeName.package candidate
    · rw [if_pos hpackage]
      rfl
    · rw [if_neg hpackage]
      cases hfound : ix.byPath[EntryPath.ofType unit candidate]? with
      | none => exact absurd ⟨Bool.eq_false_of_not_eq_true hnested, hpackage, hfound⟩ h
      | some d => rfl

/-- Nothing is remarked on while candidates are tried, unless it comes to one that is missing. -/
theorem events_permitsAll (h : ∀ missing, ¬ ix.ComesTo level owner unit candidates missing) :
    (ix.permitsAll level owner unit candidates).events = [] := by
  induction candidates with
  | nil => rfl
  | cons candidate candidates ih =>
    have hfirst : (ix.permits level owner unit candidate).events = [] :=
      events_permits fun hmisses => h candidate (.here hmisses)
    rw [permitsAll, Remarked.events_bind, hfirst, List.nil_append]
    by_cases hpermits : (ix.permits level owner unit candidate).value = true
    · rw [if_pos hpermits]
      exact ih fun missing hlater => h missing (.later hpermits hlater)
    · rw [if_neg hpermits]
      rfl

/-- A candidate that is missing is warned of. -/
theorem ComesTo.mem_events (h : ix.ComesTo level owner unit candidates missing)
    (henabled : level.enabled .warning = true) :
    ⟨.warn, "Entry " ++ missing ++ " not found in unit " ++ unit⟩
      ∈ (ix.permitsAll level owner unit candidates).events := by
  induction h with
  | here hmisses =>
    rw [permitsAll, Remarked.events_bind, permits_of_misses hmisses, Remarked.events_bind,
      Level.events_remark henabled rfl]
    exact List.mem_cons_self
  | later hpermits _ ih =>
    rw [permitsAll, Remarked.events_bind, if_pos hpermits]
    exact List.mem_append_right _ ih

/-- What a unit declares is found under its path. -/
theorem exists_byPath_of_declares {decls : List TypeDecl} (hread : ∀ e ∈ decls, e.IsRead)
    {names : List String} (hdeclares : (ofDecls decls).declaresAll unit names = true) {name : String}
    (hname : name ∈ names) : ∃ e, (ofDecls decls).byPath[EntryPath.ofType unit name]? = some e := by
  obtain ⟨d, hd, rfl, rfl⟩ := declaresAll_iff.1 hdeclares name hname
  rw [← (hread d hd).isPlaced.1]
  exact exists_byPath hd

end Index

namespace Verdict

variable {ix : Index} {settings : Settings} {d : TypeDecl}

/-- The way to the verdict on a type comes to a subtype that is missing. -/
def FindsMissing (ix : Index) (settings : Settings) (d : TypeDecl) (missing : String) : Prop :=
  settings.filter.accepts d.unit = true ∧ Ruling.IsOpen d
    ∧ ∃ names, ix.subtypes.get? d.name = some names
      ∧ ix.declaresAll d.unit names.toList = true
      ∧ ix.ComesTo settings.level d.name d.unit names.toList missing

theorem isQuiet_ofLeaf : (ofLeaf settings d).IsQuiet settings.level := by
  unfold ofLeaf
  split
  · exact Remarked.isQuiet_pure _
  · exact (Level.isQuiet_remark rfl _).bind (Remarked.isQuiet_pure _)

theorem isQuiet_ofParent {names : NameSet}
    (h : (isClosed ix settings d names.toList).events = []) :
    (ofParent ix settings d names).IsQuiet settings.level := by
  unfold ofParent
  split
  · exact Remarked.isQuiet_pure _
  · refine (Remarked.isQuiet_of_events h).bind ?_
    split
    · exact (Level.isQuiet_remark rfl _).bind (Remarked.isQuiet_pure _)
    · exact Remarked.isQuiet_pure _

/-- A verdict is given without a warning, unless it comes to a subtype that is missing. -/
theorem isQuiet_ofDecl (h : ∀ missing, ¬ FindsMissing ix settings d missing) :
    (ofDecl ix settings d).IsQuiet settings.level := by
  unfold ofDecl
  by_cases hunit : settings.filter.accepts d.unit = true
  · rw [if_pos hunit]
    cases hnames : ix.subtypes.get? d.name with
    | none => exact isQuiet_ofLeaf
    | some names =>
      by_cases hopen : Ruling.IsOpen d
      · refine isQuiet_ofParent ?_
        unfold isClosed
        by_cases hdeclares : ix.declaresAll d.unit names.toList = true
        · rw [if_pos hdeclares]
          refine Index.events_permitsAll fun missing hcomes => ?_
          exact h missing ⟨hunit, hopen, names, hnames, hdeclares, hcomes⟩
        · rw [if_neg hdeclares]
          rfl
      · have hsealed : d.classFile.isSealed = true := by
          rw [← Bool.not_eq_false, Ruling.isSealed_eq_false_iff]
          exact hopen
        simp only [ofParent, if_pos hsealed]
        exact Remarked.isQuiet_pure _
  · rw [if_neg hunit]
    exact Remarked.isQuiet_pure _

/-- At levels that report warnings, a verdict is given with one exactly if it comes to a subtype that
is missing. -/
theorem exists_warn_iff (henabled : settings.level.enabled .warning = true) :
    (∃ e ∈ (ofDecl ix settings d).events, e.severity = .warn)
      ↔ ∃ missing, FindsMissing ix settings d missing := by
  constructor
  · rintro ⟨e, he, hwarn⟩
    by_contra hnone
    have hquiet : (ofDecl ix settings d).IsQuiet settings.level :=
      isQuiet_ofDecl fun missing h => hnone ⟨missing, h⟩
    exact (hquiet e he).severity_ne_warn hwarn
  · rintro ⟨missing, hunit, hopen, names, hnames, hdeclares, hcomes⟩
    have hsealed : d.classFile.isSealed = false := Ruling.isSealed_eq_false_iff.2 hopen
    have hclosed : isClosed ix settings d names.toList
        = ix.permitsAll settings.level d.name d.unit names.toList := if_pos hdeclares
    refine ⟨⟨.warn, "Entry " ++ missing ++ " not found in unit " ++ d.unit⟩, ?_, rfl⟩
    simp only [ofDecl, if_pos hunit, hnames, ofParent, hsealed, Bool.false_eq_true, if_false]
    rw [Remarked.events_bind, hclosed]
    exact List.mem_append_left _ (hcomes.mem_events henabled)

/-- A type that has another path than its unit and its name make up is not found. No such type is ever
read. -/
example : (ofDecl (Index.ofDecls [⟨"/u/A.class", "u", "A", Ruling.pairClass "A" none⟩,
      ⟨"/u/B.class", "u", "q/B", Ruling.pairClass "B" (some "A")⟩]) {}
    ⟨"/u/A.class", "u", "A", Ruling.pairClass "A" none⟩).events
      = [⟨.warn, "Entry q/B not found in unit u"⟩] := by
  decide +kernel

/-- The verdict on a type never comes to a subtype that is missing, if all types were read. -/
theorem not_findsMissing {decls : List TypeDecl} (hread : ∀ e ∈ decls, e.IsRead) (settings : Settings)
    (d : TypeDecl) (missing : String) : ¬ FindsMissing (Index.ofDecls decls) settings d missing := by
  rintro ⟨_, _, names, _, hdeclares, hcomes⟩
  obtain ⟨hmem, _, _, hnone⟩ := hcomes.misses
  obtain ⟨e, hfound⟩ := Index.exists_byPath_of_declares hread hdeclares hmem
  rw [hnone] at hfound
  cases hfound

end Verdict

namespace Tightening

variable {settings : Settings} {ix : Index}

/-! ## Runs -/

theorem isQuiet_lift {x : Remarked α} (h : x.IsQuiet chosen) :
    (liftM x : ExceptT TighteningError Remarked α).run.IsQuiet chosen := by
  intro e he
  have hevents : (liftM x : ExceptT TighteningError Remarked α).run.events = x.events := by
    simp [liftM, monadLift, MonadLift.monadLift, ExceptT.lift, ExceptT.mk, ExceptT.run, Functor.map]
  rw [hevents] at he
  exact h e he

theorem isQuiet_except {x : Except TighteningError α} :
    (liftM x : ExceptT TighteningError Remarked α).run.IsQuiet chosen :=
  Remarked.isQuiet_pure x

theorem isQuiet_bind {x : ExceptT TighteningError Remarked α}
    {f : α → ExceptT TighteningError Remarked β} (hx : x.run.IsQuiet chosen)
    (hf : ∀ a, Yields x a → (f a).run.IsQuiet chosen) : (x >>= f).run.IsQuiet chosen := by
  refine hx.bind (f := ExceptT.bindCont f) ?_
  cases hvalue : x.run.value with
  | error cause => exact Remarked.isQuiet_pure _
  | ok a => exact hf a hvalue

theorem isQuiet_mapM {f : α → ExceptT TighteningError Remarked β} {xs : List α}
    (h : ∀ x ∈ xs, (f x).run.IsQuiet chosen) : (xs.mapM f).run.IsQuiet chosen := by
  induction xs with
  | nil => exact Remarked.isQuiet_pure _
  | cons x xs ih =>
    rw [List.mapM_cons]
    refine isQuiet_bind (h x List.mem_cons_self) fun y _ => ?_
    refine isQuiet_bind (ih fun x' hx' => h x' (List.mem_cons_of_mem _ hx')) fun ys _ => ?_
    exact Remarked.isQuiet_pure _

theorem isQuiet_report (tally : Tally) (chosen : Level) : (tally.report chosen).IsQuiet chosen := by
  intro e he
  obtain ⟨line, _, hline⟩ := List.mem_flatMap.1 he
  exact Level.isQuiet_remark rfl _ e hline

theorem isQuiet_step {e : Entry} {decl : Option TypeDecl}
    (h : ∀ d missing, ¬ Verdict.FindsMissing ix settings d missing) :
    (step ix settings e decl).run.IsQuiet settings.level := by
  unfold step
  refine isQuiet_bind (isQuiet_lift (Level.isQuiet_remark rfl _)) fun _ _ => ?_
  cases decl with
  | none => exact Remarked.isQuiet_pure _
  | some d =>
    refine isQuiet_bind (isQuiet_lift (Verdict.isQuiet_ofDecl (h d))) fun verdict _ => ?_
    split
    · exact Remarked.isQuiet_pure _
    · exact isQuiet_bind isQuiet_except fun _ _ => Remarked.isQuiet_pure _

/-- A run gives no warning, whatever it comes to. -/
theorem isQuiet_run (settings : Settings) (entries : List Entry) :
    (run settings entries).run.IsQuiet settings.level := by
  unfold run
  refine isQuiet_bind isQuiet_except fun decls hdecls => ?_
  have hdeclared : decls.filterMap id = declared entries :=
    filterMap_decls (Result.mapM_eq_ok.1 (yields_except.1 hdecls))
  have hread : ∀ d ∈ decls.filterMap id, d.IsRead := by
    intro d hd
    rw [hdeclared] at hd
    exact isRead_of_mem hd
  refine isQuiet_bind (isQuiet_mapM ?_) fun steps _ => ?_
  · intro p _
    exact isQuiet_step (Verdict.not_findsMissing hread settings)
  · exact isQuiet_bind (isQuiet_lift (isQuiet_report _ _)) fun _ _ => Remarked.isQuiet_pure _

/-- If all types were read, whatever their paths, no verdict comes to a subtype that is missing, and
none is given with a warning. A run whose level is that of warnings or above reports nothing. -/
theorem events_run_eq_nil (settings : Settings) :
    (∀ decls : List TypeDecl, (∀ e ∈ decls, e.IsRead) → ∀ d,
        (∀ missing, ¬ Verdict.FindsMissing (Index.ofDecls decls) settings d missing)
        ∧ ∀ e ∈ (Verdict.ofDecl (Index.ofDecls decls) settings d).events, e.severity ≠ .warn)
      ∧ ∀ entries, settings.level = .warning ∨ settings.level = .error ∨ settings.level = .off →
        (run settings entries).run.events = [] := by
  constructor
  · intro decls hread d
    have hfound := Verdict.not_findsMissing hread settings d
    refine ⟨hfound, ?_⟩
    intro e he
    exact (Verdict.isQuiet_ofDecl hfound e he).severity_ne_warn
  · intro entries hlevel
    exact (isQuiet_run settings entries).events_eq_nil hlevel

/-- The class `A`, and twice the class `B` of another package that extends it. -/
def packageEntries : List Entry :=
  [⟨"/u/A.class", .ofUnit, Ruling.pairBytes 2 0⟩, ⟨"/u/q/B.class", .ofUnit, Ruling.pairBytes 4 2⟩,
    ⟨"/u/q/B.class", .ofUnit, Ruling.pairBytes 4 2⟩]

/-- `A` is sealed, for which `B` is looked for by its path, and this is not remarked on. -/
theorem events_run_eq_nil_packages :
    (Verdict.ofDecl (Index.ofDecls (declared packageEntries)) {}
        ⟨"/u/A.class", "u", "A", Ruling.pairClass "A" none⟩).value.decision.isKeep = false
      ∧ (∀ missing, ¬ Verdict.FindsMissing (Index.ofDecls (declared packageEntries)) {}
        ⟨"/u/A.class", "u", "A", Ruling.pairClass "A" none⟩ missing)
      ∧ (run {} packageEntries).run.events = [] := by
  obtain ⟨hverdicts, hruns⟩ := events_run_eq_nil {}
  have hread : ∀ e ∈ declared packageEntries, e.IsRead := fun _ he => isRead_of_mem he
  exact ⟨by decide +kernel, (hverdicts _ hread _).1, hruns packageEntries (.inl rfl)⟩

end Tightening

end LinkSet
