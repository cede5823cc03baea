import LinkSet.Tightening
import LinkSet.Proofs.Changed
import LinkSet.Proofs.IndexLookup

/-!
# Runs

A run takes one step for each entry. The steps are in the order of the entries and each depends on
nothing but its entry and the index, which is that of all declared types (`yields_run`). A step
leaves an entry that is not the class file of a type as it is, and carries the verdict out on any
other (`StepOf`). So each entry that comes out is one that went in, with at most its content changed
(`Becomes`), and each change that is told is one of these (`exists_entry_of_change`).

Remarks do not matter for what a run comes to, so they are dropped here: `Yields` tells the value
only.
-/

namespace LinkSet.Tightening

variable {α β : Type}

/-! ## Values of computations -/

/-- The computation succeeds with this value, whatever it remarks on the way. -/
def Yields (x : ExceptT TighteningError Remarked α) (a : α) : Prop := x.run.value = .ok a

theorem yields_pure {a b : α} : Yields (pure a) b ↔ a = b :=
  Result.pure_eq_ok

theorem yields_bind {x : ExceptT TighteningError Remarked α}
    {f : α → ExceptT TighteningError Remarked β} {b : β} :
    Yields (x >>= f) b ↔ ∃ a, Yields x a ∧ Yields (f a) b := by
  change (ExceptT.bindCont f x.run.value).value = .ok b ↔ ∃ a, x.run.value = .ok a ∧ _
  cases x.run.value with
  | error cause =>
    constructor
    · intro h
      cases h
    · rintro ⟨a, h, _⟩
      cases h
  | ok a =>
    constructor
    · intro h
      exact ⟨a, rfl, h⟩
    · rintro ⟨a', h, hf⟩
      obtain rfl := Except.ok.inj h
      exact hf

theorem yields_remark {x : Remarked Unit} {u : Unit} :
    Yields (liftM x : ExceptT TighteningError Remarked Unit) u :=
  rfl

theorem yields_lift {x : Remarked α} {a : α} :
    Yields (liftM x : ExceptT TighteningError Remarked α) a ↔ x.value = a := by
  change Except.ok x.value = .ok a ↔ _
  rw [Except.ok.injEq]

theorem yields_except {x : Except TighteningError α} {a : α} :
    Yields (liftM x : ExceptT TighteningError Remarked α) a ↔ x = .ok a :=
  Iff.rfl

theorem yields_mapM {f : α → ExceptT TighteningError Remarked β} {xs : List α} {ys : List β} :
    Yields (xs.mapM f) ys ↔ List.Forall₂ (fun x y => Yields (f x) y) xs ys :=
  Result.mapM_iff (Y := Yields) yields_pure yields_bind

/-! ## Steps -/

/-- The type that an entry declares, if it is the class file of one and can be read. -/
def declaration (e : Entry) : Option TypeDecl :=
  if e.isClass then (TypeDecl.ofEntry e).toOption else none

theorem declaration_eq_some {e : Entry} {d : TypeDecl} :
    declaration e = some d ↔ e.isClass = true ∧ TypeDecl.ofEntry e = .ok d := by
  unfold declaration
  cases e.isClass with
  | false => simp
  | true => simp [Result.toOption_eq_some]

theorem declaration_of_other {e : Entry} (hother : e.isClass = false) : declaration e = none := by
  rw [declaration, hother]
  rfl

/-- The types that the entries declare. -/
def declared (entries : List Entry) : List TypeDecl := entries.filterMap declaration

theorem declared_cons (e : Entry) (entries : List Entry) :
    declared (e :: entries) = (declaration e).toList ++ declared entries := by
  rw [declared, List.filterMap_cons, ← declared]
  cases declaration e <;> rfl

theorem mem_declared {entries : List Entry} {d : TypeDecl} :
    d ∈ declared entries ↔ ∃ e ∈ entries, e.isClass = true ∧ TypeDecl.ofEntry e = .ok d := by
  simp only [declared, List.mem_filterMap, declaration_eq_some]

/-- What holds between any two class files of the link set holds between the types that they
declare. -/
theorem pairwise_declared {R : Entry → Entry → Prop} {S : TypeDecl → TypeDecl → Prop}
    (hread : ∀ {e e' d d'}, TypeDecl.ofEntry e = .ok d → TypeDecl.ofEntry e' = .ok d' →
      R e e' → S d d') {entries : List Entry} (h : (entries.filter Entry.isClass).Pairwise R) :
    (declared entries).Pairwise S := by
  rw [List.pairwise_filter] at h
  rw [declared, List.pairwise_filterMap]
  refine h.imp fun {e e'} hR d hd d' hd' => ?_
  obtain ⟨hclass, he⟩ := declaration_eq_some.1 hd
  obtain ⟨hclass', he'⟩ := declaration_eq_some.1 hd'
  exact hread he he' (hR hclass hclass')

/-- What comes of one entry, depending on what it is and on the verdict on its type. -/
inductive StepOf (ix : Index) (settings : Settings) : Entry → Step → Prop
  /-- The entry is not the class file of a type. -/
  | other {e : Entry} (hother : e.isClass = false) : StepOf ix settings e ⟨e, none, {}⟩
  /-- The type stays as it is. -/
  | kept {e : Entry} {d : TypeDecl} {v : Verdict} (hclass : e.isClass = true)
    (hread : TypeDecl.ofEntry e = .ok d) (hv : (Verdict.ofDecl ix settings d).value = v)
    (hkeep : v.decision.isKeep = true) : StepOf ix settings e ⟨e, none, v.tally⟩
  /-- The type is changed. -/
  | changed {e : Entry} {d : TypeDecl} {v : Verdict} {content : Bytes} (hclass : e.isClass = true)
    (hread : TypeDecl.ofEntry e = .ok d) (hv : (Verdict.ofDecl ix settings d).value = v)
    (hkeep : v.decision.isKeep = false)
    (happly : d.classFile.apply v.decision e.content = .ok content) :
    StepOf ix settings e
      ⟨{ e with content }, some ⟨e.path, v.decision, Sha256.hexDigest content⟩, v.tally⟩

theorem declOf?_eq_ok {e : Entry} {decl : Option TypeDecl} :
    declOf? e = .ok decl ↔ (e.isClass = false ∧ decl = none)
      ∨ (e.isClass = true ∧ ∃ d, TypeDecl.ofEntry e = .ok d ∧ decl = some d) := by
  unfold declOf?
  cases e.isClass with
  | false => simp [eq_comm]
  | true => cases TypeDecl.ofEntry e <;> simp [eq_comm]

theorem carryOut_eq_ok {e : Entry} {d : TypeDecl} {decision : Decision} {r : Entry × Change} :
    carryOut e d decision = .ok r ↔ ∃ content, d.classFile.apply decision e.content = .ok content
      ∧ r = ({ e with content }, ⟨e.path, decision, Sha256.hexDigest content⟩) := by
  unfold carryOut
  cases d.classFile.apply decision e.content <;> simp [eq_comm]

variable {settings : Settings} {entries : List Entry}

theorem yields_step_none {ix : Index} {e : Entry} {s : Step} :
    Yields (step ix settings e none) s ↔ ⟨e, none, {}⟩ = s := by
  unfold step
  simp only [yields_bind, yields_remark, true_and, exists_const, yields_pure]

theorem yields_step_some {ix : Index} {e : Entry} {d : TypeDecl} {v : Verdict}
    (hv : (Verdict.ofDecl ix settings d).value = v) {s : Step} :
    Yields (step ix settings e (some d)) s
      ↔ (v.decision.isKeep = true ∧ ⟨e, none, v.tally⟩ = s)
        ∨ (v.decision.isKeep = false
          ∧ ∃ content, d.classFile.apply v.decision e.content = .ok content
            ∧ ⟨{ e with content }, some ⟨e.path, v.decision, Sha256.hexDigest content⟩, v.tally⟩
              = s) := by
  unfold step
  simp only [yields_bind, true_and, exists_const, yields_lift, hv, exists_eq_left']
  cases v.decision.isKeep with
  | true => simp [yields_pure]
  | false =>
    simp only [Bool.false_eq_true, if_false, yields_bind, yields_except, carryOut_eq_ok,
      yields_pure, false_and, false_or, true_and]
    constructor
    · rintro ⟨_, ⟨content, happly, rfl⟩, hs⟩
      exact ⟨content, happly, hs⟩
    · rintro ⟨content, happly, hs⟩
      exact ⟨_, ⟨content, happly, rfl⟩, hs⟩

/-- A step comes to what is described for its entry. -/
theorem yields_step {ix : Index} {e : Entry} {decl : Option TypeDecl} (hdecl : declOf? e = .ok decl)
    {s : Step} : Yields (step ix settings e decl) s ↔ StepOf ix settings e s := by
  constructor
  · intro h
    rcases declOf?_eq_ok.1 hdecl with ⟨hother, rfl⟩ | ⟨hclass, d, hread, rfl⟩
    · obtain rfl := yields_step_none.1 h
      exact .other hother
    · rcases (yields_step_some rfl).1 h with ⟨hkeep, rfl⟩ | ⟨hkeep, content, happly, rfl⟩
      · exact .kept hclass hread rfl hkeep
      · exact .changed hclass hread rfl hkeep happly
  · intro h
    cases h with
    | other hother =>
      obtain rfl := Except.ok.inj ((declOf?_eq_ok.2 (.inl ⟨hother, rfl⟩)).symm.trans hdecl)
      exact yields_step_none.2 rfl
    | kept hclass hread hv hkeep =>
      obtain rfl := Except.ok.inj
        ((declOf?_eq_ok.2 (.inr ⟨hclass, _, hread, rfl⟩)).symm.trans hdecl)
      exact (yields_step_some hv).2 (.inl ⟨hkeep, rfl⟩)
    | changed hclass hread hv hkeep happly =>
      obtain rfl := Except.ok.inj
        ((declOf?_eq_ok.2 (.inr ⟨hclass, _, hread, rfl⟩)).symm.trans hdecl)
      exact (yields_step_some hv).2 (.inr ⟨hkeep, _, happly, rfl⟩)

/-! ## Runs -/

theorem filterMap_decls {decls : List (Option TypeDecl)}
    (h : List.Forall₂ (fun e decl => declOf? e = .ok decl) entries decls) :
    decls.filterMap id = declared entries := by
  induction h with
  | nil => rfl
  | cons hdecl _ ih =>
    rw [declared_cons, List.filterMap_cons, ih]
    rcases declOf?_eq_ok.1 hdecl with ⟨hother, rfl⟩ | ⟨hclass, d, hread, rfl⟩
    · rw [declaration_of_other hother]
      rfl
    · rw [declaration_eq_some.2 ⟨hclass, hread⟩]
      rfl

/-- Steps on entries with their declarations are steps on the entries. -/
theorem forall₂_step_iff {ix : Index} {decls : List (Option TypeDecl)}
    (h : List.Forall₂ (fun e decl => declOf? e = .ok decl) entries decls) {steps : List Step} :
    List.Forall₂ (fun (p : Entry × Option TypeDecl) s => Yields (step ix settings p.1 p.2) s)
        (entries.zip decls) steps
      ↔ List.Forall₂ (StepOf ix settings) entries steps := by
  induction h generalizing steps with
  | nil => rw [List.zip_nil_left, List.forall₂_nil_left_iff, List.forall₂_nil_left_iff]
  | cons hdecl _ ih =>
    simp only [List.zip_cons_cons, List.forall₂_cons_left_iff, yields_step hdecl, ih]

theorem StepOf.exists_decl {ix : Index} {e : Entry} {s : Step} (h : StepOf ix settings e s) :
    ∃ decl, declOf? e = .ok decl := by
  cases h with
  | other hother => exact ⟨_, declOf?_eq_ok.2 (.inl ⟨hother, rfl⟩)⟩
  | kept hclass hread => exact ⟨_, declOf?_eq_ok.2 (.inr ⟨hclass, _, hread, rfl⟩)⟩
  | changed hclass hread => exact ⟨_, declOf?_eq_ok.2 (.inr ⟨hclass, _, hread, rfl⟩)⟩

theorem exists_decls {ix : Index} {steps : List Step}
    (h : List.Forall₂ (StepOf ix settings) entries steps) :
    ∃ decls, List.Forall₂ (fun e decl => declOf? e = .ok decl) entries decls := by
  induction h with
  | nil => exact ⟨[], .nil⟩
  | cons hstep _ ih =>
    obtain ⟨decl, hdecl⟩ := hstep.exists_decl
    obtain ⟨decls, hdecls⟩ := ih
    exact ⟨decl :: decls, .cons hdecl hdecls⟩

/-- A run comes to what steps on all entries come to, each with the index of all declared types. -/
theorem yields_run {result : Tightened} :
    Yields (run settings entries) result
      ↔ ∃ steps, List.Forall₂ (StepOf (Index.ofDecls (declared entries)) settings) entries steps
        ∧ gather steps = result := by
  unfold run
  simp only [yields_bind, yields_remark, true_and, exists_const, yields_pure, yields_mapM,
    yields_except, Result.mapM_eq_ok]
  constructor
  · rintro ⟨decls, hdecls, steps, hsteps, rfl⟩
    refine ⟨steps, ?_, rfl⟩
    rw [filterMap_decls hdecls] at hsteps
    exact (forall₂_step_iff hdecls).1 hsteps
  · rintro ⟨steps, hsteps, rfl⟩
    obtain ⟨decls, hdecls⟩ := exists_decls hsteps
    refine ⟨decls, hdecls, steps, ?_, rfl⟩
    rw [filterMap_decls hdecls]
    exact (forall₂_step_iff hdecls).2 hsteps

/-- On the class file of a type, the verdict is carried out. -/
theorem StepOf.apply_eq_ok {ix : Index} {e : Entry} {s : Step} (h : StepOf ix settings e s)
    (hclass : e.isClass = true) :
    ∃ d, TypeDecl.ofEntry e = .ok d
      ∧ d.classFile.apply (Verdict.ofDecl ix settings d).value.decision e.content
        = .ok s.entry.content := by
  cases h with
  | other hother => exact absurd (hclass.symm.trans hother) Bool.noConfusion
  | @kept d v _ hread hv hkeep =>
    refine ⟨d, hread, ?_⟩
    rw [hv, Decision.isKeep_iff.1 hkeep]
    exact ClassFile.apply_keep (TypeDecl.ofEntry_eq_ok.1 hread).2.2.2
  | @changed d _ _ _ hread hv _ happly =>
    refine ⟨d, hread, ?_⟩
    rw [hv]
    exact happly

theorem StepOf.entry_eq {ix : Index} {e : Entry} {s : Step} (h : StepOf ix settings e s) :
    s.entry = { e with content := s.entry.content } := by
  cases h <;> rfl

/-- A step counts what the verdict on the declared type counts, and nothing if there is no type. -/
theorem StepOf.tally_eq {ix : Index} {e : Entry} {s : Step} (h : StepOf ix settings e s) :
    s.tally = match declaration e with
      | some d => (Verdict.ofDecl ix settings d).value.tally
      | none => {} := by
  cases h with
  | other hother => rw [declaration_of_other hother]
  | kept hclass hread hv _ => rw [declaration_eq_some.2 ⟨hclass, hread⟩, ← hv]
  | changed hclass hread hv _ _ => rw [declaration_eq_some.2 ⟨hclass, hread⟩, ← hv]

/-- The verdict of a run on a type. -/
def verdictOn (settings : Settings) (entries : List Entry) (d : TypeDecl) : Verdict :=
  (Verdict.ofDecl (Index.ofDecls (declared entries)) settings d).value

/-- The decision of a run on an entry: that on the type which it declares, or to keep it if it
declares none. -/
def decisionOn (settings : Settings) (entries : List Entry) (e : Entry) : Decision :=
  match declaration e with
  | some d => (verdictOn settings entries d).decision
  | none => .keep

/-- What becomes of an entry in a run: it stays where it is, and the class file of a type has the
verdict carried out on it. -/
structure Becomes (settings : Settings) (entries : List Entry) (e e' : Entry) : Prop where
  path_eq : e'.path = e.path
  isClass_eq : e'.isClass = e.isClass
  apply_eq : e.isClass = true → ∃ d, TypeDecl.ofEntry e = .ok d
    ∧ d.classFile.apply (verdictOn settings entries d).decision e.content = .ok e'.content

theorem forall₂_becomes {result : Tightened} (h : Yields (run settings entries) result) :
    List.Forall₂ (Becomes settings entries) entries result.entries := by
  obtain ⟨steps, hsteps, rfl⟩ := yields_run.1 h
  rw [gather, List.forall₂_map_right_iff]
  refine hsteps.imp fun e s hstep => ⟨?_, ?_, hstep.apply_eq_ok⟩
  · rw [hstep.entry_eq]
  · rw [hstep.entry_eq]
    rfl

theorem forall₂_kind {result : Tightened} (h : Yields (run settings entries) result) :
    List.Forall₂ (fun e e' => e'.kind = e.kind) entries result.entries := by
  obtain ⟨steps, hsteps, rfl⟩ := yields_run.1 h
  rw [gather, List.forall₂_map_right_iff]
  refine hsteps.imp fun e s hstep => ?_
  rw [hstep.entry_eq]

/-- The entry that comes of the class file of a type has the verdict carried out on it. -/
theorem entry_of_run {result : Tightened} (h : Yields (run settings entries) result) {i : Nat}
    {e : Entry} (he : entries[i]? = some e) (hclass : e.isClass = true) :
    ∃ e' d, result.entries[i]? = some e' ∧ TypeDecl.ofEntry e = .ok d
      ∧ d.classFile.apply (verdictOn settings entries d).decision e.content = .ok e'.content := by
  obtain ⟨e', he', hbecomes⟩ := Result.forall₂_getElem? (forall₂_becomes h) he
  obtain ⟨d, hread, happly⟩ := hbecomes.apply_eq hclass
  exact ⟨e', d, he', hread, happly⟩

/-- A change tells the path of the class file of a type and the verdict on it. -/
theorem exists_entry_of_change {result : Tightened} (h : Yields (run settings entries) result)
    {change : Change} (hchange : change ∈ result.changes) :
    ∃ e ∈ entries, e.isClass = true ∧ change.path = e.path
      ∧ ∃ d, TypeDecl.ofEntry e = .ok d
        ∧ change.decision = (verdictOn settings entries d).decision := by
  obtain ⟨steps, hsteps, rfl⟩ := yields_run.1 h
  obtain ⟨s, hs, hsome⟩ := List.mem_filterMap.1 hchange
  obtain ⟨e, he, hstep⟩ := Result.forall₂_mem hsteps.flip hs
  cases hstep with
  | other _ => cases hsome
  | kept _ _ _ _ => cases hsome
  | @changed d _ _ hclass hread hv _ _ =>
    obtain rfl := Option.some.inj hsome
    refine ⟨e, he, hclass, rfl, d, hread, ?_⟩
    rw [verdictOn, hv]

end LinkSet.Tightening
