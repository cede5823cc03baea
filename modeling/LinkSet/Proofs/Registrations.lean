import LinkSet.Proofs.NameOrder
import LinkSet.Proofs.Reordering

/-!
# Registrations

To register values under keys is to build up a finite relation, pair by pair. What a multimap tells
after any number of registrations is this relation (`NameMultimap.Represents`,
`NameMultimap.represents_ofPairs`), and one more registration tells whether its pair is new
(`NameMultimap.insert_ofPairs`). So the answers of a whole run point out the pairs that came for the
first time, and what the run leaves behind does not depend on its order or on what came again
(`NameMultimap.insertAll_represents`). The two multimaps of an index are made by such runs.
-/

namespace LinkSet

namespace NameMultimap

/-- Registers the pairs one after the other, and gives the answers in this order. -/
def insertAll (m : NameMultimap) : List (String × String) → List Bool × NameMultimap
  | [] => ([], m)
  | (key, value) :: pairs =>
    let (isNew, m) := m.insert key value
    let (answers, m) := m.insertAll pairs
    (isNew :: answers, m)

/-- What the multimap tells is the relation of the pairs. -/
structure Represents (m : NameMultimap) (pairs : List (String × String)) : Prop where
  /-- Under a key that no pair has there is nothing. -/
  get?_eq_none : ∀ k, m.get? k = none ↔ ∀ v, (k, v) ∉ pairs
  /-- Under any other key are the values of its pairs, in increasing order of their UTF-8 bytes. -/
  toList_get? : ∀ k values, m.get? k = some values →
    (∀ v, v ∈ values.toList ↔ (k, v) ∈ pairs)
      ∧ values.toList.Pairwise fun v w => Utf8.bytes v < Utf8.bytes w
  containsAll : ∀ k vs, m.containsAll k vs = true ↔ ∀ v ∈ vs, (k, v) ∈ pairs

theorem represents_ofPairs (pairs : List (String × String)) : (ofPairs pairs).Represents pairs where
  get?_eq_none := get?_ofPairs_eq_none pairs
  toList_get? := by
    intro k values hvalues
    refine ⟨fun v => ?_, values.pairwise_bytes_toList⟩
    rw [Std.ExtTreeSet.mem_toList, ← contains_of_get? hvalues, contains_ofPairs]
  containsAll := by
    intro k vs
    rw [NameMultimap.containsAll, List.all_eq_true]
    simp only [contains_ofPairs]

/-- One more registration adds its pair, and tells whether it is new. -/
theorem insert_ofPairs (pairs : List (String × String)) (key value : String) :
    (ofPairs pairs).insert key value
      = (decide ((key, value) ∉ pairs), ofPairs (pairs ++ [(key, value)])) := by
  have hnew : (!(ofPairs pairs).contains key value) = decide ((key, value) ∉ pairs) := by
    rw [decide_not, Bool.not_inj_iff, Bool.eq_iff_iff, contains_ofPairs, decide_eq_true_iff]
  have hadd : (ofPairs pairs).add key value = ofPairs (pairs ++ [(key, value)]) := by
    rw [ofPairs, ofPairs, List.foldl_append]
    rfl
  rw [insert, hnew, hadd]

/-- After `done`, a run adds its pairs, and each answer tells whether the pair is new by then. -/
theorem insertAll_ofPairs (done pairs : List (String × String)) :
    ∃ answers, (ofPairs done).insertAll pairs = (answers, ofPairs (done ++ pairs))
      ∧ answers.length = pairs.length
      ∧ ∀ before p after, pairs = before ++ p :: after →
        answers[before.length]? = some (decide (p ∉ done ++ before)) := by
  -- each pair joins those that are done before the rest of the run
  induction pairs generalizing done with
  | nil =>
    refine ⟨[], by rw [List.append_nil]; rfl, rfl, fun before p after hsplit => ?_⟩
    exact absurd hsplit.symm (by simp)
  | cons pair pairs ih =>
    obtain ⟨answers, hrun, hlength, hanswers⟩ := ih (done ++ [pair])
    refine ⟨decide (pair ∉ done) :: answers, ?_, by simp [hlength], fun before p after hsplit => ?_⟩
    · simp only [insertAll, insert_ofPairs]
      rw [hrun, List.append_assoc, List.singleton_append]
    · cases before with
      | nil =>
        obtain ⟨rfl, _⟩ := List.cons.inj hsplit
        rw [List.append_nil]
        rfl
      | cons first before =>
        obtain ⟨rfl, hrest⟩ := List.cons.inj hsplit
        rw [List.length_cons, List.getElem?_cons_succ, hanswers before p after hrest,
          List.append_assoc, List.singleton_append]

/-- A multimap of pairs is what a run leaves behind, whatever its answers are. -/
theorem insertAll_empty_snd (pairs : List (String × String)) :
    (empty.insertAll pairs).2 = ofPairs pairs := by
  obtain ⟨answers, hrun, _⟩ := insertAll_ofPairs [] pairs
  exact congrArg Prod.snd hrun

/-- However often and in whatever order pairs are registered, what a multimap tells is which pairs
have been, and each registration tells whether its pair has been before. Runs of the same pairs
leave the same multimap behind. So the subtypes and the members in an index depend on nothing but
which names the types extend and which units they are of. -/
theorem insertAll_represents (pairs : List (String × String)) :
    ∃ answers m, empty.insertAll pairs = (answers, m)
      ∧ m.Represents pairs
      ∧ answers.length = pairs.length
      ∧ (∀ before p after, pairs = before ++ p :: after →
        answers[before.length]? = some (decide (p ∉ before)))
      ∧ (∀ pairs', (∀ p, p ∈ pairs' ↔ p ∈ pairs) → (empty.insertAll pairs').2 = m)
      ∧ ∀ decls decls' : List TypeDecl,
        ((∀ name sub, (∃ d ∈ decls, d.name = sub ∧ d.Extends name)
            ↔ ∃ d ∈ decls', d.name = sub ∧ d.Extends name) →
          (Index.ofDecls decls).subtypes = (Index.ofDecls decls').subtypes)
        ∧ ((∀ unit name, (∃ d ∈ decls, d.unit = unit ∧ d.name = name)
            ↔ ∃ d ∈ decls', d.unit = unit ∧ d.name = name) →
          (Index.ofDecls decls).members = (Index.ofDecls decls').members) := by
  obtain ⟨answers, hrun, hlength, hanswers⟩ := insertAll_ofPairs [] pairs
  refine ⟨answers, ofPairs pairs, hrun, represents_ofPairs pairs, hlength, hanswers, ?_, ?_⟩
  · intro pairs' hsame
    rw [insertAll_empty_snd, ofPairs_congr hsame]
  · intro decls decls'
    refine ⟨fun hsame => ofPairs_congr fun ⟨name, sub⟩ => ?_,
      fun hsame => ofPairs_congr fun ⟨unit, name⟩ => ?_⟩
    · rw [Index.mem_subtypePairs, Index.mem_subtypePairs]
      exact hsame name sub
    · rw [Index.mem_memberPairs, Index.mem_memberPairs]
      exact hsame unit name

/-- A pair that comes again is told from those before, and leaves nothing behind. -/
theorem insertAll_represents_twice :
    ∃ m values, empty.insertAll [("A", "C"), ("A", "B"), ("A", "C")] = ([true, true, false], m)
      ∧ (empty.insertAll [("A", "B"), ("A", "C")]).2 = m
      ∧ m.get? "A" = some values ∧ ∀ v, v ∈ values.toList ↔ v = "B" ∨ v = "C" := by
  obtain ⟨answers, m, hrun, hm, _, _, hsame, _⟩ :=
    insertAll_represents [("A", "C"), ("A", "B"), ("A", "C")]
  have hanswers : (empty.insertAll [("A", "C"), ("A", "B"), ("A", "C")]).1
      = [true, true, false] := by decide +kernel
  rw [hrun] at hanswers
  have hagain : ∀ p : String × String, p ∈ [("A", "B"), ("A", "C")]
      ↔ p ∈ [("A", "C"), ("A", "B"), ("A", "C")] := by
    intro p
    simp only [List.mem_cons, List.not_mem_nil, or_false]
    tauto
  cases hvalues : m.get? "A" with
  | none => exact absurd List.mem_cons_self ((hm.get?_eq_none "A").1 hvalues "C")
  | some values =>
    refine ⟨m, values, ?_, hsame _ hagain, hvalues, fun v => ?_⟩
    · rw [hrun, ← hanswers]
    · rw [(hm.toList_get? "A" values hvalues).1]
      simp only [List.mem_cons, Prod.mk.injEq, true_and, List.not_mem_nil, or_false]
      tauto

end NameMultimap

end LinkSet
