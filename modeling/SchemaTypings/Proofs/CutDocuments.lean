import SchemaTypings.Proofs.Concatenation
import SchemaTypings.Proofs.Places

namespace SchemaTypings

open Sdl (Operation Statement)

def Sdl.Statement.unplaced : Statement → Statement
  | .type t => .type { t with left := 0 }
  | x => x

theorem Sdl.Statement.namedRoots_unplaced (x : Statement) : x.unplaced.namedRoots = x.namedRoots := by
  cases x <;> rfl

theorem Sdl.Statement.definition?_unplaced (origin : Nat → Origin) (x : Statement) :
    (x.definition? origin).map Definition.unplaced = x.unplaced.definition? fun _ => .somewhere := by
  cases x <;> rfl

/-- The statements of a whole text, cut into documents. Only the places of statements differ. -/
structure IsCutOf (docs : List SourceText) (whole : SourceText) : Prop where
  documents : ∀ d ∈ docs, d.IsDocument
  isDocument : whole.IsDocument
  statements : docs.flatMap (fun d => d.statements.map Statement.unplaced) =
    whole.statements.map Statement.unplaced

theorem SourceText.definitions_unplaced {d : SourceText} (h : d.IsDocument) :
    d.definitions.map Definition.unplaced =
      (d.statements.map Statement.unplaced).filterMap
        (Statement.definition? fun _ => .somewhere) := by
  obtain ⟨doc, hp⟩ := h
  obtain ⟨ss, r, hs, -, rfl⟩ := Sdl.parse_ok (parseDocument_ok hp)
  have hd := congrArg (List.map Definition.unplaced) (SourceText.definitions_eq hp)
  have hdefs := funext (Statement.definition?_unplaced (Sdl.originAt (Sdl.positions d.1.toList) d.2))
  rw [hd, SourceText.statements_eq hs, List.filterMap_map]
  change (ss.filterMap _).map Definition.unplaced = _
  rw [List.map_filterMap, hdefs]
  rfl

theorem SourceText.namedRoots_unplaced (d : SourceText) :
    d.namedRoots = (d.statements.map Statement.unplaced).flatMap Statement.namedRoots := by
  rw [List.flatMap_map, namedRoots]
  exact congrArg (d.statements.flatMap ·) (funext fun x => x.namedRoots_unplaced.symm)

theorem RootTypes.ext_get {r r' : RootTypes} (h : ∀ o, r.get o = r'.get o) : r = r' := by
  obtain ⟨q, m, s⟩ := r
  obtain ⟨q', m', s'⟩ := r'
  have hq : q = q' := h .query
  have hm : m = m' := h .mutation
  have hs : s = s' := h .subscription
  rw [hq, hm, hs]

namespace IsCutOf

variable {docs : List SourceText} {whole : SourceText}

theorem definitions (h : IsCutOf docs whole) :
    (docs.flatMap SourceText.definitions).map Definition.unplaced =
      whole.definitions.map Definition.unplaced := by
  rw [SourceText.definitions_unplaced h.isDocument, ← h.statements, List.map_flatMap,
    List.filterMap_flatMap]
  exact List.flatMap_congr fun d hd => SourceText.definitions_unplaced (h.documents d hd)

theorem namedRoots (h : IsCutOf docs whole) :
    docs.flatMap SourceText.namedRoots = whole.namedRoots := by
  rw [whole.namedRoots_unplaced, ← h.statements, List.flatMap_assoc]
  exact List.flatMap_congr fun d _ => d.namedRoots_unplaced

theorem mergeDefinitions (h : IsCutOf docs whole) :
    (Schema.empty.mergeDefinitions (docs.flatMap SourceText.definitions)).1.unplaced =
        (Schema.empty.mergeDefinitions whole.definitions).1.unplaced ∧
      (Schema.empty.mergeDefinitions (docs.flatMap SourceText.definitions)).2 =
        (Schema.empty.mergeDefinitions whole.definitions).2 := by
  have hc := Schema.empty.mergeDefinitions_unplaced (docs.flatMap SourceText.definitions)
  rw [h.definitions, Schema.mergeDefinitions_unplaced] at hc
  exact (Prod.mk.inj hc.symm).imp id id

end IsCutOf

/-- Texts that are added one after another fit up to the definition `d`, which does not. `before` is
what stands in front of it, in its own document and in the earlier ones. -/
def StopsAt (docs : List SourceText) (before : List Definition) (d : Definition) (e : MergeError) :
    Prop :=
  ∃ earlier doc later pre post s m, docs = earlier ++ doc :: later ∧
    doc.definitions = pre ++ d :: post ∧ before = earlier.flatMap SourceText.definitions ++ pre ∧
    Schema.ofTexts earlier = .ok s ∧ s.addDocument ⟨doc.roots, pre⟩ = (m, none) ∧
    (m.mergeDefinition d).2 = some e

namespace Schema

theorem stopsAt_of_mergeDefinitions {docs : List SourceText} (hd : ∀ d ∈ docs, d.IsDocument)
    {before after : List Definition} {d : Definition} {m : Schema} {e : MergeError}
    (hs : docs.flatMap SourceText.definitions = before ++ d :: after)
    (hb : empty.mergeDefinitions before = (m, none)) (he : (m.mergeDefinition d).2 = some e) :
    StopsAt docs before d e := by
  obtain ⟨earlier, doc, later, pre, post, rfl, hdoc, rfl⟩ := exists_of_flatMap_eq_append hs
  have hdocs : ∀ d ∈ earlier, d.IsDocument := fun d hm => hd d (List.mem_append_left _ hm)
  cases hm : empty.mergeDefinitions (earlier.flatMap SourceText.definitions) with
  | mk t error =>
    cases error with
    | some e' => simp [mergeDefinitions_stops hm] at hb
    | none =>
      rw [mergeDefinitions_append hm] at hb
      have ho := ofTexts_eq hdocs
      rw [hm] at ho
      have hrun : ∀ r, (t.withRoots r).addDocument ⟨doc.roots, pre⟩ =
          (m.withRoots (r.override doc.roots), none) := fun r => by
        rw [addDocument_eq, mergeDefinitions_withRoots, hb]
        rfl
      refine ⟨earlier, doc, later, pre, post, _, _, rfl, hdoc, rfl, ho, hrun _, ?_⟩
      rw [mergeDefinition_withRoots]
      exact he

variable {docs : List SourceText} {whole : SourceText}

theorem roots_of_cut (h : IsCutOf docs whole) {s t : Schema} (hs : ofTexts docs = .ok s)
    (ht : ofTexts [whole] = .ok t) : s.roots = t.roots := by
  refine RootTypes.ext_get fun o => ?_
  rw [(ofTexts_tracks hs).2 o, (ofTexts_tracks ht).2 o, h.namedRoots, List.flatMap_singleton]

theorem isDocument_singleton (h : IsCutOf docs whole) : ∀ d ∈ [whole], d.IsDocument :=
  List.forall_mem_singleton.2 h.isDocument

/-- A definition that stops the whole text has a definition that stops the documents. -/
theorem stopsAt_of_cut (h : IsCutOf docs whole) {u : Schema} {c : MergeError}
    (hu : empty.mergeDefinitions whole.definitions = (u, some c)) :
    ∃ before d before' d', StopsAt docs before d c ∧ StopsAt [whole] before' d' c ∧
      before.map Definition.unplaced = before'.map Definition.unplaced ∧
      d.unplaced = d'.unplaced := by
  obtain ⟨before', d', after', m', hsplit', hb', he'⟩ := exists_of_mergeDefinitions_error hu
  have hdefs := h.definitions
  rw [hsplit', List.map_append, List.map_cons] at hdefs
  obtain ⟨before, rest, hsplit, hbefore, hrest⟩ := List.map_eq_append_iff.1 hdefs
  obtain ⟨d, after, rfl, hd, -⟩ := List.map_eq_cons_iff.1 hrest
  have hone : [whole].flatMap SourceText.definitions = before' ++ d' :: after' := by
    rw [List.flatMap_singleton, hsplit']
  have hrun := empty.mergeDefinitions_unplaced before
  rw [hbefore, mergeDefinitions_unplaced, hb'] at hrun
  obtain ⟨hm, herror⟩ := Prod.mk.inj hrun
  have hb : empty.mergeDefinitions before = ((empty.mergeDefinitions before).1, none) :=
    Prod.ext rfl herror.symm
  have he : ((empty.mergeDefinitions before).1.mergeDefinition d).2 = some c := by
    have hstep := mergeDefinition_unplaced (empty.mergeDefinitions before).1 d
    rw [hd, ← hm, mergeDefinition_unplaced, he'] at hstep
    exact (Prod.mk.inj hstep).2.symm
  exact ⟨before, d, before', d', stopsAt_of_mergeDefinitions h.documents hsplit hb he,
    stopsAt_of_mergeDefinitions (isDocument_singleton h) hone hb' (congrArg Prod.snd he'),
    hbefore, hd⟩

/-- However the statements of a schema are cut into documents, these make the same schema, apart
from the places of its definitions, or they stop with the same error at the same definition. -/
theorem ofTexts_of_cut (h : IsCutOf docs whole) :
    (∀ e, ofTexts docs = .error e ↔ ofTexts [whole] = .error e) ∧
    (∀ s, ofTexts docs = .ok s → ∃ t, ofTexts [whole] = .ok t ∧ s.unplaced = t.unplaced ∧
      s.build.map unplaced = t.build.map unplaced ∧
      (∀ o, s.build.map (generate · o) = t.build.map (generate · o)) ∧
      ∀ o, s.generate o = t.generate o) ∧
    ∀ e, ofTexts docs = .error e → ∃ c before d before' d', e = .merge c ∧
      StopsAt docs before d c ∧ StopsAt [whole] before' d' c ∧
      before.map Definition.unplaced = before'.map Definition.unplaced ∧
      d.unplaced = d'.unplaced := by
  have hcut := ofTexts_eq h.documents
  have huncut := ofTexts_eq (isDocument_singleton h)
  obtain ⟨hschema, herror⟩ := h.mergeDefinitions
  rw [List.flatMap_singleton] at huncut
  cases hm : empty.mergeDefinitions (docs.flatMap SourceText.definitions) with
  | mk u error =>
    cases hm' : empty.mergeDefinitions whole.definitions with
    | mk u' error' =>
      rw [hm] at hcut hschema herror
      rw [hm'] at huncut hschema herror
      obtain rfl : error = error' := herror
      cases error with
      | none =>
        refine ⟨fun e => by simp [hcut, huncut], fun s hs => ?_, fun e he => by simp [hcut] at he⟩
        have htypes := congrArg Schema.types hschema
        have hroots := roots_of_cut h hcut huncut
        obtain rfl := Except.ok.inj (hcut.symm.trans hs)
        have hu : (u.withRoots _).unplaced = (u'.withRoots _).unplaced :=
          (Schema.mk.injEq ..).mpr ⟨hroots, htypes⟩
        obtain ⟨hb, hg⟩ := build_of_unplaced_eq hu
        refine ⟨_, huncut, hu, hb, hg, fun o => ?_⟩
        rw [← generate_unplaced, hu, generate_unplaced]
      | some c =>
        refine ⟨fun e => by rw [hcut, huncut], fun s hs => by simp [hcut] at hs, fun e he => ?_⟩
        obtain ⟨before, d, before', d', hstops⟩ := stopsAt_of_cut h hm'
        exact ⟨c, before, d, before', d', (Except.error.inj (hcut.symm.trans he)).symm, hstops⟩

def uncut : SourceText :=
  ("extend type A { x: Int } type A { y: Int } schema { query: A } " ++
    "extend schema { query: Q } directive @d on FIELD type Q { a: A }", none)

def cutInThree : List SourceText := [
  ("extend type A { x: Int }", some "a"),
  ("type A { y: Int } schema { query: A } extend schema { query: Q }", some "b"),
  ("directive @d on FIELD type Q { a: A }", none)]

theorem ofTexts_cutInThree :
    IsCutOf cutInThree uncut ∧
      ∃ s t, ofTexts cutInThree = .ok s ∧ ofTexts [uncut] = .ok t ∧ s.unplaced = t.unplaced := by
  have hdecided : (∀ d ∈ cutInThree, d.IsDocument) ∧ uncut.IsDocument ∧
      cutInThree.flatMap (fun d => d.statements.map Statement.unplaced) =
        uncut.statements.map Statement.unplaced ∧ (ofTexts cutInThree).isOk = true := by
    decide +kernel
  obtain ⟨hdocs, hwhole, hstatements, hok⟩ := hdecided
  have hcut : IsCutOf cutInThree uncut := ⟨hdocs, hwhole, hstatements⟩
  obtain ⟨s, hs⟩ := exists_of_isOk hok
  obtain ⟨-, hsame, -⟩ := ofTexts_of_cut hcut
  obtain ⟨t, ht, hu, -⟩ := hsame s hs
  exact ⟨hcut, s, t, hs, ht, hu⟩

end Schema

end SchemaTypings
