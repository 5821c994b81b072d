import Mathlib.Data.List.Basic
import SchemaTypings.Assembly
import SchemaTypings.Proofs.MergeHistory
import SchemaTypings.Proofs.Outcomes

namespace SchemaTypings

open Sdl (Operation Statement)

namespace RootTypes

def get (r : RootTypes) : Operation → Option String
  | .query => r.query
  | .mutation => r.mutation
  | .subscription => r.subscription

theorem get_override (r later : RootTypes) (o : Operation) :
    (r.override later).get o = (later.get o).or (r.get o) := by
  cases o <;> rfl

theorem get_undeclared (o : Operation) : undeclared.get o = none := by
  cases o <;> rfl

end RootTypes

def Sdl.Statement.namedRoots : Statement → List (Operation × String)
  | .schema _ _ rs => rs
  | _ => []

/-- The last root type that is named for an operation. -/
def lastRoot (o : Operation) (rs : List (Operation × String)) : Option String :=
  ((rs.filter fun r => r.1 == o).getLast?).map (·.2)

theorem lastRoot_append (o : Operation) (rs later : List (Operation × String)) :
    lastRoot o (rs ++ later) = (lastRoot o later).or (lastRoot o rs) := by
  rw [lastRoot, List.filter_append, List.getLast?_append]
  cases h : (later.filter fun r => r.1 == o).getLast? <;> simp [lastRoot, h]

theorem repeatedRoot?_cons {seen : List Operation} {r : Operation × String}
    {rs : List (Operation × String)} (h : Sdl.repeatedRoot? seen (r :: rs) = none) :
    r.1 ∉ seen ∧ Sdl.repeatedRoot? (r.1 :: seen) rs = none := by
  by_cases hc : r.1 ∈ seen
  · simp [Sdl.repeatedRoot?, hc] at h
  · exact ⟨hc, by simpa [Sdl.repeatedRoot?, hc] using h⟩

theorem not_mem_of_repeatedRoot? {seen : List Operation} {rs : List (Operation × String)}
    (h : Sdl.repeatedRoot? seen rs = none) {o : Operation} (ho : o ∈ seen) :
    ∀ r ∈ rs, r.1 ≠ o := by
  induction rs generalizing seen with
  | nil => simp
  | cons r rs ih =>
    obtain ⟨hc, hr⟩ := repeatedRoot?_cons h
    refine List.forall_mem_cons.2 ⟨fun he => hc (he ▸ ho), ?_⟩
    exact ih hr (List.mem_cons_of_mem _ ho)

/-- Where no operation is named twice, the first root type is the last one. -/
theorem rootNamed_eq_lastRoot {seen : List Operation} {rs : List (Operation × String)}
    (h : Sdl.repeatedRoot? seen rs = none) (o : Operation) :
    Sdl.rootNamed o rs = lastRoot o rs := by
  induction rs generalizing seen with
  | nil => rfl
  | cons r rs ih =>
    obtain ⟨-, hr⟩ := repeatedRoot?_cons h
    by_cases he : r.1 = o
    · have hn : rs.filter (fun r => r.1 == o) = [] := by
        refine List.filter_eq_nil_iff.2 fun q hq => ?_
        simpa using not_mem_of_repeatedRoot? hr (he ▸ List.mem_cons_self ..) q hq
      simp [Sdl.rootNamed, lastRoot, he, hn]
    · simpa [Sdl.rootNamed, lastRoot, he] using ih hr

theorem rootTypes_of_no_fault {x : Statement} (h : x.fault? = none) (o : Operation) :
    x.rootTypes.get o = lastRoot o x.namedRoots := by
  cases x with
  | type _ | directive _ => cases o <;> rfl
  | schema extend ns rs =>
    have hr : Sdl.repeatedRoot? [] rs = none := by
      simp only [Statement.fault?, Option.or_eq_none_iff, Option.map_eq_none_iff] at h
      exact h.2.1
    have hl : lastRoot o (Statement.schema extend ns rs).namedRoots = Sdl.rootNamed o rs :=
      (rootNamed_eq_lastRoot hr o).symm
    rw [hl]
    cases o <;> rfl

theorem roots_of_statements {ss : List Statement} (h : ∀ x ∈ ss, x.fault? = none) (r : RootTypes)
    (o : Operation) :
    (ss.foldl (fun r x => r.override x.rootTypes) r).get o =
      (lastRoot o (ss.flatMap Statement.namedRoots)).or (r.get o) := by
  induction ss generalizing r with
  | nil => rfl
  | cons x ss ih =>
    obtain ⟨hx, hs⟩ := List.forall_mem_cons.1 h
    rw [List.foldl_cons, ih hs, RootTypes.get_override, rootTypes_of_no_fault hx,
      List.flatMap_cons, lastRoot_append, Option.or_assoc]

abbrev SourceText := String × Option String

namespace SourceText

def statements (d : SourceText) : List Statement :=
  match Sdl.statements d.1.toList with
  | some (ss, _) => ss
  | none => []

def definitions (d : SourceText) : List Definition :=
  match parseDocument d.1 d.2 with
  | .ok doc => doc.definitions
  | .error _ => []

def namedRoots (d : SourceText) : List (Operation × String) :=
  d.statements.flatMap Statement.namedRoots

end SourceText

theorem Sdl.parse_ok {text : String} {source : Option String} {doc : Document}
    (h : Sdl.parse text source = .ok doc) :
    ∃ ss r, Sdl.statements text.toList = some (ss, r) ∧ (∀ x ∈ ss, x.fault? = none) ∧
      doc = documentOf (originAt (positions text.toList) source) ss := by
  unfold Sdl.parse at h
  cases hs : Sdl.statements text.toList with
  | none =>
    rw [hs] at h
    cases h
  | some p =>
    obtain ⟨ss, r⟩ := p
    rw [hs] at h
    cases hf : ss.findSome? Statement.fault? with
    | some f =>
      simp only [hf] at h
      cases h
    | none =>
      simp only [hf] at h
      exact ⟨ss, r, rfl, List.findSome?_eq_none_iff.1 hf, (Except.ok.inj h).symm⟩

theorem parseDocument_ok {text : String} {source : Option String} {doc : Document}
    (h : parseDocument text source = .ok doc) : Sdl.parse text source = .ok doc := by
  unfold parseDocument at h
  cases hp : Sdl.parse text source with
  | ok d =>
    rw [hp] at h
    exact congrArg Except.ok (Except.ok.inj h)
  | error f =>
    rw [hp] at h
    cases h

theorem SourceText.definitions_eq {d : SourceText} {doc : Document}
    (h : parseDocument d.1 d.2 = .ok doc) : d.definitions = doc.definitions := by
  unfold SourceText.definitions
  rw [h]

theorem SourceText.statements_eq {d : SourceText} {ss : List Statement} {r : List Char}
    (h : Sdl.statements d.1.toList = some (ss, r)) : d.statements = ss := by
  unfold SourceText.statements
  rw [h]

theorem roots_of_document {d : SourceText} {doc : Document} (h : parseDocument d.1 d.2 = .ok doc)
    (o : Operation) : doc.roots.get o = lastRoot o d.namedRoots := by
  obtain ⟨ss, r, hs, hf, rfl⟩ := Sdl.parse_ok (parseDocument_ok h)
  have hd : d.statements = ss := SourceText.statements_eq hs
  simp only [Sdl.documentOf, roots_of_statements hf, RootTypes.get_undeclared, Option.or_none,
    SourceText.namedRoots, hd]

theorem origin_of_document {d : SourceText} {doc : Document} (h : parseDocument d.1 d.2 = .ok doc)
    {e : Definition} (he : e ∈ doc.definitions) : e.type.origin.isSome := by
  obtain ⟨ss, r, -, -, rfl⟩ := Sdl.parse_ok (parseDocument_ok h)
  obtain ⟨x, -, hx⟩ := List.mem_filterMap.1 he
  cases x with
  | type t =>
    obtain rfl := Option.some.inj hx
    rfl
  | schema _ _ _ | directive _ => cases hx

namespace Schema

/-- The schema of texts that are added one after another and all have to fit. -/
def ofTexts (docs : List SourceText) : Except DocumentError Schema :=
  docs.foldlM (fun s d => s.addText? d.1 d.2) .empty

theorem addText?_ok {s s' : Schema} {d : SourceText} (h : s.addText? d.1 d.2 = .ok s') :
    ∃ doc, parseDocument d.1 d.2 = .ok doc ∧ s.addDocument doc = (s', none) := by
  unfold addText? addText at h
  cases hp : parseDocument d.1 d.2 with
  | error e =>
    rw [hp] at h
    cases h
  | ok doc =>
    rw [hp] at h
    refine ⟨doc, rfl, ?_⟩
    cases ha : s.addDocument doc with
    | mk t error =>
      simp only [ha] at h
      cases error with
      | none => exact Prod.ext (Except.ok.inj h) rfl
      | some e => cases h

theorem roots_mergeDefinitions (s : Schema) (ds : List Definition) :
    (s.mergeDefinitions ds).1.roots = s.roots :=
  s.mergeDefinitions_preserves (P := fun t => t.roots = s.roots)
    (fun t d _ ht => (t.roots_mergeDefinition d).trans ht) rfl

theorem addText?_tracks {s s' : Schema} {d : SourceText} {ds : List Definition}
    (ht : Tracks ds s.types) (ho : ∀ e ∈ ds, e.type.origin.isSome)
    (h : s.addText? d.1 d.2 = .ok s') :
    Tracks (ds ++ d.definitions) s'.types ∧
      (∀ e ∈ ds ++ d.definitions, e.type.origin.isSome) ∧
      ∀ o, s'.roots.get o = (lastRoot o d.namedRoots).or (s.roots.get o) := by
  obtain ⟨doc, hp, ha⟩ := addText?_ok h
  have hd : d.definitions = doc.definitions := SourceText.definitions_eq hp
  have hall : ∀ e ∈ ds ++ doc.definitions, e.type.origin.isSome := fun e he =>
    (List.mem_append.1 he).elim (ho e) (origin_of_document hp)
  have hr : s'.roots = s.roots.override doc.roots := by
    have hm := roots_mergeDefinitions { s with roots := s.roots.override doc.roots } doc.definitions
    rwa [show mergeDefinitions _ doc.definitions = _ from ha] at hm
  rw [hd]
  refine ⟨Tracks.mergeDefinitions (s := { s with roots := s.roots.override doc.roots })
    ht hall ha, hall, fun o => ?_⟩
  rw [hr, RootTypes.get_override, roots_of_document hp]

theorem foldlM_addText?_tracks {docs : List SourceText} {s s' : Schema} {ds : List Definition}
    (ht : Tracks ds s.types) (ho : ∀ e ∈ ds, e.type.origin.isSome)
    (h : docs.foldlM (fun s d => s.addText? d.1 d.2) s = .ok s') :
    Tracks (ds ++ docs.flatMap SourceText.definitions) s'.types ∧
      ∀ o, s'.roots.get o =
        (lastRoot o (docs.flatMap SourceText.namedRoots)).or (s.roots.get o) := by
  induction docs generalizing s ds with
  | nil =>
    obtain rfl := Except.ok.inj h
    exact ⟨by simpa using ht, fun o => rfl⟩
  | cons d docs ih =>
    cases hd : s.addText? d.1 d.2 with
    | error e => simp [List.foldlM_cons, hd, bind, Except.bind] at h
    | ok t =>
      rw [List.foldlM_cons, hd] at h
      obtain ⟨ht', ho', hr'⟩ := addText?_tracks ht ho hd
      obtain ⟨hs, hr⟩ := ih ht' ho' h
      refine ⟨by simpa using hs, fun o => ?_⟩
      rw [hr, hr', List.flatMap_cons, lastRoot_append, Option.or_assoc]

theorem ofTexts_tracks {docs : List SourceText} {s : Schema} (h : ofTexts docs = .ok s) :
    Tracks (docs.flatMap SourceText.definitions) s.types ∧
      ∀ o, s.roots.get o = lastRoot o (docs.flatMap SourceText.namedRoots) := by
  obtain ⟨ht, hr⟩ := foldlM_addText?_tracks Tracks.empty (by simp) h
  refine ⟨by simpa using ht, fun o => ?_⟩
  rw [hr o, show empty.roots.get o = none from RootTypes.get_undeclared o, Option.or_none]

/-- Documents that fit make a schema of which every type is made of all its definitions, in the
order of the first ones, and in which the last root type named for an operation counts. -/
theorem ofTexts_made_of_definitions {docs : List SourceText} {s : Schema}
    (h : ofTexts docs = .ok s) :
    (∀ n first rest, definitionsOf n (docs.flatMap SourceText.definitions) = first :: rest →
      ∃ t, s.getType? n = some t ∧ t.name = n ∧ MergedFrom first rest t) ∧
    s.types.names = (firstSeen (docs.flatMap SourceText.definitions)).map name ∧
    ∀ o, s.roots.get o = lastRoot o (docs.flatMap SourceText.namedRoots) := by
  obtain ⟨ht, hr⟩ := ofTexts_tracks h
  refine ⟨fun n first rest hd => ?_, ht.names, hr⟩
  have hf : first ∈ definitionsOf n (docs.flatMap SourceText.definitions) :=
    hd ▸ List.mem_cons_self ..
  obtain ⟨hf, hn⟩ := List.mem_filter.1 hf
  have hn : name first = n := by simpa using hn
  have hm : n ∈ s.types.names := ht.mem_names.2 (List.mem_map.2 ⟨first, hf, hn⟩)
  obtain ⟨t, hmem, rfl⟩ := List.mem_map.1 hm
  obtain ⟨first', rest', hd', hfrom⟩ := ht.entry t hmem
  obtain ⟨rfl, rfl⟩ := List.cons.inj (hd.symm.trans hd')
  exact ⟨t, Table.get?_of_mem hmem, rfl, hfrom⟩

/-- An extension that comes before its base, and root types that are named twice. -/
def extensionFirst : List SourceText := [
  ("extend type T { a: Int } schema { query: E }", none),
  ("\"A type\" type T { a: Int b(c: Int): T } schema { query: T }", some "base")]

theorem ofTexts_extensionFirst :
    ∃ s first second t, ofTexts extensionFirst = .ok s ∧
      definitionsOf "T" (extensionFirst.flatMap SourceText.definitions) = [first, second] ∧
      s.getType? "T" = some t ∧ MergedFrom first [second] t ∧ s.types.names = ["T"] ∧
      s.roots.get .query = some "T" := by
  have hc : (ofTexts extensionFirst).isOk = true ∧
      (definitionsOf "T" (extensionFirst.flatMap SourceText.definitions)).length = 2 ∧
      (firstSeen (extensionFirst.flatMap SourceText.definitions)).map name = ["T"] ∧
      lastRoot .query (extensionFirst.flatMap SourceText.namedRoots) = some "T" := by
    decide +kernel
  obtain ⟨hok, hlen, hnames, hroot⟩ := hc
  obtain ⟨s, hs⟩ := exists_of_isOk hok
  obtain ⟨first, second, hd⟩ := List.length_eq_two.1 hlen
  obtain ⟨ht, hn, hr⟩ := ofTexts_made_of_definitions hs
  obtain ⟨t, hg, -, hm⟩ := ht "T" first [second] hd
  exact ⟨s, first, second, t, hs, hd, hg, hm, hn.trans hnames, (hr .query).trans hroot⟩

end Schema

end SchemaTypings
