import SchemaTypings.Proofs.FieldMerges
import SchemaTypings.Proofs.RepeatedDocuments

namespace SchemaTypings

/-- What is left of the type `c` when a field `k` of `d` has another type than that of its name: the
head of `d` and the fields before `k` have been merged in, `k` and those behind it have not. -/
inductive TypeDef.Conflict (c d : TypeDef) : MergeError → TypeDef → Prop
  | field {category : Category} {is js : List String} {current incoming merged : Table Field}
    {pre post : List Field} {f k : Field} (body : c.body = .fields category is current)
    (incomingBody : d.body = .fields category js incoming)
    (split : incoming.toList = pre ++ k :: post) (fits : ∀ p ∈ pre, current.Takes p)
    (found : current.get? k.name = some f) (differs : f.type ≠ k.type)
    (joined : merged.toList = joinFields current.toList pre)
    (untouched : ∀ p ∈ k :: post, merged.get? p.name = current.get? p.name) :
    Conflict c d (.conflictingField c.name k.name f.type k.type)
      { c with
        description := mergeDescription c.description d.description
        origin := c.origin.or d.origin
        body := .fields category (addNew is js) merged }

/-- How a definition fails to fit into a schema, and the schema that is left. -/
inductive Schema.Stops (s : Schema) (d : Definition) : MergeError → Schema → Prop
  | kind {c : TypeDef} (found : s.getType? d.type.name = some c) (differs : c.kind ≠ d.type.kind) :
    Stops s d (.duplicateDefinition c.name c.kind d.type.kind) s
  | field {c t : TypeDef} {e : MergeError} (found : s.getType? d.type.name = some c)
    (conflict : c.Conflict d.incoming e t) : Stops s d e (s.addType t)

namespace TypeDef

variable {c d t : TypeDef} {e : MergeError}

theorem Conflict.merge_eq (h : c.Conflict d e t) : c.merge d = (t, some e) := by
  cases h with
  | @field category is js current incoming merged pre post f k body incomingBody split fits found
      differs joined _ =>
    have hnodup := incoming.nodup
    have hdistinct : (pre.map SchemaTypings.name).Nodup := by
      rw [split, List.map_append] at hnodup
      exact (List.nodup_append.1 hnodup).1
    have hpre : mergeFields c.name current pre = (merged, none) :=
      (mergeFields_eq_ok_iff hdistinct).2 ⟨fits, joined⟩
    have herror := (mergeFields_eq_error_iff hnodup).2
      ⟨pre, k, post, f, split, hpre, found, differs, rfl⟩
    simp only [merge, body, incomingBody, mergeBody, ↓reduceIte, herror]

theorem conflict_of_mergeFields {category : Category} {is js : List String}
    {current incoming merged : Table Field} (hc : c.body = .fields category is current)
    (hd : d.body = .fields category js incoming)
    (h : mergeFields c.name current incoming.toList = (merged, some e)) :
    c.Conflict d e
      { c with
        description := mergeDescription c.description d.description
        origin := c.origin.or d.origin
        body := .fields category (addNew is js) merged } := by
  obtain ⟨pre, k, post, f, hsplit, hpre, hf, ht, rfl⟩ :=
    (mergeFields_eq_error_iff incoming.nodup).1 h
  have hnodup := incoming.nodup
  rw [hsplit, List.map_append, List.nodup_append] at hnodup
  obtain ⟨hdistinct, -, hapart⟩ := hnodup
  obtain ⟨hfits, hjoined⟩ := (mergeFields_eq_ok_iff hdistinct).1 hpre
  refine .field hc hd hsplit hfits hf ht hjoined fun p hp => ?_
  have hnot : p.name ∉ pre.map SchemaTypings.name := fun hm =>
    hapart _ hm _ (List.mem_map_of_mem hp) rfl
  have hget := get?_mergeFields c.name current hnot
  rwa [hpre] at hget

theorem merge_eq_error_iff : c.merge d = (t, some e) ↔
    (c.kind ≠ d.kind ∧ e = .duplicateDefinition c.name c.kind d.kind ∧ t = c) ∨
      c.Conflict d e t := by
  constructor
  · intro h
    cases hb : mergeBody c.name c.body d.body with
    | none =>
      simp only [merge, hb, Prod.mk.injEq, Option.some.injEq] at h
      obtain ⟨rfl, rfl⟩ := h
      exact .inl ⟨mergeBody_eq_none_iff.1 hb, rfl, rfl⟩
    | some m =>
      simp only [merge, hb, Prod.mk.injEq] at h
      obtain ⟨rfl, he⟩ := h
      obtain ⟨b, hc⟩ : ∃ b, c.body = b := ⟨_, rfl⟩
      obtain ⟨b', hd⟩ : ∃ b', d.body = b' := ⟨_, rfl⟩
      rw [hc, hd] at hb
      cases BodyMerge.of_mergeBody hb with
      | enum vs ws | union ms ns | scalar => cases he
      | fields category is js fs gs =>
        exact .inr (conflict_of_mergeFields hc hd (Prod.ext rfl he))
  · rintro (⟨hk, rfl, rfl⟩ | h)
    · simp only [merge, mergeBody_eq_none_iff.2 hk]
    · exact h.merge_eq

end TypeDef

namespace Schema

variable {s u : Schema} {d : Definition} {ds : List Definition} {e : MergeError}

theorem mergeDefinition_eq_error_iff : s.mergeDefinition d = (u, some e) ↔ s.Stops d e u := by
  constructor
  · intro h
    rw [mergeDefinition_eq] at h
    obtain ⟨rfl, he⟩ := Prod.mk.inj h
    cases hg : s.getType? (name d) with
    | none =>
      rw [merged_of_new hg] at he
      cases he
    | some c =>
      rw [merged_of_found hg] at he ⊢
      have hmerge : c.merge d.incoming = ((c.merge d.incoming).1, some e) := Prod.ext rfl he
      obtain ⟨hk, rfl, ht⟩ | hconflict := TypeDef.merge_eq_error_iff.1 hmerge
      · rw [ht, addType_getType? hg, d.incoming_kind]
        exact .kind hg (d.incoming_kind ▸ hk)
      · exact .field hg hconflict
  · rintro (⟨found, differs⟩ | ⟨found, conflict⟩)
    · have hmerge := TypeDef.merge_eq_error_iff.2 (.inl ⟨d.incoming_kind ▸ differs, rfl, rfl⟩)
      rw [mergeDefinition_eq, merged_of_found found, hmerge, addType_getType? found, d.incoming_kind]
    · rw [mergeDefinition_eq, merged_of_found found, conflict.merge_eq]

theorem mergeDefinitions_eq_error_iff : s.mergeDefinitions ds = (u, some e) ↔
    ∃ before d after m, ds = before ++ d :: after ∧ s.mergeDefinitions before = (m, none) ∧
      m.Stops d e u := by
  constructor
  · intro h
    obtain ⟨before, d, after, m, hsplit, hbefore, hd⟩ := exists_of_mergeDefinitions_error h
    exact ⟨before, d, after, m, hsplit, hbefore, mergeDefinition_eq_error_iff.1 hd⟩
  · rintro ⟨before, d, after, m, rfl, hbefore, hd⟩
    rw [mergeDefinitions_append hbefore,
      mergeDefinitions_cons_of_error (mergeDefinition_eq_error_iff.2 hd)]

theorem addDocument_eq_error_iff {doc : Document} : s.addDocument doc = (u, some e) ↔
    ∃ before d after m, doc.definitions = before ++ d :: after ∧
      (s.withRoots (s.roots.override doc.roots)).mergeDefinitions before = (m, none) ∧
      m.Stops d e u :=
  mergeDefinitions_eq_error_iff (s := s.withRoots (s.roots.override doc.roots))

theorem addText_of_malformed {d : SourceText} {f : Sdl.Fault} (h : Sdl.parse d.1 d.2 = .error f) :
    s.addText d.1 d.2 = (s, some (.malformed (d.2.getD unnamedDocument) f)) := by
  unfold addText parseDocument
  rw [h]

theorem addText_of_document {d : SourceText} {doc : Document} (h : Sdl.parse d.1 d.2 = .ok doc) :
    s.addText d.1 d.2 = ((s.addDocument doc).1, (s.addDocument doc).2.map .merge) := by
  unfold addText parseDocument
  rw [h]

/-- A text that cannot be added leaves the schema as it is if it is malformed. Otherwise its root
types are set, the definitions in front of the one that stops it are merged, and those behind it are
not. Further texts are added to what is left. -/
theorem addText_eq_error_iff (s u : Schema) (d : SourceText) (e : DocumentError) :
    (s.addText d.1 d.2 = (u, some e) ↔
      (∃ f, Sdl.parse d.1 d.2 = .error f ∧ e = .malformed (d.2.getD unnamedDocument) f ∧ u = s) ∨
      ∃ doc before x after m c, Sdl.parse d.1 d.2 = .ok doc ∧
        doc.definitions = before ++ x :: after ∧
        (s.withRoots (s.roots.override doc.roots)).mergeDefinitions before = (m, none) ∧
        m.Stops x c u ∧ e = .merge c) ∧
    ∀ later, s.addText d.1 d.2 = (u, some e) → s.addTexts (d :: later) = u.addTexts later := by
  refine ⟨⟨fun h => ?_, ?_⟩, fun later h => ?_⟩
  · cases hp : Sdl.parse d.1 d.2 with
    | error f =>
      obtain ⟨hs, he⟩ := Prod.mk.inj ((addText_of_malformed hp).symm.trans h)
      exact .inl ⟨f, rfl, (Option.some.inj he).symm, hs.symm⟩
    | ok doc =>
      obtain ⟨hu, he⟩ := Prod.mk.inj ((addText_of_document hp).symm.trans h)
      obtain ⟨c, hc, rfl⟩ := Option.map_eq_some_iff.1 he
      obtain ⟨before, x, after, m, hsplit, hbefore, hx⟩ :=
        addDocument_eq_error_iff.1 (Prod.ext hu hc)
      exact .inr ⟨doc, before, x, after, m, c, rfl, hsplit, hbefore, hx, rfl⟩
  · rintro (⟨f, hp, rfl, rfl⟩ | ⟨doc, before, x, after, m, c, hp, hsplit, hbefore, hx, rfl⟩)
    · exact addText_of_malformed hp
    · have hdoc := addDocument_eq_error_iff.2 ⟨before, x, after, m, hsplit, hbefore, hx⟩
      rw [addText_of_document hp, hdoc]
      rfl
  · rw [addTexts, List.foldl_cons, h]
    rfl

def fittingText : SourceText :=
  ("interface I { i: Int } type A implements I { x: Int z: Int k: ID }", none)

def stoppedText : SourceText :=
  ("schema { query: B } type B { b: A } \"An A\" type A implements J " ++
    "\x7b y: Int \"an x\" x: Int k: Int \"a z\" z: ID \x7d type C { c: B }", some "second")

theorem addText_stoppedText :
    ∃ (u m : Schema) (doc : Document) (before after : List Definition) (x : Definition),
      (empty.addTexts [fittingText]).addText stoppedText.1 stoppedText.2 =
        (u, some (.merge (.conflictingField "A" "k" (.named "ID") (.named "Int")))) ∧
      doc.definitions = before ++ x :: after ∧
      m.Stops x (.conflictingField "A" "k" (.named "ID") (.named "Int")) u ∧
      u.roots.query = some "B" ∧ u.types.names = ["I", "A", "B"] ∧
      (u.getType? "A").map (fun t => (t.description, t.implements)) =
        some (some "An A", ["I", "J"]) ∧
      (u.getType? "A").map (fun t => t.fields.map fun f => (f.name, f.description)) =
        some [("x", some "an x"), ("z", none), ("k", none), ("y", none)] := by
  have hdecided :
      ((empty.addTexts [fittingText]).addText stoppedText.1 stoppedText.2).2 =
        some (.merge (.conflictingField "A" "k" (.named "ID") (.named "Int"))) ∧
      ∃ u ∈ [((empty.addTexts [fittingText]).addText stoppedText.1 stoppedText.2).1],
        u.roots.query = some "B" ∧ u.types.names = ["I", "A", "B"] ∧
        (u.getType? "A").map (fun t => (t.description, t.implements)) =
          some (some "An A", ["I", "J"]) ∧
        (u.getType? "A").map (fun t => t.fields.map fun f => (f.name, f.description)) =
          some [("x", some "an x"), ("z", none), ("k", none), ("y", none)] := by
    decide +kernel
  obtain ⟨herror, u, hu, hleft⟩ := hdecided
  have hadd : (empty.addTexts [fittingText]).addText stoppedText.1 stoppedText.2 = (u, _) :=
    Prod.ext (List.mem_singleton.1 hu).symm herror
  obtain ⟨hiff, -⟩ := addText_eq_error_iff (empty.addTexts [fittingText]) u stoppedText _
  obtain ⟨f, -, he, -⟩ | ⟨doc, before, x, after, m, c, -, hsplit, -, hx, he⟩ := hiff.1 hadd
  · cases he
  · obtain rfl := DocumentError.merge.inj he
    exact ⟨u, m, doc, before, after, x, hadd, hsplit, hx, hleft⟩

end Schema

end SchemaTypings
