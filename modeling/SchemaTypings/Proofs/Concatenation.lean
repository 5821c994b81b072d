import SchemaTypings.Proofs.DocumentHistory

namespace SchemaTypings

theorem exists_of_flatMap_eq_append {α β : Type} {f : α → List β} {l : List α} {x : β}
    {before after : List β} (h : l.flatMap f = before ++ x :: after) :
    ∃ earlier a later pre post, l = earlier ++ a :: later ∧ f a = pre ++ x :: post ∧
      before = earlier.flatMap f ++ pre := by
  induction l generalizing before with
  | nil => simp at h
  | cons a r ih =>
    rw [List.flatMap_cons, List.append_eq_append_iff] at h
    have hnext : ∀ rest, r.flatMap f = rest ++ x :: after → before = f a ++ rest →
        ∃ earlier b later pre post, a :: r = earlier ++ b :: later ∧ f b = pre ++ x :: post ∧
          before = earlier.flatMap f ++ pre := by
      intro rest hr hb
      obtain ⟨earlier, b, later, pre, post, rfl, hf, rfl⟩ := ih hr
      exact ⟨a :: earlier, b, later, pre, post, rfl, hf, by simp [hb]⟩
    obtain ⟨rest, hb, hr⟩ | ⟨rest, ha, hx⟩ := h
    · exact hnext rest hr hb
    · cases rest with
      | nil => exact hnext [] hx.symm (by simpa using ha.symm)
      | cons y post =>
        obtain ⟨rfl, -⟩ := List.cons.inj hx
        exact ⟨[], a, r, before, post, rfl, ha, rfl⟩

def SourceText.roots (d : SourceText) : RootTypes :=
  match parseDocument d.1 d.2 with
  | .ok doc => doc.roots
  | .error _ => .undeclared

def SourceText.IsDocument (d : SourceText) : Prop :=
  ∃ doc, parseDocument d.1 d.2 = .ok doc

instance (d : SourceText) : Decidable d.IsDocument :=
  match h : parseDocument d.1 d.2 with
  | .ok doc => isTrue ⟨doc, h⟩
  | .error e => isFalse fun ⟨doc, hd⟩ => by
    rw [h] at hd
    cases hd

theorem SourceText.parse_eq {d : SourceText} (h : d.IsDocument) :
    parseDocument d.1 d.2 = .ok ⟨d.roots, d.definitions⟩ := by
  obtain ⟨doc, h⟩ := h
  have hr : d.roots = doc.roots := by
    unfold roots
    rw [h]
  rw [h, hr, definitions_eq h]

namespace Schema

def withRoots (s : Schema) (r : RootTypes) : Schema :=
  { s with roots := r }

theorem mergeDefinition_withRoots (s : Schema) (r : RootTypes) (d : Definition) :
    (s.withRoots r).mergeDefinition d =
      ((s.mergeDefinition d).1.withRoots r, (s.mergeDefinition d).2) := by
  have hg : (s.withRoots r).getType? d.type.name = s.getType? d.type.name := rfl
  cases h : s.getType? d.type.name <;> simp only [mergeDefinition, hg, h] <;> rfl

theorem mergeDefinitions_withRoots (s : Schema) (r : RootTypes) (ds : List Definition) :
    (s.withRoots r).mergeDefinitions ds =
      ((s.mergeDefinitions ds).1.withRoots r, (s.mergeDefinitions ds).2) := by
  have hmap := mergeDefinitions_map (g := id) (fun t d => t.mergeDefinition_withRoots r d) s ds
  rwa [List.map_id] at hmap

theorem mergeDefinitions_append {s t : Schema} {ds : List Definition}
    (h : s.mergeDefinitions ds = (t, none)) (es : List Definition) :
    s.mergeDefinitions (ds ++ es) = t.mergeDefinitions es := by
  induction ds generalizing s with
  | nil =>
    obtain ⟨rfl, -⟩ := Prod.mk.inj h
    rfl
  | cons d ds ih =>
    obtain ⟨u, hd, hds⟩ := mergeDefinitions_cons_eq_ok_iff.1 h
    rw [List.cons_append, mergeDefinitions_cons hd, ih hds]

/-- What comes behind a definition that does not fit is not merged. -/
theorem mergeDefinitions_stops {s t : Schema} {ds : List Definition} {e : MergeError}
    (h : s.mergeDefinitions ds = (t, some e)) (es : List Definition) :
    s.mergeDefinitions (ds ++ es) = (t, some e) := by
  induction ds generalizing s with
  | nil => cases h
  | cons d ds ih =>
    match hd : s.mergeDefinition d with
    | (u, none) =>
      rw [mergeDefinitions_cons hd] at h
      rw [List.cons_append, mergeDefinitions_cons hd, ih h]
    | (u, some e') =>
      rw [mergeDefinitions_cons_of_error hd] at h
      rw [List.cons_append, mergeDefinitions_cons_of_error hd, h]

/-- The first definition that does not fit, and what has been merged before it. -/
theorem exists_of_mergeDefinitions_error {s t : Schema} {ds : List Definition} {e : MergeError}
    (h : s.mergeDefinitions ds = (t, some e)) :
    ∃ before d after m, ds = before ++ d :: after ∧ s.mergeDefinitions before = (m, none) ∧
      m.mergeDefinition d = (t, some e) := by
  induction ds generalizing s with
  | nil => cases h
  | cons d ds ih =>
    match hd : s.mergeDefinition d with
    | (u, none) =>
      rw [mergeDefinitions_cons hd] at h
      obtain ⟨before, f, after, m, rfl, hb, hf⟩ := ih h
      exact ⟨d :: before, f, after, m, rfl, (mergeDefinitions_cons hd before).trans hb, hf⟩
    | (u, some e') =>
      rw [mergeDefinitions_cons_of_error hd] at h
      exact ⟨[], d, ds, s, rfl, rfl, hd.trans h⟩

theorem addDocument_eq (s : Schema) (doc : Document) :
    s.addDocument doc =
      ((s.mergeDefinitions doc.definitions).1.withRoots (s.roots.override doc.roots),
        (s.mergeDefinitions doc.definitions).2) :=
  s.mergeDefinitions_withRoots (s.roots.override doc.roots) doc.definitions

theorem isDocument_of_addText {s : Schema} {d : SourceText}
    (h : (s.addText d.1 d.2).2 = none) : d.IsDocument := by
  unfold addText at h
  cases hp : parseDocument d.1 d.2 with
  | error e => simp [hp] at h
  | ok doc => exact ⟨doc, hp⟩

theorem isDocument_of_foldlM {docs : List SourceText} {s s' : Schema}
    (h : docs.foldlM (fun s d => s.addText? d.1 d.2) s = .ok s') : ∀ d ∈ docs, d.IsDocument := by
  induction docs generalizing s with
  | nil => exact List.forall_mem_nil _
  | cons d docs ih =>
    cases hd : s.addText? d.1 d.2 with
    | error e => simp [List.foldlM_cons, hd, bind, Except.bind] at h
    | ok t =>
      rw [List.foldlM_cons, hd] at h
      obtain ⟨doc, hp, -⟩ := addText?_ok hd
      exact List.forall_mem_cons.2 ⟨⟨doc, hp⟩, ih h⟩

theorem addText_eq {d : SourceText} (hd : d.IsDocument) (s : Schema) :
    s.addText d.1 d.2 =
      ((s.mergeDefinitions d.definitions).1.withRoots (s.roots.override d.roots),
        (s.mergeDefinitions d.definitions).2.map .merge) := by
  unfold addText
  rw [SourceText.parse_eq hd]
  simp only [addDocument_eq]

theorem addText?_eq {d : SourceText} (hd : d.IsDocument) (s : Schema) :
    s.addText? d.1 d.2 =
      match s.mergeDefinitions d.definitions with
      | (t, none) => .ok (t.withRoots (s.roots.override d.roots))
      | (_, some e) => .error (.merge e) := by
  unfold addText?
  rw [addText_eq hd]
  cases s.mergeDefinitions d.definitions with
  | mk t error => cases error <;> rfl

theorem foldlM_addText?_eq {docs : List SourceText} (hd : ∀ d ∈ docs, d.IsDocument) (s : Schema) :
    docs.foldlM (fun s d => s.addText? d.1 d.2) s =
      match s.mergeDefinitions (docs.flatMap SourceText.definitions) with
      | (t, none) => .ok (t.withRoots (docs.foldl (fun r d => r.override d.roots) s.roots))
      | (_, some e) => .error (.merge e) := by
  induction docs generalizing s with
  | nil => rfl
  | cons d docs ih =>
    obtain ⟨hd, hds⟩ := List.forall_mem_cons.1 hd
    rw [List.foldlM_cons, addText?_eq hd, List.flatMap_cons, List.foldl_cons]
    cases hm : s.mergeDefinitions d.definitions with
    | mk t error =>
      cases error with
      | none =>
        rw [mergeDefinitions_append hm]
        change docs.foldlM _ (t.withRoots (s.roots.override d.roots)) = _
        rw [ih hds, mergeDefinitions_withRoots]
        cases t.mergeDefinitions (docs.flatMap SourceText.definitions) with
        | mk u error => cases error <;> rfl
      | some e =>
        rw [mergeDefinitions_stops hm]
        rfl

theorem ofTexts_eq {docs : List SourceText} (hd : ∀ d ∈ docs, d.IsDocument) :
    ofTexts docs =
      match empty.mergeDefinitions (docs.flatMap SourceText.definitions) with
      | (t, none) => .ok (t.withRoots (docs.foldl (fun r d => r.override d.roots) .undeclared))
      | (_, some e) => .error (.merge e) :=
  foldlM_addText?_eq hd empty

/-- In a schema of documents that fit, all their definitions have been merged. -/
theorem exists_of_ofTexts {docs : List SourceText} {s : Schema} (h : ofTexts docs = .ok s) :
    ∃ t, empty.mergeDefinitions (docs.flatMap SourceText.definitions) = (t, none) ∧
      s = t.withRoots (docs.foldl (fun r d => r.override d.roots) .undeclared) := by
  rw [ofTexts_eq (isDocument_of_foldlM h)] at h
  match hm : empty.mergeDefinitions (docs.flatMap SourceText.definitions) with
  | (t, none) =>
    rw [hm] at h
    exact ⟨t, rfl, (Except.ok.inj h).symm⟩
  | (t, some e) =>
    rw [hm] at h
    cases h

end Schema

end SchemaTypings
