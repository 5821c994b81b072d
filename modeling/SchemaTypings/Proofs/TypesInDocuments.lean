import SchemaTypings.Proofs.AcceptedText
import SchemaTypings.Proofs.StoppedMerges
import SchemaTypings.Proofs.WrittenDocuments

namespace SchemaTypings

def Field.typeRefs (f : Field) : List TypeRef :=
  f.type :: f.arguments.map Argument.type

def TypeDef.typeRefs (d : TypeDef) : List TypeRef :=
  d.fields.flatMap Field.typeRefs

def Document.typeRefs (doc : Document) : List TypeRef :=
  doc.definitions.flatMap fun d => d.type.typeRefs

def Schema.typeRefs (s : Schema) : List TypeRef :=
  s.types.toList.flatMap TypeDef.typeRefs

theorem Field.IsWritable.typeRefs {f : Field} (h : f.IsWritable) :
    ∀ t ∈ f.typeRefs, t.IsWritable :=
  List.forall_mem_cons.2 ⟨h.type, List.forall_mem_map.2 fun a ha => (h.arguments a ha).type⟩

theorem TypeDef.isWritable_of_written {d : TypeDef} {s r : List Char} (h : d.body.written s r) :
    ∀ t ∈ d.typeRefs, t.IsWritable := by
  obtain ⟨n, description, origin, body⟩ := d
  intro t ht
  obtain ⟨f, hf, htype⟩ := List.mem_flatMap.1 ht
  cases body with
  | fields c is fs => exact (Body.isWritable_of_written h f hf).typeRefs t htype
  | enum vs | scalar | union ms => exact absurd hf List.not_mem_nil

theorem Document.IsWritten.isWritable {doc : Document} {text : String} {source : Option String}
    (h : doc.IsWritten text source) : ∀ t ∈ doc.typeRefs, t.IsWritable := by
  intro t ht
  obtain ⟨d, hd, ht⟩ := List.mem_flatMap.1 ht
  obtain ⟨s, r, -, hbody⟩ := h.exists_of_mem d hd
  exact TypeDef.isWritable_of_written hbody t ht

section Merged

variable {P : TypeRef → Prop}

theorem Table.forall_typeRefs_joined {t : Table Field} {k : Field}
    (ht : ∀ g ∈ t.toList, ∀ x ∈ g.typeRefs, P x) (hk : ∀ x ∈ k.typeRefs, P x) :
    ∀ x ∈ (t.joined k).typeRefs, P x := by
  unfold joined
  cases hg : t.get? k.name with
  | none => exact hk
  | some g =>
    have hsame : (g.merge k).typeRefs = g.typeRefs := rfl
    exact hsame ▸ ht g (mem_of_get? hg).1

/-- Whether fields fit or not, merging them in brings no other types. -/
theorem forall_typeRefs_mergeFields {type : String} {t : Table Field} {fs : List Field}
    (ht : ∀ g ∈ t.toList, ∀ x ∈ g.typeRefs, P x) (hfs : ∀ f ∈ fs, ∀ x ∈ f.typeRefs, P x) :
    ∀ g ∈ (mergeFields type t fs).1.toList, ∀ x ∈ g.typeRefs, P x := by
  induction fs generalizing t with
  | nil => exact ht
  | cons k fs ih =>
    obtain ⟨hk, hfs⟩ := List.forall_mem_cons.1 hfs
    by_cases h : t.Takes k
    · rw [mergeFields_cons h]
      refine ih (fun g hg => ?_) hfs
      obtain rfl | hg := mem_put hg
      · exact Table.forall_typeRefs_joined ht hk
      · exact ht g hg
    · obtain ⟨g, hg, hne⟩ := Table.exists_of_not_takes h
      rw [mergeFields_conflict hg hne]
      exact ht

theorem TypeDef.forall_typeRefs_merge {c d : TypeDef} (hc : ∀ x ∈ c.typeRefs, P x)
    (hd : ∀ x ∈ d.typeRefs, P x) : ∀ x ∈ (c.merge d).1.typeRefs, P x := by
  obtain ⟨n, description, origin, body⟩ := c
  obtain ⟨n', description', origin', body'⟩ := d
  cases hb : mergeBody n body body' with
  | none => simpa only [merge, hb] using hc
  | some merged =>
    simp only [merge, hb]
    cases BodyMerge.of_mergeBody hb with
    | enum vs ws | scalar | union ms ns => exact hc
    | fields c is js fs gs =>
      rw [typeRefs, List.forall_mem_flatMap] at hc hd ⊢
      exact forall_typeRefs_mergeFields hc hd

namespace Schema

variable {s : Schema}

theorem forall_typeRefs_iff :
    (∀ x ∈ s.typeRefs, P x) ↔ ∀ t ∈ s.types.toList, ∀ x ∈ t.typeRefs, P x :=
  List.forall_mem_flatMap

theorem forall_typeRefs_merged {d : Definition} (hs : ∀ x ∈ s.typeRefs, P x)
    (hd : ∀ x ∈ d.type.typeRefs, P x) : ∀ x ∈ (s.merged d).1.typeRefs, P x := by
  have hincoming : ∀ x ∈ d.incoming.typeRefs, P x := by
    rwa [TypeDef.typeRefs, d.incoming_fields]
  cases hg : s.getType? (name d) with
  | none => rwa [merged_of_new hg]
  | some c =>
    have hc := forall_typeRefs_iff.1 hs c (Table.mem_of_get? hg).1
    rw [merged_of_found hg]
    exact TypeDef.forall_typeRefs_merge hc hincoming

theorem forall_typeRefs_mergeDefinition {d : Definition} (hs : ∀ x ∈ s.typeRefs, P x)
    (hd : ∀ x ∈ d.type.typeRefs, P x) : ∀ x ∈ (s.mergeDefinition d).1.typeRefs, P x := by
  rw [mergeDefinition_eq, forall_typeRefs_iff]
  intro t ht
  obtain rfl | ht := mem_put ht
  · exact forall_typeRefs_merged hs hd
  · exact forall_typeRefs_iff.1 hs t ht

theorem forall_typeRefs_mergeDefinitions {ds : List Definition} (hs : ∀ x ∈ s.typeRefs, P x)
    (hds : ∀ d ∈ ds, ∀ x ∈ d.type.typeRefs, P x) :
    ∀ x ∈ (s.mergeDefinitions ds).1.typeRefs, P x :=
  mergeDefinitions_preserves (P := fun t => ∀ x ∈ t.typeRefs, P x)
    (fun _ d hd ht => forall_typeRefs_mergeDefinition ht (hds d hd)) hs

theorem isWritable_addText (hs : ∀ x ∈ s.typeRefs, x.IsWritable) (d : SourceText) :
    ∀ x ∈ (s.addText d.1 d.2).1.typeRefs, x.IsWritable := by
  unfold addText
  cases hp : parseDocument d.1 d.2 with
  | error e => exact hs
  | ok doc =>
    have hdoc := (Sdl.isWritten_of_parse (parseDocument_ok hp)).isWritable
    simp only [addDocument_eq]
    exact forall_typeRefs_mergeDefinitions hs (List.forall_mem_flatMap.1 hdoc)

/-- Whichever texts fit, all types in their schema can be written. -/
theorem isWritable_addTexts (hs : ∀ x ∈ s.typeRefs, x.IsWritable) (docs : List SourceText) :
    ∀ x ∈ (s.addTexts docs).typeRefs, x.IsWritable := by
  induction docs generalizing s with
  | nil => exact hs
  | cons d docs ih => exact ih (isWritable_addText hs d)

theorem typeRefs_withBuiltins (s : Schema) : s.withBuiltins.typeRefs = s.typeRefs := by
  have hl : s.withBuiltins.types.toList = _ := toList_foldl_addBuiltin s builtinScalars
  have hnone : ∀ ns : List String, (ns.map builtin).flatMap TypeDef.typeRefs = [] := fun ns => by
    induction ns with
    | nil => rfl
    | cons n ns ih => exact ih
  rw [typeRefs, hl, List.flatMap_append, hnone, List.append_nil, typeRefs]

/-- A field does not fit because of another type than that of the field of its name. -/
theorem types_of_stops {m u : Schema} {d : Definition} {type field : String} {t t' : TypeRef}
    (h : m.Stops d (.conflictingField type field t t') u) :
    t ∈ m.typeRefs ∧ t' ∈ d.type.typeRefs ∧ t ≠ t' := by
  cases h with
  | @field c _ _ found conflict =>
    cases conflict with
    | @field _ _ _ current incoming _ pre post f k body incomingBody split _ hold differs =>
      have hf : f ∈ c.fields := by
        rw [TypeDef.fields, body]
        exact (Table.mem_of_get? hold).1
      have hk : k ∈ d.type.fields := by
        have hmem : k ∈ incoming.toList := split ▸ List.mem_append_right pre (List.mem_cons_self ..)
        rw [← d.incoming_fields, TypeDef.fields, incomingBody]
        exact hmem
      have hc : c ∈ m.types.toList := (Table.mem_of_get? found).1
      refine ⟨?_, ?_, differs⟩
      · exact List.mem_flatMap.2 ⟨c, hc, List.mem_flatMap.2 ⟨f, hf, List.mem_cons_self ..⟩⟩
      · exact List.mem_flatMap.2 ⟨k, hk, List.mem_cons_self ..⟩

end Schema

end Merged

end SchemaTypings
