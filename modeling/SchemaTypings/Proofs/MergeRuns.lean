import SchemaTypings.Proofs.Merging

namespace SchemaTypings

theorem TypeDef.name_merge (c d : TypeDef) : (c.merge d).1.name = c.name := by
  cases hb : mergeBody c.name c.body d.body <;> simp [merge, hb]

namespace Schema

variable {s t u : Schema} {d : Definition} {c : TypeDef}

theorem getType?_addType (s : Schema) (c : TypeDef) (n : String) :
    (s.addType c).getType? n = if c.name = n then some c else s.getType? n :=
  s.types.get?_insert c n

theorem name_of_getType? {n : String} (h : s.getType? n = some c) : c.name = n :=
  (Table.mem_of_get? h).2

theorem addType_getType? {n : String} (h : s.getType? n = some c) : s.addType c = s := by
  have hself : s.types.get? (name c) = some c := Table.get?_of_mem (Table.mem_of_get? h).1
  rw [addType, Table.insert_eq_self hself]

/-- What becomes of the type of a definition's name, and the error if the definition does not fit. -/
def merged (s : Schema) (d : Definition) : Merged TypeDef :=
  (s.getType? (name d)).elim (d.incoming, none) fun c => c.merge d.incoming

theorem merged_of_new (h : s.getType? (name d) = none) : s.merged d = (d.incoming, none) := by
  rw [merged, h]
  rfl

theorem merged_of_found (h : s.getType? (name d) = some c) : s.merged d = c.merge d.incoming := by
  rw [merged, h]
  rfl

theorem name_merged (s : Schema) (d : Definition) : (s.merged d).1.name = name d := by
  cases hg : s.getType? (name d) with
  | none => rw [merged_of_new hg, d.incoming_name]; rfl
  | some c => rw [merged_of_found hg, TypeDef.name_merge, name_of_getType? hg]

theorem mergeDefinition_eq (s : Schema) (d : Definition) :
    s.mergeDefinition d = (s.addType (s.merged d).1, (s.merged d).2) := by
  cases hg : s.getType? (name d) with
  | none =>
    have hnone : s.getType? d.type.name = none := hg
    simp only [mergeDefinition, hnone, merged_of_new hg]
  | some c =>
    have hsome : s.getType? d.type.name = some c := hg
    simp only [mergeDefinition, hsome, merged_of_found hg]

theorem getType?_mergeDefinition (s : Schema) (d : Definition) (n : String) :
    (s.mergeDefinition d).1.getType? n =
      if name d = n then some (s.merged d).1 else s.getType? n := by
  rw [mergeDefinition_eq, getType?_addType, name_merged]

theorem roots_mergeDefinition (s : Schema) (d : Definition) :
    (s.mergeDefinition d).1.roots = s.roots := by
  rw [mergeDefinition_eq]
  rfl

theorem names_mergeDefinition (s : Schema) (d : Definition) :
    (s.mergeDefinition d).1.types.names =
      if name d ∈ s.types.names then s.types.names else s.types.names ++ [name d] := by
  rw [mergeDefinition_eq, ← s.name_merged d]
  exact s.types.names_insert (s.merged d).1

theorem mergeDefinitions_cons (h : s.mergeDefinition d = (t, none)) (ds : List Definition) :
    s.mergeDefinitions (d :: ds) = t.mergeDefinitions ds := by
  rw [mergeDefinitions, h]

theorem mergeDefinitions_cons_of_error {e : MergeError} (h : s.mergeDefinition d = (t, some e))
    (ds : List Definition) : s.mergeDefinitions (d :: ds) = (t, some e) := by
  rw [mergeDefinitions, h]

theorem mergeDefinitions_cons_eq_ok_iff {ds : List Definition} :
    s.mergeDefinitions (d :: ds) = (u, none) ↔
      ∃ t, s.mergeDefinition d = (t, none) ∧ t.mergeDefinitions ds = (u, none) := by
  constructor
  · intro h
    match hd : s.mergeDefinition d with
    | (t, none) => exact ⟨t, rfl, (mergeDefinitions_cons hd ds).symm.trans h⟩
    | (t, some e) =>
      rw [mergeDefinitions_cons_of_error hd] at h
      cases h
  · rintro ⟨t, hd, hds⟩
    rw [mergeDefinitions_cons hd, hds]

/-- What every definition leaves true stays true, wherever the merging stops. -/
theorem mergeDefinitions_preserves {P : Schema → Prop} {ds : List Definition}
    (hP : ∀ t, ∀ d ∈ ds, P t → P (t.mergeDefinition d).1) (hs : P s) :
    P (s.mergeDefinitions ds).1 := by
  induction ds generalizing s with
  | nil => exact hs
  | cons d ds ih =>
    obtain ⟨hd, hds⟩ := forall_and.1 fun t => List.forall_mem_cons.1 (hP t)
    have ht := hd s hs
    match hm : s.mergeDefinition d with
    | (t, none) =>
      rw [hm] at ht
      rw [mergeDefinitions_cons hm]
      exact ih hds ht
    | (t, some e) =>
      rw [hm] at ht
      rw [mergeDefinitions_cons_of_error hm]
      exact ht

/-- A map of schemas and definitions that commutes with one merge commutes with all of them. -/
theorem mergeDefinitions_map {f : Schema → Schema} {g : Definition → Definition}
    (h : ∀ s d, (f s).mergeDefinition (g d) = (f (s.mergeDefinition d).1, (s.mergeDefinition d).2))
    (s : Schema) (ds : List Definition) :
    (f s).mergeDefinitions (ds.map g) =
      (f (s.mergeDefinitions ds).1, (s.mergeDefinitions ds).2) := by
  induction ds generalizing s with
  | nil => rfl
  | cons d ds ih =>
    have hfd := h s d
    match hd : s.mergeDefinition d with
    | (t, none) =>
      rw [hd] at hfd
      rw [List.map_cons, mergeDefinitions_cons hfd, mergeDefinitions_cons hd, ih t]
    | (t, some e) =>
      rw [hd] at hfd
      rw [List.map_cons, mergeDefinitions_cons_of_error hfd, mergeDefinitions_cons_of_error hd]

end Schema

end SchemaTypings
