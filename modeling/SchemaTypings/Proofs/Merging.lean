import SchemaTypings.Proofs.FieldMerges

namespace SchemaTypings

namespace TypeDef

def fields (d : TypeDef) : List Field :=
  match d.body with
  | .fields _ _ fs => fs.toList
  | _ => []

def implements (d : TypeDef) : List String :=
  match d.body with
  | .fields _ is _ => is
  | _ => []

def members (d : TypeDef) : List String :=
  match d.body with
  | .union ms => ms
  | _ => []

theorem nodup_fields (d : TypeDef) : (d.fields.map Field.name).Nodup := by
  obtain ⟨n, description, origin, body⟩ := d
  cases body with
  | fields c is fs => exact fs.nodup
  | enum vs | scalar | union ms => exact List.nodup_nil

end TypeDef

/-- What a field is apart from its description. -/
def Field.signature (f : Field) : String × TypeRef × List Argument :=
  (f.name, f.type, f.arguments)

theorem Field.signature_takeFrom (g : Field) (fs : List Field) :
    (g.takeFrom fs).signature = g.signature := by
  unfold takeFrom
  cases fs.find? fun f => f.name == g.name <;> rfl

/-- A definition declares its type, unless it extends it or the type is a built-in scalar. -/
def Definition.declares (d : Definition) : Bool :=
  !(d.extend || (d.type.isScalar && builtinScalars.contains d.type.name))

instance : Named Definition := ⟨fun d => d.type.name⟩

namespace Definition

variable (d : Definition)

theorem incoming_eq :
    d.incoming = { d.type with origin := if d.declares then d.type.origin else none } := by
  unfold incoming declares
  cases d.extend || (d.type.isScalar && builtinScalars.contains d.type.name) <;> rfl

theorem incoming_name : d.incoming.name = d.type.name := by rw [incoming_eq]

theorem incoming_description : d.incoming.description = d.type.description := by rw [incoming_eq]

theorem incoming_origin : d.incoming.origin = if d.declares then d.type.origin else none := by
  rw [incoming_eq]

theorem incoming_kind : d.incoming.kind = d.type.kind := by rw [incoming_eq]; rfl

theorem incoming_fields : d.incoming.fields = d.type.fields := by rw [incoming_eq]; rfl

theorem incoming_implements : d.incoming.implements = d.type.implements := by
  rw [incoming_eq]; rfl

theorem incoming_values : d.incoming.values = d.type.values := by rw [incoming_eq]; rfl

theorem incoming_members : d.incoming.members = d.type.members := by rw [incoming_eq]; rfl

end Definition

theorem signatures_joinFields (l fs : List Field) :
    (joinFields l fs).map Field.signature =
      (l ++ unseen (l.map name) fs).map Field.signature := by
  have hold : (l.map fun g => g.takeFrom fs).map Field.signature = l.map Field.signature := by
    rw [List.map_map]
    exact List.map_congr_left fun g _ => g.signature_takeFrom fs
  rw [joinFields, List.map_append, List.map_append, hold]

inductive BodyMerge (type : String) : Body → Body → Merged Body → Prop where
  | enum (vs ws : List EnumValue) : BodyMerge type (.enum vs) (.enum ws) (.enum (addNew vs ws), none)
  | union (ms ns : List String) :
    BodyMerge type (.union ms) (.union ns) (.union (addNew ms ns), none)
  | scalar : BodyMerge type .scalar .scalar (.scalar, none)
  | fields (c : Category) (is js : List String) (fs gs : Table Field) :
    BodyMerge type (.fields c is fs) (.fields c js gs)
      (.fields c (addNew is js) (mergeFields type fs gs.toList).1,
        (mergeFields type fs gs.toList).2)

theorem BodyMerge.of_mergeBody {type : String} {b e : Body} {m : Merged Body}
    (h : mergeBody type b e = some m) : BodyMerge type b e m := by
  cases b with
  | enum vs =>
    cases e with
    | enum ws =>
      obtain rfl := Option.some.inj h
      exact .enum vs ws
    | fields _ _ _ | scalar | union _ => cases h
  | union ms =>
    cases e with
    | union ns =>
      obtain rfl := Option.some.inj h
      exact .union ms ns
    | fields _ _ _ | scalar | enum _ => cases h
  | scalar =>
    cases e with
    | scalar =>
      obtain rfl := Option.some.inj h
      exact .scalar
    | fields _ _ _ | enum _ | union _ => cases h
  | fields c is fs =>
    cases e with
    | fields c' js gs =>
      by_cases hc : c = c'
      · subst hc
        obtain rfl : _ = m := by simpa [mergeBody] using h
        exact .fields c is js fs gs
      · simp [mergeBody, hc] at h
    | enum _ | scalar | union _ => cases h

theorem mergeBody_eq_none_iff {type : String} {b e : Body} :
    mergeBody type b e = none ↔ b.kind ≠ e.kind := by
  have hk : ∀ c : Category, c.kind ≠ .enum ∧ c.kind ≠ .scalar ∧ c.kind ≠ .union := by
    intro c
    cases c <;> decide
  have hi : ∀ c c' : Category, c.kind = c'.kind ↔ c = c' := by
    intro c c'
    cases c <;> cases c' <;> decide
  cases b with
  | enum vs => cases e <;> simp [mergeBody, Body.kind, (hk _).1.symm]
  | union ms => cases e <;> simp [mergeBody, Body.kind, (hk _).2.2.symm]
  | scalar => cases e <;> simp [mergeBody, Body.kind, (hk _).2.1.symm]
  | fields c is fs => cases e <;> simp [mergeBody, Body.kind, hk, hi]

/-- `t` is `current` with all that `incoming` adds to it. -/
structure Merges (current incoming t : TypeDef) : Prop where
  name : t.name = current.name
  kind : t.kind = current.kind
  incomingKind : incoming.kind = current.kind
  description : t.description = mergeDescription current.description incoming.description
  origin : t.origin = current.origin.or incoming.origin
  signatures : t.fields.map Field.signature =
    (current.fields ++ unseen (current.fields.map SchemaTypings.name) incoming.fields).map
      Field.signature
  implements : t.implements = addNew current.implements incoming.implements
  values : t.values = addNew current.values incoming.values
  members : t.members = addNew current.members incoming.members

theorem TypeDef.merge_ok {current incoming t : TypeDef}
    (h : current.merge incoming = (t, none)) : Merges current incoming t := by
  obtain ⟨n, description, origin, body⟩ := current
  obtain ⟨n', description', origin', body'⟩ := incoming
  cases hb : mergeBody n body body' with
  | none => simp [TypeDef.merge, hb] at h
  | some merged =>
    simp only [TypeDef.merge, hb, Prod.mk.injEq] at h
    obtain ⟨rfl, he⟩ := h
    cases BodyMerge.of_mergeBody hb with
    | enum vs ws | union ms ns | scalar => exact ⟨rfl, rfl, rfl, rfl, rfl, rfl, rfl, rfl, rfl⟩
    | fields c is js fs gs =>
      have hm : mergeFields n fs gs.toList = ((mergeFields n fs gs.toList).1, none) :=
        Prod.ext rfl he
      have hsignatures := signatures_joinFields fs.toList gs.toList
      rw [← toList_mergeFields gs.nodup hm] at hsignatures
      exact ⟨rfl, rfl, rfl, rfl, rfl, hsignatures, rfl, rfl, rfl⟩

namespace Schema

/-- A definition that fits is new, or is merged into the type of its name. -/
theorem mergeDefinition_ok {s s' : Schema} {d : Definition}
    (h : s.mergeDefinition d = (s', none)) :
    (s.getType? d.type.name = none ∧ s' = s.addType d.incoming) ∨
      ∃ c t, s.getType? d.type.name = some c ∧ Merges c d.incoming t ∧ s' = s.addType t := by
  cases hg : s.getType? d.type.name with
  | none =>
    simp only [mergeDefinition, hg, Prod.mk.injEq] at h
    exact .inl ⟨rfl, h.1.symm⟩
  | some c =>
    simp only [mergeDefinition, hg, Prod.mk.injEq] at h
    obtain ⟨rfl, he⟩ := h
    have hm : c.merge d.incoming = ((c.merge d.incoming).1, none) := Prod.ext rfl he
    exact .inr ⟨c, _, rfl, TypeDef.merge_ok hm, rfl⟩

end Schema

end SchemaTypings
