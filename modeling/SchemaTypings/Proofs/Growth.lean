import SchemaTypings.Proofs.FieldMerges
import SchemaTypings.Proofs.RepeatedDocuments

namespace SchemaTypings

/-- New names stand behind the earlier ones, and every entry is still there, as one that it may have
become. -/
structure Table.Grows {α : Type} [Named α] (Becomes : α → α → Prop) (t u : Table α) : Prop where
  names : t.names <+: u.names
  entries : ∀ n a, t.get? n = some a → ∃ b, u.get? n = some b ∧ Becomes a b

namespace Table.Grows

variable {α : Type} [Named α] {Becomes : α → α → Prop} {t u v : Table α}

theorem refl (h : ∀ a, Becomes a a) (t : Table α) : t.Grows Becomes t where
  names := List.prefix_rfl
  entries _ a ha := ⟨a, ha, h a⟩

theorem trans (h : ∀ {a b c}, Becomes a b → Becomes b c → Becomes a c) (htu : t.Grows Becomes u)
    (huv : u.Grows Becomes v) : t.Grows Becomes v where
  names := htu.names.trans huv.names
  entries n a ha := by
    obtain ⟨b, hb, hab⟩ := htu.entries n a ha
    obtain ⟨c, hc, hbc⟩ := huv.entries n b hb
    exact ⟨c, hc, h hab hbc⟩

theorem insert (h : ∀ a, Becomes a a) {a : α} (ha : ∀ b, t.get? (name a) = some b → Becomes b a) :
    t.Grows Becomes (t.insert a) where
  names := by
    rw [names_insert]
    split
    · exact List.prefix_rfl
    · exact List.prefix_append _ _
  entries n b hb := by
    by_cases hn : name a = n
    · exact ⟨a, (t.get?_insert a n).trans (if_pos hn), ha b (hn ▸ hb)⟩
    · exact ⟨b, (t.get?_insert a n).trans ((if_neg hn).trans hb), h b⟩

end Table.Grows

structure Field.Becomes (f g : Field) : Prop where
  type : g.type = f.type
  arguments : g.arguments = f.arguments
  description : f.description.isSome → g.description = f.description

theorem Field.Becomes.refl (f : Field) : f.Becomes f :=
  ⟨rfl, rfl, fun _ => rfl⟩

theorem Field.Becomes.trans {f g k : Field} (h : f.Becomes g) (h' : g.Becomes k) :
    f.Becomes k where
  type := h'.type.trans h.type
  arguments := h'.arguments.trans h.arguments
  description hf := by
    have hg := h.description hf
    exact (h'.description (hg ▸ hf)).trans hg

theorem Field.becomes_merge (g f : Field) : g.Becomes (g.merge f) where
  type := rfl
  arguments := rfl
  description hg := by
    obtain ⟨d, hd⟩ := Option.isSome_iff_exists.1 hg
    simp [merge, hd]

inductive Body.Becomes : Body → Body → Prop
  | enum {vs ws : List EnumValue} (values : vs <+: ws) : Becomes (.enum vs) (.enum ws)
  | fields {c : Category} {is js : List String} {fs gs : Table Field} (implements : is <+: js)
    (fields : fs.Grows Field.Becomes gs) : Becomes (.fields c is fs) (.fields c js gs)
  | scalar : Becomes .scalar .scalar
  | union {ms ns : List String} (members : ms <+: ns) : Becomes (.union ms) (.union ns)

/-- A type keeps its name and its kind, and the place and the description that it has, unless the
description is empty. -/
structure TypeDef.Becomes (t u : TypeDef) : Prop where
  name : u.name = t.name
  kind : u.kind = t.kind
  description : told t.description = true → u.description = t.description
  origin : t.origin.isSome → u.origin = t.origin
  body : t.body.Becomes u.body

theorem Body.Becomes.refl (b : Body) : b.Becomes b := by
  cases b with
  | enum vs => exact .enum List.prefix_rfl
  | fields c is fs => exact .fields List.prefix_rfl (.refl Field.Becomes.refl fs)
  | scalar => exact .scalar
  | union ms => exact .union List.prefix_rfl

theorem Body.Becomes.trans {b d e : Body} (h : b.Becomes d) (h' : d.Becomes e) : b.Becomes e := by
  cases h with
  | enum hv =>
    cases h' with
    | enum hw => exact .enum (hv.trans hw)
  | fields hi hf =>
    cases h' with
    | fields hj hg => exact .fields (hi.trans hj) (hf.trans Field.Becomes.trans hg)
  | scalar => exact h'
  | union hm =>
    cases h' with
    | union hn => exact .union (hm.trans hn)

theorem Body.Becomes.kind {b d : Body} (h : b.Becomes d) : d.kind = b.kind := by
  cases h <;> rfl

theorem Table.grows_join (t : Table Field) (k : Field) : t.Grows Field.Becomes (t.join k) := by
  refine .insert Field.Becomes.refl fun g hg => ?_
  have hk : t.get? k.name = some g := t.name_joined k ▸ hg
  rw [joined, hk]
  exact g.becomes_merge k

theorem grows_mergeFields (type : String) (t : Table Field) (fs : List Field) :
    t.Grows Field.Becomes (mergeFields type t fs).1 := by
  induction fs generalizing t with
  | nil => exact .refl Field.Becomes.refl t
  | cons k fs ih =>
    by_cases h : t.Takes k
    · rw [mergeFields_cons h]
      exact (t.grows_join k).trans Field.Becomes.trans (ih (t.join k))
    · obtain ⟨g, hg, ht⟩ := Table.exists_of_not_takes h
      rw [mergeFields_conflict hg ht]
      exact .refl Field.Becomes.refl t

theorem prefix_addNew {α : Type} [Named α] (l r : List α) : l <+: addNew l r := by
  rw [addNew_eq]
  exact List.prefix_append _ _

theorem Body.becomes_of_mergeBody {type : String} {b d : Body} {m : Merged Body}
    (h : mergeBody type b d = some m) : b.Becomes m.1 := by
  cases BodyMerge.of_mergeBody h with
  | enum vs ws => exact .enum (prefix_addNew vs ws)
  | union ms ns => exact .union (prefix_addNew ms ns)
  | scalar => exact .scalar
  | fields c is js fs gs => exact .fields (prefix_addNew is js) (grows_mergeFields type fs gs.toList)

namespace TypeDef

theorem Becomes.refl (t : TypeDef) : t.Becomes t :=
  ⟨rfl, rfl, fun _ => rfl, fun _ => rfl, .refl t.body⟩

theorem Becomes.trans {t u v : TypeDef} (h : t.Becomes u) (h' : u.Becomes v) : t.Becomes v where
  name := h'.name.trans h.name
  kind := h'.kind.trans h.kind
  description ht := by
    have hu := h.description ht
    exact (h'.description (hu ▸ ht)).trans hu
  origin ht := by
    have hu := h.origin ht
    exact (h'.origin (hu ▸ ht)).trans hu
  body := h.body.trans h'.body

theorem becomes_merge (t d : TypeDef) : t.Becomes (t.merge d).1 := by
  cases hb : mergeBody t.name t.body d.body with
  | none => simpa only [merge, hb] using Becomes.refl t
  | some m =>
    have hbody := Body.becomes_of_mergeBody hb
    simp only [merge, hb]
    refine ⟨rfl, hbody.kind, fun ht => ?_, fun ht => ?_, hbody⟩
    · simp [mergeDescription_eq, ht]
    · obtain ⟨o, ho⟩ := Option.isSome_iff_exists.1 ht
      simp [ho]

end TypeDef

namespace Schema

/-- The types of a schema grow; its root types may be replaced. -/
def GrowsTo (s u : Schema) : Prop :=
  s.types.Grows TypeDef.Becomes u.types

variable {s u v : Schema}

theorem GrowsTo.refl (s : Schema) : s.GrowsTo s :=
  Table.Grows.refl TypeDef.Becomes.refl s.types

theorem GrowsTo.trans (h : s.GrowsTo u) (h' : u.GrowsTo v) : s.GrowsTo v :=
  Table.Grows.trans TypeDef.Becomes.trans h h'

theorem growsTo_mergeDefinition (s : Schema) (d : Definition) :
    s.GrowsTo (s.mergeDefinition d).1 := by
  rw [mergeDefinition_eq]
  refine Table.Grows.insert TypeDef.Becomes.refl fun c hc => ?_
  have hfound : s.getType? (name d) = some c := s.name_merged d ▸ hc
  rw [merged_of_found hfound]
  exact c.becomes_merge d.incoming

theorem growsTo_mergeDefinitions (s : Schema) (ds : List Definition) :
    s.GrowsTo (s.mergeDefinitions ds).1 :=
  s.mergeDefinitions_preserves (P := s.GrowsTo)
    (fun t d _ h => h.trans (t.growsTo_mergeDefinition d)) (.refl s)

theorem growsTo_addText (s : Schema) (d : SourceText) : s.GrowsTo (s.addText d.1 d.2).1 := by
  unfold addText
  cases parseDocument d.1 d.2 with
  | error e => exact .refl s
  | ok doc =>
    simp only [addDocument_eq]
    exact s.growsTo_mergeDefinitions doc.definitions

/-- Whatever texts are added to a schema, and whichever of them fail, all that the schema had before
is still there, unchanged and in the same order. -/
theorem growsTo_addTexts (s : Schema) (later : List SourceText) :
    s.GrowsTo (s.addTexts later) := by
  induction later generalizing s with
  | nil => exact .refl s
  | cons d later ih => exact (s.growsTo_addText d).trans (ih (s.addText d.1 d.2).1)

end Schema

end SchemaTypings
