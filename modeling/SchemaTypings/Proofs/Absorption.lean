import SchemaTypings.Proofs.MergeHistory
import SchemaTypings.Proofs.Places

namespace SchemaTypings

theorem mergeDescription_eq (t d : Option String) :
    mergeDescription t d = if told t then t else d.or t := by
  cases t with
  | none => simp [mergeDescription, told]
  | some s => cases h : s.isEmpty <;> simp [mergeDescription, told, h]

theorem eq_empty_of_not_told {s : String} (h : ¬told (some s) = true) : s = "" := by
  simpa [told] using h

theorem mergeDescription_again (t d : Option String) :
    mergeDescription (mergeDescription t d) d = mergeDescription t d := by
  by_cases h : told t = true
  · simp [mergeDescription_eq, h]
  · cases d <;> simp [mergeDescription_eq, h]

theorem mergeDescription_keeps {t d : Option String} (h : mergeDescription t d = t)
    (e : Option String) : mergeDescription (mergeDescription t e) d = mergeDescription t e := by
  rw [mergeDescription_eq] at h
  by_cases ht : told t = true
  · simp [mergeDescription_eq, ht]
  · rw [if_neg ht] at h
    rw [mergeDescription_eq t e, if_neg ht, mergeDescription_eq]
    split
    · rfl
    · next he =>
      cases e with
      | none => exact h
      | some w =>
        cases d with
        | none => rfl
        | some v =>
          obtain rfl : some v = t := h
          rw [Option.some_or] at he
          rw [eq_empty_of_not_told ht, eq_empty_of_not_told he]
          rfl

namespace Field

theorem merge_self (f : Field) : f.merge f = f := by
  rw [merge, Option.or_self]

theorem merge_again (g f : Field) : (g.merge f).merge f = g.merge f := by
  simp only [merge, Option.or_assoc, Option.or_self]

theorem merge_keeps {g f : Field} (h : g.merge f = g) (k : Field) :
    (g.merge k).merge f = g.merge k := by
  have hd : g.description.or f.description = g.description := congrArg Field.description h
  have hk : (g.description.or k.description).or f.description = g.description.or k.description := by
    cases hg : g.description with
    | some t => rfl
    | none =>
      rw [hg] at hd
      rw [show f.description = none from hd, Option.or_none]
  simp only [merge, hk]

end Field

namespace Table

variable {t : Table Field} {f : Field}

/-- The table has a field of this name and type, and a description of it if `f` has one. -/
def Absorbs (t : Table Field) (f : Field) : Prop :=
  ∃ g, t.get? f.name = some g ∧ g.type = f.type ∧ g.merge f = g

theorem absorbs_of_mem (h : f ∈ t.toList) : t.Absorbs f :=
  ⟨f, get?_of_mem h, rfl, f.merge_self⟩

theorem Absorbs.takes (h : t.Absorbs f) : t.Takes f := by
  obtain ⟨g, hg, ht, -⟩ := h
  intro g' hg'
  obtain rfl := Option.some.inj (hg.symm.trans hg')
  exact ht

theorem Absorbs.join_eq (h : t.Absorbs f) : t.join f = t := by
  obtain ⟨g, hg, -, hm⟩ := h
  have hself : t.get? (name g) = some g := get?_of_mem (mem_of_get? hg).1
  rw [join, joined, hg, Option.elim_some, hm, insert_eq_self hself]

theorem absorbs_join (h : t.Takes f) : (t.join f).Absorbs f := by
  refine ⟨t.joined f, (t.get?_join f f.name).trans (if_pos rfl), ?_⟩
  unfold joined
  cases hg : t.get? f.name with
  | none => exact ⟨rfl, f.merge_self⟩
  | some g => exact ⟨h g hg, g.merge_again f⟩

theorem Absorbs.join (h : t.Absorbs f) (k : Field) : (t.join k).Absorbs f := by
  obtain ⟨g, hg, ht, hm⟩ := h
  by_cases hk : k.name = f.name
  · have hjoined : t.joined k = g.merge k := by
      rw [joined, hk, hg]
      rfl
    refine ⟨g.merge k, ?_, ht, Field.merge_keeps hm k⟩
    rw [get?_join, if_pos hk, hjoined]
  · exact ⟨g, (get?_join_of_ne hk).trans hg, ht, hm⟩

end Table

section Fields

variable (type : String) {t u : Table Field} {f : Field} {fs : List Field}

theorem absorbs_mergeFields (h : t.Absorbs f) (fs : List Field) :
    (mergeFields type t fs).1.Absorbs f := by
  induction fs generalizing t with
  | nil => exact h
  | cons k fs ih =>
    by_cases hk : t.Takes k
    · rw [mergeFields_cons hk]
      exact ih (h.join k)
    · obtain ⟨g, hg, ht⟩ := Table.exists_of_not_takes hk
      rw [mergeFields_conflict hg ht]
      exact h

theorem mergeFields_absorbs (h : mergeFields type t fs = (u, none)) : ∀ f ∈ fs, u.Absorbs f := by
  induction fs generalizing t with
  | nil => exact List.forall_mem_nil _
  | cons k fs ih =>
    obtain ⟨hk, hfs⟩ := mergeFields_cons_eq_ok_iff.1 h
    have hu := absorbs_mergeFields type (Table.absorbs_join hk) fs
    rw [hfs] at hu
    exact List.forall_mem_cons.2 ⟨hu, ih hfs⟩

theorem mergeFields_absorbed (h : ∀ f ∈ fs, t.Absorbs f) : mergeFields type t fs = (t, none) := by
  induction fs with
  | nil => rfl
  | cons k fs ih =>
    obtain ⟨hk, hfs⟩ := List.forall_mem_cons.1 h
    rw [mergeFields_cons hk.takes, hk.join_eq, ih hfs]

end Fields

def Body.Absorbs : Body → Body → Prop
  | .enum vs, .enum ws => ∀ w ∈ ws, name w ∈ vs.map name
  | .fields c is fs, .fields c' js gs =>
    c = c' ∧ (∀ j ∈ js, name j ∈ is.map name) ∧ ∀ g ∈ gs.toList, fs.Absorbs g
  | .scalar, .scalar => True
  | .union ms, .union ns => ∀ n ∈ ns, name n ∈ ms.map name
  | _, _ => False

namespace Body

variable {type : String} {b d e r : Body}

theorem absorbs_self (b : Body) : b.Absorbs b := by
  cases b with
  | enum vs => exact fun v hv => List.mem_map_of_mem hv
  | fields c is fs =>
    exact ⟨rfl, fun i hi => List.mem_map_of_mem hi, fun f hf => Table.absorbs_of_mem hf⟩
  | scalar => trivial
  | union ms => exact fun m hm => List.mem_map_of_mem hm

theorem Absorbs.mergeBody_eq (h : b.Absorbs d) (type : String) :
    mergeBody type b d = some (b, none) := by
  cases b with
  | enum vs =>
    cases d with
    | enum ws => rw [mergeBody, addNew_eq_self h]
    | fields _ _ _ | scalar | union _ => cases h
  | union ms =>
    cases d with
    | union ns => rw [mergeBody, addNew_eq_self h]
    | fields _ _ _ | scalar | enum _ => cases h
  | scalar =>
    cases d with
    | scalar => rfl
    | fields _ _ _ | enum _ | union _ => cases h
  | fields c is fs =>
    cases d with
    | fields c' js gs =>
      obtain ⟨rfl, his, hfs⟩ := h
      simp only [mergeBody, ↓reduceIte, mergeFields_absorbed type hfs, addNew_eq_self his]
    | enum _ | scalar | union _ => cases h

theorem Absorbs.mergeBody {m : Merged Body} (h : b.Absorbs d)
    (hm : SchemaTypings.mergeBody type b e = some m) : m.1.Absorbs d := by
  cases BodyMerge.of_mergeBody hm with
  | enum vs ws =>
    cases d with
    | enum xs => exact fun x hx => mem_names_addNew.2 (.inl (h x hx))
    | fields _ _ _ | scalar | union _ => cases h
  | union ms ns =>
    cases d with
    | union xs => exact fun x hx => mem_names_addNew.2 (.inl (h x hx))
    | fields _ _ _ | scalar | enum _ => cases h
  | scalar => exact h
  | fields c is js fs gs =>
    cases d with
    | fields c' xs hs =>
      obtain ⟨hc, his, hfs⟩ := h
      exact ⟨hc, fun x hx => mem_names_addNew.2 (.inl (his x hx)), fun f hf =>
        absorbs_mergeFields type (hfs f hf) gs.toList⟩
    | enum _ | scalar | union _ => cases h

theorem absorbs_of_mergeBody (hm : mergeBody type b d = some (r, none)) : r.Absorbs d := by
  obtain ⟨m, hr⟩ : ∃ m, m = (r, (none : Option MergeError)) := ⟨_, rfl⟩
  rw [← hr] at hm
  cases BodyMerge.of_mergeBody hm with
  | enum vs ws =>
    obtain ⟨rfl, -⟩ := Prod.mk.inj hr
    exact fun w hw => mem_names_addNew.2 (.inr (List.mem_map_of_mem hw))
  | union ms ns =>
    obtain ⟨rfl, -⟩ := Prod.mk.inj hr
    exact fun n hn => mem_names_addNew.2 (.inr (List.mem_map_of_mem hn))
  | scalar =>
    obtain ⟨rfl, -⟩ := Prod.mk.inj hr
    trivial
  | fields c is js fs gs =>
    obtain ⟨rfl, he⟩ := Prod.mk.inj hr
    refine ⟨rfl, fun j hj => mem_names_addNew.2 (.inr (List.mem_map_of_mem hj)), ?_⟩
    exact mergeFields_absorbs type (Prod.ext rfl he)

end Body

/-- Merging the definition into the type changes nothing. -/
structure TypeDef.Absorbs (t d : TypeDef) : Prop where
  description : mergeDescription t.description d.description = t.description
  origin : d.origin.isSome → t.origin.isSome
  body : t.body.Absorbs d.body

namespace TypeDef

variable {t d e u : TypeDef}

theorem absorbs_self (t : TypeDef) : t.Absorbs t where
  description := by
    rw [mergeDescription_eq, Option.or_self, ite_self]
  origin := id
  body := t.body.absorbs_self

theorem Absorbs.merge_eq (h : t.Absorbs d) : t.merge d = (t, none) := by
  have ho : t.origin.or d.origin = t.origin := by
    cases ht : t.origin with
    | some o => rfl
    | none =>
      have hd : ¬d.origin.isSome := fun hs => by simpa [ht] using h.origin hs
      simpa using hd
  simp only [merge, h.body.mergeBody_eq t.name, h.description, ho]

theorem Absorbs.merge (h : t.Absorbs d) (e : TypeDef) : (t.merge e).1.Absorbs d := by
  cases hb : mergeBody t.name t.body e.body with
  | none => simpa only [TypeDef.merge, hb] using h
  | some m =>
    simp only [TypeDef.merge, hb]
    refine ⟨mergeDescription_keeps h.description _, fun ho => ?_, h.body.mergeBody hb⟩
    obtain ⟨o, ht⟩ := Option.isSome_iff_exists.1 (h.origin ho)
    simp [ht]

theorem absorbs_of_merge (h : t.merge d = (u, none)) : u.Absorbs d := by
  cases hb : mergeBody t.name t.body d.body with
  | none => simp [merge, hb] at h
  | some m =>
    obtain ⟨r, error⟩ := m
    simp only [merge, hb, Prod.mk.injEq] at h
    obtain ⟨rfl, rfl⟩ := h
    refine ⟨mergeDescription_again _ _, fun ho => ?_, Body.absorbs_of_mergeBody hb⟩
    cases ht : t.origin with
    | none => simpa using ho
    | some o => rfl

/-- Only whether a definition has a place counts, not which place. -/
theorem Absorbs.congr (h : t.Absorbs d) (hd : d.unplaced = e.unplaced) : t.Absorbs e := by
  have hdescription : d.description = e.description := by
    simpa only [unplaced] using congrArg TypeDef.description hd
  have hbody : d.body = e.body := by
    simpa only [unplaced] using congrArg TypeDef.body hd
  have horigin : d.origin.isSome = e.origin.isSome := by
    simpa only [unplaced, Option.isSome_map] using congrArg (fun x => x.origin.isSome) hd
  exact ⟨hdescription ▸ h.description, horigin ▸ h.origin, hbody ▸ h.body⟩

end TypeDef

namespace Schema

variable {s u : Schema} {d : Definition} {t : TypeDef}

/-- The schema has all that the definition says of its type. -/
def Absorbs (s : Schema) (d : TypeDef) : Prop :=
  ∃ t, s.getType? d.name = some t ∧ t.Absorbs d

theorem absorbs_mergeDefinition (h : s.Absorbs t) (d : Definition) :
    (s.mergeDefinition d).1.Absorbs t := by
  obtain ⟨c, hc, ha⟩ := h
  have hget := s.getType?_mergeDefinition d t.name
  by_cases hn : name d = t.name
  · have hmerged : s.merged d = c.merge d.incoming := merged_of_found (hn ▸ hc)
    rw [if_pos hn, hmerged] at hget
    exact ⟨_, hget, ha.merge d.incoming⟩
  · rw [if_neg hn] at hget
    exact ⟨c, hget.trans hc, ha⟩

theorem absorbs_of_mergeDefinition (h : s.mergeDefinition d = (u, none)) : u.Absorbs d.incoming := by
  have hget := s.getType?_mergeDefinition d (name d)
  rw [if_pos rfl, h, ← show d.incoming.name = name d from d.incoming_name] at hget
  refine ⟨_, hget, ?_⟩
  cases hg : s.getType? (name d) with
  | none =>
    rw [merged_of_new hg]
    exact d.incoming.absorbs_self
  | some c =>
    have hfits : (c.merge d.incoming).2 = none := by
      rw [← merged_of_found hg]
      rw [mergeDefinition_eq] at h
      exact congrArg Prod.snd h
    rw [merged_of_found hg]
    exact TypeDef.absorbs_of_merge (Prod.ext rfl hfits)

theorem Absorbs.mergeDefinition_eq (h : s.Absorbs d.incoming) :
    s.mergeDefinition d = (s, none) := by
  obtain ⟨c, hc, ha⟩ := h
  rw [d.incoming_name] at hc
  rw [Schema.mergeDefinition_eq, merged_of_found hc, ha.merge_eq, addType_getType? hc]

theorem absorbs_mergeDefinitions (h : s.Absorbs t) (ds : List Definition) :
    (s.mergeDefinitions ds).1.Absorbs t :=
  s.mergeDefinitions_preserves (P := fun u => u.Absorbs t)
    (fun _ d _ hu => absorbs_mergeDefinition hu d) h

theorem absorbs_of_mergeDefinitions {ds : List Definition} (h : s.mergeDefinitions ds = (u, none)) :
    ∀ d ∈ ds, u.Absorbs d.incoming := by
  induction ds generalizing s with
  | nil => exact List.forall_mem_nil _
  | cons d ds ih =>
    obtain ⟨v, hd, hds⟩ := mergeDefinitions_cons_eq_ok_iff.1 h
    have hu := absorbs_mergeDefinitions (absorbs_of_mergeDefinition hd) ds
    rw [hds] at hu
    exact List.forall_mem_cons.2 ⟨hu, ih hds⟩

theorem mergeDefinitions_eq_self {ds : List Definition} (h : ∀ d ∈ ds, s.Absorbs d.incoming) :
    s.mergeDefinitions ds = (s, none) := by
  induction ds with
  | nil => rfl
  | cons d ds ih =>
    obtain ⟨hd, hds⟩ := List.forall_mem_cons.1 h
    rw [mergeDefinitions_cons hd.mergeDefinition_eq, ih hds]

end Schema

end SchemaTypings
