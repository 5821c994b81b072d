import SchemaTypings.Proofs.NamespaceLines
import SchemaTypings.Proofs.Names

namespace SchemaTypings

open Text TypeScript

namespace Text

theorem toNat_ofNat_of_ne {n : Nat} (h : Char.ofNat n ≠ '\x00') : (Char.ofNat n).toNat = n := by
  by_cases hv : n.isValidChar
  · have hc : Char.ofNat n = Char.ofNatAux n hv := dif_pos hv
    rw [hc]
    rfl
  · exact absurd (dif_neg hv) h

theorem breaks_not_mem_caseExpansions : ∀ p ∈ caseExpansions, 10 ∉ p.2 ∧ 13 ∉ p.2 := by
  decide +kernel

theorem breaks_lt_caseRuns : ∀ run ∈ caseRuns, 13 < run.first + run.shift := by
  decide +kernel

/-- No line break is the uppercase form of another character. -/
theorem not_mem_upper {c x : Char} (hx : x = '\n' ∨ x = '\r') (hc : x ≠ c) : x ∉ upper c := by
  have hcode : ∀ n, Char.ofNat n = x → n = 10 ∨ n = 13 := by
    rintro n rfl
    have h0 : Char.ofNat n ≠ '\x00' := by
      intro h0
      rw [h0] at hx
      revert hx
      decide
    rw [← toNat_ofNat_of_ne h0]
    exact hx.imp (fun h => by rw [h]; rfl) fun h => by rw [h]; rfl
  unfold upper
  split
  · next codes hl =>
    intro hm
    obtain ⟨n, hn, hnx⟩ := List.mem_map.1 hm
    obtain ⟨l, r, he, -⟩ := List.lookup_eq_some_iff.1 hl
    have hp : (c.toNat, codes) ∈ caseExpansions := he ▸ by simp
    obtain ⟨h10, h13⟩ := breaks_not_mem_caseExpansions _ hp
    exact (hcode n hnx).elim (fun h => h10 (h ▸ hn)) fun h => h13 (h ▸ hn)
  · split
    · next run hr =>
      intro hm
      have hn := hcode _ (List.mem_singleton.1 hm).symm
      have hlt := breaks_lt_caseRuns run (List.mem_of_find?_eq_some hr)
      have hcov := List.find?_some hr
      simp only [CaseRun.covers, Bool.and_eq_true, decide_eq_true_eq] at hcov
      omega
    · simpa using hc

theorem SingleLine.upperFirst {s : String} (h : SingleLine s) : SingleLine (upperFirst s) := by
  have hm : ∀ {x}, (x = '\n' ∨ x = '\r') → x ∉ s.toList → x ∉ (Text.upperFirst s).toList := by
    intro x hx hs
    unfold Text.upperFirst
    split
    · exact hs
    · next c r he =>
      rw [he] at hs
      obtain ⟨hc, hr⟩ := not_or.1 (mt List.mem_cons.2 hs)
      rw [String.toList_ofList, List.mem_append]
      exact fun hm => hm.elim (not_mem_upper hx hc) hr
  exact ⟨hm (.inl rfl) h.1, hm (.inr rfl) h.2⟩

end Text

section Fields

variable {r : NullableRenderer} {owner : String} {a : Argument} {f : Field}

theorem singleLine_of_isWord {n : String} (h : Sdl.IsWord n) : SingleLine n :=
  ⟨h.not_mem (by decide), h.not_mem (by decide)⟩

theorem singleLine_argumentGroupName {field owner : String} (hf : SingleLine field)
    (ho : SingleLine owner) : SingleLine (argumentGroupName field owner) := by
  simp only [argumentGroupName, singleLine_append]
  exact ⟨⟨⟨⟨by decide, hf.upperFirst⟩, by decide⟩, ho.upperFirst⟩, by decide⟩

theorem Field.names_argument (ha : a ∈ f.arguments) : ∀ n ∈ a.names, n ∈ f.names := fun _ hn =>
  List.mem_cons_of_mem _ (List.mem_cons_of_mem _ (List.mem_flatMap.2 ⟨a, ha, hn⟩))

/-- References are rendered on one line. -/
def NullableRenderer.IsPlain (r : NullableRenderer) : Prop :=
  ∀ t : TypeRef, SingleLine t.baseName → SingleLine (t.expression r false)

/-- A renderer that keeps lines single renders every reference on one line. -/
theorem NullableRenderer.isPlain_of_render (h : ∀ e, SingleLine e → SingleLine (r.render e)) :
    r.IsPlain := by
  have hu : ∀ notNull e, SingleLine e → SingleLine (r.renderUnless notNull e) := by
    intro notNull e he
    cases notNull with
    | true => exact he
    | false => exact h e he
  have ht : ∀ (t : TypeRef) notNull, SingleLine t.baseName →
      SingleLine (t.expression r notNull) := by
    intro t
    induction t with
    | named n => exact fun notNull hn => hu notNull n hn
    | list t ih =>
      intro notNull hn
      have he : SingleLine ("Array<" ++ t.expression r false ++ ">") :=
        ((by decide : SingleLine "Array<").append (ih false hn)).append (by decide)
      exact hu notNull _ he
    | nonNull t ih => exact fun _ hn => ih true hn
  exact fun t => ht t false

theorem NullableRenderer.isPlain_standard : NullableRenderer.standard.IsPlain :=
  isPlain_of_render fun _ he => he.append (by decide)

theorem singleLine_argument (hr : r.IsPlain) (ha : ∀ n ∈ a.names, SingleLine n) :
    SingleLine (a.name ++ ": " ++ a.type.expression r false) := by
  have hn : SingleLine a.name := ha _ (by simp [Argument.names])
  have ht : SingleLine (a.type.expression r false) := hr a.type (ha _ (by simp [Argument.names]))
  exact (hn.append (by decide)).append ht

theorem isPlain_group (hr : r.IsPlain) (ho : SingleLine owner) (hf : ∀ n ∈ f.names, SingleLine n) :
    (f.group r owner).layout.IsPlain := by
  have hn : SingleLine f.name := hf _ (by simp [Field.names])
  refine ⟨?_, by decide, List.forall_mem_map.2 (List.forall_mem_map.2 fun a ha => ?_)⟩
  · exact singleLine_append.2 ⟨by decide, singleLine_argumentGroupName hn ho⟩
  · exact singleLine_argument hr fun n hn => hf n (Field.names_argument ha n hn)

theorem singleLine_argumentsType (hr : r.IsPlain) (grouped : Bool) (ho : SingleLine owner)
    (hf : ∀ n ∈ f.names, SingleLine n) : SingleLine (f.argumentsType r grouped owner).text := by
  have hn : SingleLine f.name := hf _ (by simp [Field.names])
  unfold Field.argumentsType
  split
  · exact singleLine_argumentGroupName hn ho
  · simp only [ArgumentsType.text, singleLine_append]
    refine ⟨⟨by decide, ?_⟩, by decide⟩
    refine SingleLine.intercalate (by decide) (List.forall_mem_map.2 ?_)
    refine List.forall_mem_map.2 fun a ha => ?_
    exact singleLine_argument hr fun n hn => hf n (Field.names_argument ha n hn)

theorem singleLine_member (hr : r.IsPlain) (grouped : Bool) (ho : SingleLine owner)
    (hf : ∀ n ∈ f.names, SingleLine n) : SingleLine (f.member r grouped owner).item.line := by
  have hn : SingleLine f.name := hf _ (by simp [Field.names])
  have ht : SingleLine (f.type.expression r false) := hr f.type (hf _ (by simp [Field.names]))
  have ha := singleLine_argumentsType hr grouped ho hf
  simp only [Member.item, Field.member, singleLine_append]
  refine ⟨⟨hn, by decide⟩, ?_⟩
  split
  · simp only [MemberType.text, singleLine_append]
    exact ⟨⟨⟨⟨⟨by decide, by decide⟩, ha⟩, by decide⟩, ht⟩, by decide⟩
  · exact ht

end Fields

/-- Options that bring no line breaks in. -/
structure Options.IsPlain (o : Options) : Prop where
  namespaceName : SingleLine o.namespaceName
  scalars : ∀ m ∈ o.scalars.toList, SingleLine m.type
  nullable : ∀ c, (o.nullable.get c).IsPlain

namespace Options

variable {o : Options}

theorem isPlain_default : Options.default.IsPlain where
  namespaceName := by decide
  scalars := List.forall_mem_nil _
  nullable c := by cases c <;> exact NullableRenderer.isPlain_standard

theorem mapping_of_scalarType (o : Options) (n : String) :
    o.scalarType n = "any" ∨ (∃ m ∈ builtinMappings.toList, m.type = o.scalarType n) ∨
      ∃ m ∈ o.scalars.toList, m.type = o.scalarType n := by
  unfold scalarType
  cases h : o.resolvedScalars.get? n with
  | none => exact .inl rfl
  | some m =>
    obtain ⟨hm, -⟩ := Table.mem_of_get? h
    exact .inr ((Table.mem_insertAll hm).imp (fun hb => ⟨m, hb, rfl⟩) fun hs => ⟨m, hs, rfl⟩)

theorem IsPlain.singleLine_scalarType (ho : o.IsPlain) (n : String) :
    SingleLine (o.scalarType n) := by
  obtain h | ⟨m, hm, h⟩ | ⟨m, hm, h⟩ := o.mapping_of_scalarType n
  · rw [h]
    decide
  · have hb : ∀ m ∈ builtinMappings.toList, SingleLine m.type := by decide
    exact h ▸ hb m hm
  · exact h ▸ ho.scalars m hm

theorem isPlain_scalarAlias (ho : o.IsPlain) (description : Option String) {n : String}
    (hn : SingleLine n) : (o.scalarAlias description n).layout.IsPlain := by
  have ht := ho.singleLine_scalarType n
  constructor
  · simp only [singleLine_append]
    exact ⟨⟨⟨by decide, hn⟩, by decide⟩, ht⟩
  · simp

theorem isPlain_membersLayout {head separator : String} {members : List Member}
    (hh : SingleLine head) (hs : SingleLine separator)
    (hm : ∀ m ∈ members, SingleLine m.item.line) :
    (membersLayout head separator members).IsPlain := by
  unfold membersLayout
  split
  · exact ⟨hh.append (by decide), by simp⟩
  · exact ⟨hh, hs, List.forall_mem_map.2 hm⟩

theorem isPlain_container (ho : o.IsPlain) (c : Category) (description : Option String) {n : String}
    {fields : List Field} (hn : SingleLine n)
    (hf : ∀ f ∈ fields, ∀ n ∈ f.names, SingleLine n) :
    (o.container c description n fields).layout.IsPlain := by
  have hm : ∀ m ∈ fields.map (Field.member (o.nullable.get c) o.groupArguments n),
      SingleLine m.item.line :=
    List.forall_mem_map.2 fun f hm => singleLine_member (ho.nullable c) _ hn (hf f hm)
  unfold container
  cases o.objectStyle with
  | interface => exact isPlain_membersLayout (singleLine_append.2 ⟨by decide, hn⟩) (by decide) hm
  | type =>
    have hh : SingleLine ("export type " ++ n ++ " =") :=
      ((by decide : SingleLine "export type ").append hn).append (by decide)
    exact isPlain_membersLayout hh (by decide) hm

theorem isPlain_enum (style : EnumStyle) (description : Option String) {n : String}
    {values : List EnumValue} (hn : SingleLine n) (hv : ∀ v ∈ values, SingleLine v.name) :
    (Declaration.enum style description n values).layout.IsPlain := by
  have hl : ∀ v ∈ values, SingleLine (literal v.name) := fun v hm =>
    ((by decide : SingleLine "'").append (hv v hm)).append (by decide)
  cases style with
  | type =>
    constructor
    · simp only [singleLine_append]
      refine ⟨⟨⟨by decide, hn⟩, by decide⟩, ?_⟩
      exact SingleLine.intercalate (by decide) (List.forall_mem_map.2 hl)
    · simp
  | enum =>
    refine ⟨singleLine_append.2 ⟨by decide, hn⟩, by decide, List.forall_mem_map.2 fun v hm => ?_⟩
    exact ((hv v hm).append (by decide)).append (hl v hm)

theorem isPlain_union (description : Option String) {n : String} {members : List String}
    (hn : SingleLine n) (hm : ∀ m ∈ members, SingleLine m) :
    (Declaration.union description n members).layout.IsPlain := by
  constructor
  · simp only [singleLine_append]
    exact ⟨⟨⟨by decide, hn⟩, by decide⟩, SingleLine.intercalate (by decide) hm⟩
  · simp

theorem isPlain_declare (ho : o.IsPlain) {d : TypeDef} (hd : ∀ n ∈ d.names, SingleLine n) :
    ∀ x ∈ o.declare d, x.layout.IsPlain := by
  obtain ⟨hn, hb⟩ := List.forall_mem_cons.1 hd
  unfold declare
  cases hbody : d.body with
  | enum vs =>
    rw [hbody] at hb
    exact List.forall_mem_singleton.2 (isPlain_enum _ _ hn (List.forall_mem_map.1 hb))
  | fields c is fs =>
    rw [hbody] at hb
    have hf : ∀ f ∈ fs.toList, ∀ n ∈ f.names, SingleLine n := fun f hm n hn =>
      hb n (List.mem_flatMap.2 ⟨f, hm, hn⟩)
    refine List.forall_mem_append.2 ⟨?_, ?_⟩
    · unfold groups
      split
      · refine List.forall_mem_map.2 fun f hm => ?_
        exact isPlain_group (ho.nullable c) hn (hf f (List.mem_of_mem_filter hm))
      · exact List.forall_mem_nil _
    · exact List.forall_mem_singleton.2 (isPlain_container ho c _ hn hf)
  | scalar => exact List.forall_mem_singleton.2 (isPlain_scalarAlias ho _ hn)
  | union ms =>
    rw [hbody] at hb
    exact List.forall_mem_singleton.2 (isPlain_union _ hn hb)

theorem isPlain_preamble (ho : o.IsPlain) : ∀ x ∈ o.preamble, x.layout.IsPlain := by
  have hb : ∀ n ∈ builtinScalars, SingleLine n := by decide
  refine List.forall_mem_append.2 ⟨List.forall_mem_map.2 fun n hn => ?_, ?_⟩
  · exact isPlain_scalarAlias ho none (hb n hn)
  · refine List.forall_mem_singleton.2 ⟨by decide, by decide, ?_⟩
    exact List.forall_mem_cons.2 ⟨by decide, List.forall_mem_singleton.2 (by decide)⟩

end Options

namespace Schema

def names (s : Schema) : List String :=
  s.types.toList.flatMap TypeDef.names

def IsPlain (s : Schema) : Prop :=
  ∀ n ∈ s.names, SingleLine n

variable {s : Schema} {o : Options}

theorem isPlain_declarations (hs : s.IsPlain) (ho : o.IsPlain) :
    ∀ x ∈ s.declarations o, x.layout.IsPlain := by
  refine List.forall_mem_append.2 ⟨Options.isPlain_preamble ho, fun x hx => ?_⟩
  obtain ⟨d, hd, hx⟩ := List.mem_flatMap.1 hx
  have hn : ∀ n ∈ d.names, SingleLine n := fun n hn =>
    hs n (List.mem_flatMap.2 ⟨d, List.mem_of_mem_filter hd, hn⟩)
  exact Options.isPlain_declare ho hn x hx

theorem declarations_ne_nil (s : Schema) (o : Options) : s.declarations o ≠ [] := by
  simp [declarations, Options.preamble]

theorem splitLines_generate (hs : s.IsPlain) (ho : o.IsPlain) :
    splitLines (s.generate o).toList =
      o.header :: [] :: (bodyLines (s.declarations o)).map indentLine ++ [[], ['\x7d']] :=
  splitLines_namespaceText ho.namespaceName (isPlain_declarations hs ho) (declarations_ne_nil s o)

end Schema

end SchemaTypings
