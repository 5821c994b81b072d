import SchemaTypings.Proofs.Concatenation
import SchemaTypings.Proofs.SchemaRules

namespace SchemaTypings

open TypeScript

/-- The types that the declarations of a type mention: those of its fields and of their arguments,
or the members of a union. -/
def TypeDef.usedNames (t : TypeDef) : List String :=
  t.members ++ t.fields.flatMap fun f =>
    f.type.baseName :: f.arguments.map fun a => a.type.baseName

theorem TypeDef.Keeps.usedNames {known : String → Prop} {t : TypeDef} (h : t.Keeps known) :
    ∀ n ∈ t.usedNames, known n := by
  obtain ⟨hmembers, -, hfields⟩ := TypeDef.forall_references_iff.1 h.references
  intro n hn
  obtain hn | hn := List.mem_append.1 hn
  · exact hmembers n hn
  · obtain ⟨f, hf, hn⟩ := List.mem_flatMap.1 hn
    obtain ⟨htype, harguments⟩ := hfields f hf
    obtain rfl | hn := List.mem_cons.1 hn
    · exact htype
    · obtain ⟨a, ha, rfl⟩ := List.mem_map.1 hn
      exact harguments a ha

namespace SourceText

variable {d : SourceText} {n : String}

def Defines (d : SourceText) (n : String) : Prop :=
  ∃ e ∈ d.definitions, e.extend = false ∧ name e = n

/-- The root types are the reserved ones and the declared ones. Of those that are named for one
operation, the last is the declared one. -/
def HasRoot (d : SourceText) (n : String) : Prop :=
  n ∈ reservedRoots ∨ ∃ o, lastRoot o d.namedRoots = some n

theorem declaresType_iff (hn : n ∉ builtinScalars) :
    d.declaresType n = true ↔ d.Defines n ∨ d.HasRoot n := by
  rw [declaresType_iff_exists]
  refine or_congr (exists_congr fun e => and_congr_right fun _ => ?_) Iff.rfl
  refine and_congr_left fun he => ?_
  have hb : e.type.name ∉ builtinScalars := fun hm => hn (he ▸ hm)
  simp [Definition.declares, hb]

end SourceText

namespace Schema

variable {text : String} {s : Schema} {o : Options} {n : String}

def Exports (s : Schema) (o : Options) (n : String) : Prop :=
  ∃ x ∈ s.declarations o, x.exportedName? = some n

theorem ofText_tracks (h : ofText text = .ok s) :
    ∃ m : Schema, s = m.withBuiltins ∧ Tracks (SourceText.definitions (text, none)) m.types := by
  obtain ⟨m, hm, rfl, -⟩ := ofText_ok h
  obtain ⟨ht, -⟩ := ofTexts_tracks hm
  rw [List.flatMap_singleton] at ht
  exact ⟨m, rfl, ht⟩

theorem exports_iff_mem (h : ofText text = .ok s) :
    s.Exports o n ↔ n ∈ builtinScalars ++ SourceText.declaredTypes (text, none) := by
  have hmem : s.Exports o n ↔ n ∈ (s.declarations o).filterMap Declaration.exportedName? :=
    List.mem_filterMap.symm
  rw [hmem, exportedName?_declarations, names_declared h]

theorem exports_iff (h : ofText text = .ok s) (hn : n ∈ s.types.names) :
    s.Exports o n ↔ n ∈ builtinScalars ∨ SourceText.Defines (text, none) n ∨
      SourceText.HasRoot (text, none) n := by
  have htype : n ∈ SourceText.typeNames (text, none) := by
    obtain ⟨m, rfl, ht⟩ := ofText_tracks h
    rwa [names_withBuiltins ht] at hn
  rw [exports_iff_mem h, List.mem_append, SourceText.declaredTypes, List.mem_filter,
    and_iff_right htype]
  by_cases hb : n ∈ builtinScalars
  · simp only [hb, true_or]
  · rw [SourceText.declaresType_iff hb]

theorem extended_of_not_exports (h : ofText text = .ok s) (hn : n ∈ s.types.names)
    (he : ¬ s.Exports o n) :
    (∃ e ∈ SourceText.definitions (text, none), name e = n) ∧
      ∀ e ∈ SourceText.definitions (text, none), name e = n → e.extend = true := by
  rw [exports_iff h hn, not_or, not_or] at he
  obtain ⟨hb, hd, -⟩ := he
  obtain ⟨m, rfl, ht⟩ := ofText_tracks h
  refine ⟨?_, fun e he hen => ?_⟩
  · exact List.mem_map.1 (((mem_names_withBuiltins ht).1 hn).resolve_right hb)
  · cases hx : e.extend with
    | true => rfl
    | false => exact absurd ⟨e, he, hx, hen⟩ hd

end Schema

theorem exists_of_append_eq {α : Type} {l r before after : List α} {x : α} (hx : x ∉ l)
    (h : l ++ r = before ++ x :: after) : ∃ rest, before = l ++ rest ∧ r = rest ++ x :: after := by
  obtain ⟨rest, hb, hr⟩ | ⟨rest, hl, hr⟩ := List.append_eq_append_iff.1 h
  · exact ⟨rest, hb, hr⟩
  · cases rest with
    | nil => exact ⟨[], by simpa using hl.symm, hr.symm⟩
    | cons y rest =>
      obtain ⟨rfl, -⟩ := List.cons.inj hr
      exact absurd (hl ▸ List.mem_append_right _ (List.mem_cons_self ..)) hx

theorem Field.exists_group {r : NullableRenderer} {grouped : Bool} {owner g result : String}
    {f : Field} (h : (f.member r grouped owner).type = .call (.group g) result) :
    grouped = true ∧ f.isCallable = true ∧ g = argumentGroupName f.name owner := by
  unfold member at h
  cases hc : f.isCallable with
  | false => simp [hc] at h
  | true =>
    cases grouped with
    | false => simp [hc, argumentsType] at h
    | true =>
      simp only [hc, argumentsType, ↓reduceIte] at h
      obtain ⟨hg, -⟩ := MemberType.call.inj h
      exact ⟨rfl, rfl, (ArgumentsType.group.inj hg).symm⟩

namespace Options

variable {o : Options} {c : Category} {owner : String} {fields : List Field}

theorem forall_groups : ∀ x ∈ o.groups c owner fields, ∃ n ps, x = .group n ps := by
  unfold groups
  split
  · exact List.forall_mem_map.2 fun f _ => ⟨_, _, rfl⟩
  · exact List.forall_mem_nil _

theorem mem_groups {m : Member} {g result : String}
    (hm : m ∈ fields.map (Field.member (o.nullable.get c) o.groupArguments owner))
    (ht : m.type = .call (.group g) result) : ∃ ps, .group g ps ∈ o.groups c owner fields := by
  obtain ⟨f, hf, rfl⟩ := List.mem_map.1 hm
  obtain ⟨hgrouped, hcall, rfl⟩ := Field.exists_group ht
  have hg : f.group (o.nullable.get c) owner ∈ o.groups c owner fields := by
    rw [groups, if_pos hgrouped]
    exact List.mem_map_of_mem (List.mem_filter.2 ⟨hf, hcall⟩)
  exact ⟨_, hg⟩

theorem groups_of_container {t : TypeDef} {before after : List Declaration} {style : ObjectStyle}
    {description : Option String} {members : List Member}
    (h : o.declare t = before ++ .container style description owner members :: after) :
    (∀ x ∈ before, ∃ n ps, x = .group n ps) ∧
      ∀ m ∈ members, ∀ g result, m.type = .call (.group g) result →
        ∃ ps, .group g ps ∈ before := by
  have hmem : .container style description owner members ∈ o.declare t :=
    h ▸ List.mem_append_right _ (List.mem_cons_self ..)
  unfold declare at h hmem
  cases hb : t.body with
  | enum vs | scalar | union ms =>
    rw [hb] at hmem
    cases List.mem_singleton.1 hmem
  | fields c is fs =>
    simp only [hb, declareFields] at h
    have hnot : .container style description owner members ∉ o.groups c t.name fs.toList :=
      fun hx => by
        obtain ⟨n, ps, hx⟩ := forall_groups _ hx
        cases hx
    obtain ⟨rest, rfl, hc⟩ := exists_of_append_eq hnot h
    cases rest with
    | cons x rest => simp at hc
    | nil =>
      rw [List.append_nil]
      obtain ⟨hc, -⟩ := List.cons.inj hc
      obtain ⟨-, -, -, rfl⟩ := Declaration.container.inj hc
      exact ⟨forall_groups, fun m hm g result ht => mem_groups hm ht⟩

end Options

/-- The argument groups that a container names stand right before it. -/
def GroupsPrecede (ds : List Declaration) : Prop :=
  ∀ before style description owner members after,
    ds = before ++ .container style description owner members :: after →
    ∃ earlier groups, before = earlier ++ groups ∧ (∀ x ∈ groups, ∃ n ps, x = .group n ps) ∧
      ∀ m ∈ members, ∀ g result, m.type = .call (.group g) result → ∃ ps, .group g ps ∈ groups

theorem Schema.groupsPrecede (s : Schema) (o : Options) : GroupsPrecede (s.declarations o) := by
  intro before style description owner members after h
  have hnot : .container style description owner members ∉ o.preamble := by
    simp [Options.preamble, Options.scalarAlias]
  obtain ⟨rest, rfl, htypes⟩ := exists_of_append_eq hnot h
  obtain ⟨earlier, t, -, pre, post, -, ht, rfl⟩ := exists_of_flatMap_eq_append htypes
  exact ⟨o.preamble ++ earlier.flatMap o.declare, pre, by simp, Options.groups_of_container ht⟩

/-- What the declared types of an accepted text mention are types of its schema. All of them are
exported but those that have only been extended and are no root types. The groups of its calls
stand right before their containers. -/
theorem usedNames_of_generated {text out : String} {o : Options}
    (h : generateFromText text o = .ok out) :
    ∃ s, Schema.ofText text = .ok s ∧
      out = o.namespaceText ((s.declarations o).map Declaration.text) ∧
      (∀ t ∈ s.types.toList.filter s.isDeclared, ∀ n ∈ t.usedNames, s.hasType n = true ∧
        (s.Exports o n ↔ n ∈ builtinScalars ∨ SourceText.Defines (text, none) n ∨
          SourceText.HasRoot (text, none) n) ∧
        (¬ s.Exports o n → ¬ SourceText.HasRoot (text, none) n ∧
          (∃ e ∈ SourceText.definitions (text, none), name e = n) ∧
          ∀ e ∈ SourceText.definitions (text, none), name e = n → e.extend = true)) ∧
      GroupsPrecede (s.declarations o) := by
  obtain ⟨s, hs, rfl⟩ := generateFromText_ok h
  obtain ⟨m, -, -, hv⟩ := Schema.ofText_ok hs
  refine ⟨s, hs, rfl, fun t ht n hn => ?_, s.groupsPrecede o⟩
  have hrule := List.findSome?_eq_none_iff.1 hv t (List.mem_of_mem_filter ht)
  have hname : n ∈ s.types.names := (Schema.violationOf_eq_none_iff.1 hrule).usedNames n hn
  have hexports := Schema.exports_iff (o := o) hs hname
  refine ⟨Table.contains_iff.2 hname, hexports, fun he => ⟨fun hr => ?_, ?_⟩⟩
  · exact he (hexports.2 (.inr (.inr hr)))
  · exact Schema.extended_of_not_exports hs hname he

def extendedMember : String :=
  "union U = A | B type A { f(a: I!): [B] } extend type B { g: Int } input I { h: ID }"

theorem usedNames_extendedMember :
    ∃ out s t, generateFromText extendedMember .default = .ok out ∧
      Schema.ofText extendedMember = .ok s ∧ t ∈ s.types.toList.filter s.isDeclared ∧
      "A" ∈ t.usedNames ∧ s.Exports .default "A" ∧
      "B" ∈ t.usedNames ∧ s.hasType "B" = true ∧ ¬ s.Exports .default "B" := by
  have hc : (generateFromText extendedMember .default).isOk = true ∧
      ((Schema.ofText extendedMember).toOption.any fun s =>
        (s.types.toList.filter s.isDeclared).any fun t => t.usedNames = ["A", "B"]) = true ∧
      (∃ e ∈ SourceText.definitions (extendedMember, none),
        e.extend = false ∧ name e = "A") ∧
      (¬ ∃ e ∈ SourceText.definitions (extendedMember, none),
        e.extend = false ∧ name e = "B") ∧
      SourceText.namedRoots (extendedMember, none) = [] := by
    decide +kernel
  obtain ⟨hok, hused, ha, hb, hroots⟩ := hc
  obtain ⟨out, h⟩ := exists_of_isOk hok
  obtain ⟨s, hs, -, hnames, -⟩ := usedNames_of_generated h
  simp only [hs, Except.toOption, Option.any_some, List.any_eq_true, decide_eq_true_eq] at hused
  obtain ⟨t, ht, hused⟩ := hused
  have hroot : ¬ SourceText.HasRoot (extendedMember, none) "B" := by
    rintro (hr | ⟨o, hr⟩)
    · revert hr
      decide
    · rw [hroots] at hr
      cases hr
  have hA : "A" ∈ t.usedNames := by simp [hused]
  have hB : "B" ∈ t.usedNames := by simp [hused]
  obtain ⟨-, hexports, -⟩ := hnames t ht "A" hA
  obtain ⟨htype, hnot, -⟩ := hnames t ht "B" hB
  refine ⟨out, s, t, h, hs, ht, hA, hexports.2 (.inr (.inl ha)), hB, htype, fun he => ?_⟩
  obtain hr | hr | hr := hnot.1 he
  · exact absurd hr (by decide)
  · exact hb hr
  · exact hroot hr

end SchemaTypings
