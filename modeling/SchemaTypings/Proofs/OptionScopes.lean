import Mathlib.Data.List.Forall2
import SchemaTypings.Generate
import SchemaTypings.Proofs.Merging
import SchemaTypings.Proofs.NamespaceLines

namespace SchemaTypings

open TypeScript

theorem NullableRenderers.get_set_of_ne (r : NullableRenderers) {c d : Category} (h : d ≠ c)
    (new : NullableRenderer) : (r.set c new).get d = r.get d := by
  cases c <;> cases d <;> first | rfl | exact absurd rfl h

/-- One option. Each category has a renderer, and each scalar a mapping, of its own. -/
inductive Setting where
  | namespaceName | visibility | enumStyle | objectStyle | groupArguments
  | renderer (c : Category)
  | mapping (scalar : String)
deriving DecidableEq

namespace Setting

def Agrees (o o' : Options) : Setting → Prop
  | namespaceName => o'.namespaceName = o.namespaceName
  | visibility => o'.visibility = o.visibility
  | enumStyle => o'.enumStyle = o.enumStyle
  | objectStyle => o'.objectStyle = o.objectStyle
  | groupArguments => o'.groupArguments = o.groupArguments
  | renderer c => o'.nullable.get c = o.nullable.get c
  | mapping n => o'.scalars.get? n = o.scalars.get? n

/-- The options differ in this setting, if at all. -/
def Only (x : Setting) (o o' : Options) : Prop :=
  ∀ y, y ≠ x → y.Agrees o o'

/-- The types that a setting has a say in. -/
def Governs (t : TypeDef) : Setting → Prop
  | namespaceName | visibility => False
  | enumStyle => t.kind = .enum
  | objectStyle => ∃ c : Category, t.kind = c.kind
  | groupArguments => ∃ f ∈ t.fields, f.isCallable = true
  | renderer c => t.kind = c.kind
  | mapping n => t.kind = .scalar ∧ t.name = n

def GovernsPreamble (x : Setting) : Prop :=
  ∃ n ∈ builtinScalars, x = mapping n

def GovernsHeader (x : Setting) : Prop :=
  x = namespaceName ∨ x = visibility

variable {o o' : Options} {x : Setting}

theorem Only.agrees (h : x.Only o o') {P : Setting → Prop} (hx : ¬ P x) {y : Setting} (hy : P y) :
    y.Agrees o o' :=
  h y fun he => hx (he ▸ hy)

theorem only_withNullable (o : Options) (c : Category) (r : NullableRenderer) :
    (renderer c).Only o (o.withNullable c r) := by
  intro y hy
  cases y with
  | renderer d =>
    have hne : d ≠ c := fun he => hy (he ▸ rfl)
    exact o.nullable.get_set_of_ne hne r
  | _ => exact rfl

theorem only_withScalar (o : Options) (scalar type : String) :
    (mapping scalar).Only o (o.withScalar scalar type) := by
  intro y hy
  cases y with
  | mapping n =>
    have hne : scalar ≠ n := fun he => hy (he ▸ rfl)
    exact (o.scalars.get?_insert _ n).trans (if_neg hne)
  | _ => exact rfl

end Setting

namespace Options

variable {o o' : Options}

theorem scalarType_congr {n : String} (h : (Setting.mapping n).Agrees o o') :
    o'.scalarType n = o.scalarType n := by
  have hget : o'.scalars.get? n = o.scalars.get? n := h
  have hresolved : o'.resolvedScalars.get? n = o.resolvedScalars.get? n := by
    rw [resolvedScalars, resolvedScalars, Table.get?_overlay, Table.get?_overlay, hget]
  rw [scalarType, scalarType, hresolved]

theorem groups_of_no_callable (o : Options) {c : Category} {owner : String} {fs : List Field}
    (h : ∀ f ∈ fs, ¬ f.isCallable = true) : o.groups c owner fs = [] := by
  unfold groups
  split
  · rw [List.filter_eq_nil_iff.2 h]
    rfl
  · rfl

theorem member_of_not_callable (r : NullableRenderer) (grouped grouped' : Bool) (owner : String)
    {f : Field} (h : ¬ f.isCallable = true) :
    f.member r grouped owner = f.member r grouped' owner := by
  simp only [Field.member, if_neg h]

/-- Types with fields: the style is read by the container alone, and the grouping of arguments is
read only for fields that are called. -/
theorem declareFields_congr {c : Category} (d : Option String) (owner : String) (fs : List Field)
    (hrenderer : o'.nullable.get c = o.nullable.get c)
    (hgrouping : (∃ f ∈ fs, f.isCallable = true) → o'.groupArguments = o.groupArguments) :
    o'.groups c owner fs = o.groups c owner fs ∧
      ∃ members, o.container c d owner fs = .container o.objectStyle d owner members ∧
        o'.container c d owner fs = .container o'.objectStyle d owner members := by
  by_cases hf : ∃ f ∈ fs, f.isCallable = true
  · have hg := hgrouping hf
    refine ⟨by rw [groups, groups, hg, hrenderer], _, rfl, ?_⟩
    rw [container, hg, hrenderer]
  · -- The grouping may differ here, but then there is no group and no call to read it.
    have hnone : ∀ f ∈ fs, ¬ f.isCallable = true := fun f hm hc => hf ⟨f, hm, hc⟩
    refine ⟨by rw [o.groups_of_no_callable hnone, o'.groups_of_no_callable hnone], _, rfl, ?_⟩
    rw [container, hrenderer]
    exact congrArg _ (List.map_congr_left fun f hm => member_of_not_callable _ _ _ _ (hnone f hm))

theorem declare_congr {t : TypeDef} (h : ∀ y : Setting, y.Governs t → y.Agrees o o') :
    o'.declare t = o.declare t := by
  obtain ⟨n, description, origin, body⟩ := t
  cases body with
  | enum vs =>
    have hs : o'.enumStyle = o.enumStyle := h .enumStyle rfl
    simp only [declare, hs]
  | fields c is fs =>
    have hs : o'.objectStyle = o.objectStyle := h .objectStyle ⟨c, rfl⟩
    obtain ⟨hg, members, hc, hc'⟩ := declareFields_congr description n fs.toList
      (h (.renderer c) rfl) (h .groupArguments)
    simp only [declare, declareFields, hg, hc, hc', hs]
  | scalar =>
    have hs : o'.scalarType n = o.scalarType n := scalarType_congr (h (.mapping n) ⟨rfl, rfl⟩)
    simp only [declare, scalarAlias, hs]
  | union ms => rfl

theorem preamble_congr (h : ∀ y : Setting, y.GovernsPreamble → y.Agrees o o') :
    o'.preamble = o.preamble := by
  have haliases : builtinScalars.map (o'.scalarAlias none) =
      builtinScalars.map (o.scalarAlias none) :=
    List.map_congr_left fun n hn => by
      rw [scalarAlias, scalarAlias, scalarType_congr (h (.mapping n) ⟨n, hn, rfl⟩)]
  rw [preamble, preamble, haliases]

theorem header_congr (h : ∀ y : Setting, y.GovernsHeader → y.Agrees o o') :
    o'.header = o.header := by
  have hname : o'.namespaceName = o.namespaceName := h .namespaceName (.inl rfl)
  have hvisibility : o'.visibility = o.visibility := h .visibility (.inr rfl)
  rw [header, header, hname, hvisibility]

def Restyled (o o' : Options) (d d' : Declaration) : Prop :=
  ∃ description n members, d = .container o.objectStyle description n members ∧
    d' = .container o'.objectStyle description n members

def Remapped (o o' : Options) (n : String) (d d' : Declaration) : Prop :=
  ∃ description, d = .typeAlias description n (o.scalarType n) ∧
    d' = .typeAlias description n (o'.scalarType n)

theorem forall₂_declare_of_objectStyle (h : Setting.objectStyle.Only o o') (t : TypeDef) :
    List.Forall₂ (fun d d' => d' = d ∨ Restyled o o' d d') (o.declare t) (o'.declare t) := by
  by_cases ht : Setting.objectStyle.Governs t
  · obtain ⟨n, description, origin, body⟩ := t
    cases body with
    | fields c is fs =>
      have hgrouping : o'.groupArguments = o.groupArguments := h .groupArguments nofun
      obtain ⟨hg, members, hc, hc'⟩ := declareFields_congr description n fs.toList
        (h (.renderer c) nofun) fun _ => hgrouping
      simp only [declare, declareFields, hg]
      refine List.rel_append (List.forall₂_same.2 fun d _ => .inl rfl) ?_
      exact .cons (.inr ⟨_, _, _, hc, hc'⟩) .nil
    | enum vs | scalar | union ms =>
      obtain ⟨c, hc⟩ := ht
      cases c <;> cases hc
  · rw [declare_congr fun y hy => h.agrees ht hy]
    exact List.forall₂_same.2 fun d _ => .inl rfl

theorem remapped_scalarAlias {n : String} (h : (Setting.mapping n).Only o o')
    (description : Option String) (k : String) :
    o'.scalarAlias description k = o.scalarAlias description k ∨
      Remapped o o' n (o.scalarAlias description k) (o'.scalarAlias description k) := by
  by_cases hk : k = n
  · subst hk
    exact .inr ⟨description, rfl, rfl⟩
  · have hagrees : (Setting.mapping k).Agrees o o' := h _ fun he => hk (Setting.mapping.inj he)
    exact .inl (by rw [scalarAlias, scalarAlias, scalarType_congr hagrees])

theorem forall₂_declare_of_mapping {n : String} (h : (Setting.mapping n).Only o o') (t : TypeDef) :
    List.Forall₂ (fun d d' => d' = d ∨ Remapped o o' n d d') (o.declare t) (o'.declare t) := by
  by_cases ht : (Setting.mapping n).Governs t
  · obtain ⟨k, description, origin, body⟩ := t
    cases body with
    | scalar => exact .cons (remapped_scalarAlias h description k) .nil
    | enum vs | union ms => cases ht.1
    | fields c is fs =>
      obtain ⟨hc, -⟩ := ht
      cases c <;> cases hc
  · rw [declare_congr fun y hy => h.agrees ht hy]
    exact List.forall₂_same.2 fun d _ => .inl rfl

theorem forall₂_preamble_of_mapping {n : String} (h : (Setting.mapping n).Only o o') :
    List.Forall₂ (fun d d' => d' = d ∨ Remapped o o' n d d') o.preamble o'.preamble := by
  refine List.rel_append ?_ (.cons (.inl rfl) .nil)
  rw [List.forall₂_map_left_iff, List.forall₂_map_right_iff]
  exact List.forall₂_same.2 fun k _ => remapped_scalarAlias h none k

end Options

namespace Schema

variable {s : Schema} {o o' : Options}

theorem toList_generate (s : Schema) (o : Options) :
    (s.generate o).toList = o.header ++ ['\n', '\n'] ++
      indentedBody ((s.declarations o).map Declaration.text) ++ ['\n', '\n', '\x7d'] := by
  simp [generate, Options.namespaceText, Options.header]

theorem generate_congr (hheader : o'.header = o.header)
    (hdeclarations : s.declarations o' = s.declarations o) : s.generate o' = s.generate o := by
  refine String.toList_inj.1 ?_
  rw [toList_generate, toList_generate, hheader, hdeclarations]

theorem forall₂_declarations {R : Declaration → Declaration → Prop} (s : Schema)
    (hpreamble : List.Forall₂ R o.preamble o'.preamble)
    (htypes : ∀ t, List.Forall₂ R (o.declare t) (o'.declare t)) :
    List.Forall₂ R (s.declarations o) (s.declarations o') := by
  refine List.rel_append hpreamble ?_
  refine List.rel_flatMap (List.forall₂_same.2 fun t _ => rfl) ?_
  rintro t u rfl
  exact htypes t

theorem declarations_congr {x : Setting} (s : Schema) (h : x.Only o o')
    (hpreamble : ¬ x.GovernsPreamble)
    (htypes : ∀ t ∈ s.types.toList.filter s.isDeclared, ¬ x.Governs t) :
    s.declarations o' = s.declarations o := by
  rw [declarations, declarations, Options.preamble_congr fun y hy => h.agrees hpreamble hy,
    List.flatMap_congr fun t ht => Options.declare_congr fun y hy => h.agrees (htypes t ht) hy]

/-- An output is a header, a preamble and the declarations of the declared types. Options that
differ in one setting differ in the parts that the setting governs. Where the style of objects
differs, the containers do and the argument groups do not. Where the mapping of a scalar differs, the
aliases of the scalar do, and nothing does if it has none. -/
theorem generate_of_only (s : Schema) {x : Setting} (h : x.Only o o') :
    (∀ p : Options, (s.generate p).toList = p.header ++ ['\n', '\n'] ++
      indentedBody ((p.preamble ++
        (s.types.toList.filter s.isDeclared).flatMap p.declare).map Declaration.text) ++
      ['\n', '\n', '\x7d']) ∧
    (¬ x.GovernsHeader → o'.header = o.header) ∧
    (¬ x.GovernsPreamble → o'.preamble = o.preamble) ∧
    (∀ t, ¬ x.Governs t → o'.declare t = o.declare t) ∧
    (x = .objectStyle → List.Forall₂ (fun d d' => d' = d ∨ Options.Restyled o o' d d')
      (s.declarations o) (s.declarations o')) ∧
    ∀ n, x = .mapping n →
      List.Forall₂ (fun d d' => d' = d ∨ Options.Remapped o o' n d d')
        (s.declarations o) (s.declarations o') ∧
      (n ∉ builtinScalars →
        (∀ t ∈ s.types.toList.filter s.isDeclared, t.kind = .scalar → t.name ≠ n) →
        s.generate o' = s.generate o) := by
  refine ⟨s.toList_generate, fun hx => Options.header_congr fun y hy => h.agrees hx hy,
    fun hx => Options.preamble_congr fun y hy => h.agrees hx hy,
    fun t hx => Options.declare_congr fun y hy => h.agrees hx hy, ?_, ?_⟩
  · rintro rfl
    have hpreamble : o'.preamble = o.preamble :=
      Options.preamble_congr fun y hy => h.agrees (fun ⟨n, _, hn⟩ => nomatch hn) hy
    refine s.forall₂_declarations ?_ (Options.forall₂_declare_of_objectStyle h)
    exact hpreamble ▸ List.forall₂_same.2 fun d _ => .inl rfl
  · rintro n rfl
    refine ⟨s.forall₂_declarations (Options.forall₂_preamble_of_mapping h)
      (Options.forall₂_declare_of_mapping h), fun hn hs => ?_⟩
    refine generate_congr (Options.header_congr fun y hy => h.agrees nofun hy) ?_
    refine s.declarations_congr h ?_ fun t ht hg => hs t ht hg.1 hg.2
    rintro ⟨m, hm, he⟩
    exact hn (Setting.mapping.inj he ▸ hm)

def datedText : String :=
  "scalar Date input Span \x7b from: Date \x7d type Query \x7b at(span: Span): Date \x7d"

theorem generate_datedText :
    ∃ s, ofText datedText = .ok s ∧
      s.declarations (.withScalar .default "Date" "string") ≠ s.declarations .default ∧
      List.Forall₂ (fun d d' => d' = d ∨
          Options.Remapped .default (.withScalar .default "Date" "string") "Date" d d')
        (s.declarations .default) (s.declarations (.withScalar .default "Date" "string")) ∧
      s.generate (.withScalar .default "Time" "number") = s.generate .default ∧
      s.declarations (.withNullable .default .input (.template "")) ≠ s.declarations .default ∧
      ∀ t, t.kind = .object →
        Options.declare (.withNullable .default .input (.template "")) t =
          Options.declare .default t := by
  have hdecided : ((ofText datedText).toOption.any fun s =>
      s.declarations (.withScalar .default "Date" "string") ≠ s.declarations .default ∧
      s.declarations (.withNullable .default .input (.template "")) ≠ s.declarations .default ∧
      ∀ t ∈ s.types.toList.filter s.isDeclared, t.kind = .scalar → t.name ≠ "Time") = true := by
    decide +kernel
  cases hs : ofText datedText with
  | error e =>
    rw [hs] at hdecided
    cases hdecided
  | ok s =>
    simp only [hs, Except.toOption, Option.any_some, decide_eq_true_eq] at hdecided
    obtain ⟨hdate, hinput, htime⟩ := hdecided
    obtain ⟨-, -, -, -, -, hmapping⟩ :=
      s.generate_of_only (Setting.only_withScalar .default "Date" "string")
    obtain ⟨-, -, -, -, -, hother⟩ :=
      s.generate_of_only (Setting.only_withScalar .default "Time" "number")
    obtain ⟨-, -, -, htypes, -⟩ :=
      s.generate_of_only (Setting.only_withNullable .default .input (.template ""))
    refine ⟨s, rfl, hdate, (hmapping _ rfl).1, (hother _ rfl).2 (by decide) htime, hinput, ?_⟩
    exact fun t ht => htypes t fun he : t.kind = .input => nomatch ht.symm.trans he

end Schema

end SchemaTypings
