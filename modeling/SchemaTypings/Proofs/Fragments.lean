import SchemaTypings.Proofs.AcceptedText
import SchemaTypings.Proofs.ExportedLines

namespace SchemaTypings

open Text TypeScript

/-- What stands between blank lines, each line without its first character. -/
def fragmentsOf (body : List Line) : List (List Line) :=
  (body.splitOn []).map (List.map List.tail)

section Decode

variable {ds : List Declaration}

theorem tail_indentLine {l : Line} (h : l ≠ []) : (indentLine l).tail = l := by
  cases l with
  | nil => exact absurd rfl h
  | cons c l => rfl

theorem indentLine_ne_nil {l : Line} (h : l ≠ []) : indentLine l ≠ [] := by
  cases l with
  | nil => exact absurd rfl h
  | cons c l => exact List.cons_ne_nil _ _

theorem fragmentsOf_bodyLines (h : ∀ d ∈ ds, d.layout.IsPlain) (hne : ds ≠ []) :
    fragmentsOf ((bodyLines ds).map indentLine) = ds.map Declaration.lines := by
  have hb : (bodyLines ds).map indentLine =
      [([] : Line)].intercalate (ds.map fun d => d.lines.map indentLine) := by
    rw [bodyLines, map_blocks rfl, List.map_map]
    rfl
  have hl : ∀ ls ∈ ds.map fun d => d.lines.map indentLine, [] ∉ ls := by
    refine List.forall_mem_map.2 fun d hd hm => ?_
    obtain ⟨l, hl, he⟩ := List.mem_map.1 hm
    exact indentLine_ne_nil (Declaration.isLine_lines (h d hd) l hl).2 he
  rw [fragmentsOf, hb, List.splitOn_intercalate [] hl (by simpa using hne), List.map_map]
  refine List.map_congr_left fun d hd => ?_
  refine (List.map_map ..).trans ((List.map_congr_left fun l hl => ?_).trans (List.map_id _))
  exact tail_indentLine (Declaration.isLine_lines (h d hd) l hl).2

theorem splitLines_text {d : Declaration} (h : d.layout.IsPlain) :
    splitLines d.text.toList = d.lines := by
  rw [Declaration.toList_text h]
  exact splitLines_joinLines (fun l hl => (Declaration.isLine_lines h l hl).1.1) d.lines_ne_nil

end Decode

def IsItem (ls : List Line) : Prop :=
  ∃ c l, ls = c ++ [l] ∧ (c = [] ∨ IsComment c) ∧ l ≠ []

/-- A header, at least one item below it, one tab further in, and a closing brace. -/
inductive IsBlock (word : Line) : List Line → Prop
  | block (head : Line) (items : List (List Line)) : word <+: head → items ≠ [] →
    (∀ i ∈ items, IsItem i) →
    IsBlock word ((head ++ ['\x7b']) :: items.flatten.map ('\t' :: ·) ++ [['\x7d']])

namespace Options

def RightSide (o : Options) (t : TypeDef) (right : String) : Prop :=
  match t.body with
  | .enum vs => vs ≠ [] ∧ right = " | ".intercalate (vs.map fun v => literal v.name)
  | .fields _ _ fs => fs.toList = [] ∧ right = "\x7b\x7d"
  | .scalar => right = o.scalarType t.name
  | .union ms => ms ≠ [] ∧ right = " | ".intercalate ms

/-- The lines of a declared type. -/
inductive IsTypeFragment (o : Options) (t : TypeDef) : List Line → Prop
  | line (comment : List Line) (head right : String) : comment = [] ∨ IsComment comment →
    exportWord <+: head.toList → o.RightSide t right → right ≠ "" →
    IsTypeFragment o t (comment ++ [(head ++ " " ++ right).toList])
  | block (comment block : List Line) : comment = [] ∨ IsComment comment →
    IsBlock exportWord block → IsTypeFragment o t (comment ++ block)

end Options

section Shapes

theorem exists_items (separator : String) {items : List Item} (hne : items ≠ [])
    (h : ∀ i ∈ items, i.line ≠ "") :
    ∃ parts, parts ≠ [] ∧ (∀ p ∈ parts, IsItem p) ∧ itemLines separator items = parts.flatten := by
  have hitem : ∀ (i : Item) s, i.line ≠ "" → IsItem (i.lines s) := fun i s hi =>
    ⟨commentLines i.description, _, rfl, isComment_commentLines _, by simp [hi]⟩
  induction items using itemLines.induct with
  | case1 => exact absurd rfl hne
  | case2 i =>
    obtain ⟨hi, -⟩ := List.forall_mem_cons.1 h
    refine ⟨[i.lines ""], List.cons_ne_nil _ _, List.forall_mem_singleton.2 (hitem i _ hi), ?_⟩
    simp [itemLines]
  | case3 i r hr ih =>
    obtain ⟨hi, hs⟩ := List.forall_mem_cons.1 h
    obtain ⟨parts, -, hp, he⟩ := ih (fun hn => hr hn) hs
    refine ⟨i.lines separator :: parts, List.cons_ne_nil _ _,
      List.forall_mem_cons.2 ⟨hitem i _ hi, hp⟩, ?_⟩
    rw [itemLines, he]
    · rfl
    · exact hr

theorem isBlock_lines {word : Line} {head separator : String} {items : List Item}
    (hw : word <+: head.toList) (hne : items ≠ []) (h : ∀ i ∈ items, i.line ≠ "") :
    IsBlock word (Layout.block head separator items).lines := by
  obtain ⟨parts, hparts, hp, he⟩ := exists_items separator hne h
  have hb := IsBlock.block (head ++ " ").toList parts
    (hw.trans (by rw [String.toList_append]; exact List.prefix_append _ _)) hparts hp
  rw [Layout.lines, he]
  simpa using hb

theorem word_of_append {word : Line} {a : String} (h : word <+: a.toList) (t : String) :
    word <+: (a ++ t).toList := by
  rw [String.toList_append]
  exact h.trans (List.prefix_append _ _)

theorem property_line_ne (p : Property) : p.item.line ≠ "" := by
  simp [Property.item]

theorem isBlock_group {r : NullableRenderer} {owner : String} {f : Field}
    (hf : f.isCallable = true) :
    IsBlock "interface ".toList (f.group r owner).lines := by
  have ha : f.arguments ≠ [] := by simpa [Field.isCallable] using hf
  apply isBlock_lines (word_of_append List.prefix_rfl _) (by simpa using ha)
  exact List.forall_mem_map.2 fun p _ => property_line_ne p

end Shapes

namespace Options

variable {o : Options} {t : TypeDef}

theorem isTypeFragment_assignment {right : String} (description : Option String)
    (h : o.RightSide t right) (hr : right ≠ "") :
    o.IsTypeFragment t (commentLines description ++
      [("export type " ++ t.name ++ " = " ++ right).toList]) := by
  have hw : exportWord <+: ("export type " ++ t.name ++ " =").toList :=
    word_of_append (word_of_append ⟨"type ".toList, rfl⟩ _) _
  have hl := IsTypeFragment.line (commentLines description) _ right
    (isComment_commentLines description) hw h hr
  have he : "export type " ++ t.name ++ " =" ++ " " ++ right =
      "export type " ++ t.name ++ " = " ++ right := by
    rw [show (" = " : String) = " =" ++ " " from rfl]
    simp only [String.append_assoc]
  exact he ▸ hl

theorem intercalate_ne_empty {separator : String} {l : List String} (hne : l ≠ [])
    (h : ∀ s ∈ l, s ≠ "") : separator.intercalate l ≠ "" := by
  cases l with
  | nil => exact absurd rfl hne
  | cons s l =>
    have hs := h s (List.mem_cons_self ..)
    cases l with
    | nil => simpa using hs
    | cons u l => simp [String.intercalate_cons_cons, hs]

theorem isTypeFragment_members {head separator : String} {members : List Member}
    (description : Option String) (hw : exportWord <+: head.toList)
    (h : members = [] → o.RightSide t "\x7b\x7d") :
    o.IsTypeFragment t (commentLines description ++
      (membersLayout head separator members).lines) := by
  unfold membersLayout
  split
  · next he =>
    have hl := IsTypeFragment.line (commentLines description) head "\x7b\x7d"
      (isComment_commentLines description) hw (h (List.isEmpty_iff.1 he)) (by decide)
    rwa [show head ++ " " ++ "\x7b\x7d" = head ++ " \x7b\x7d" from String.append_assoc] at hl
  · next he =>
    have hne : members ≠ [] := by simpa using he
    apply IsTypeFragment.block _ _ (isComment_commentLines description)
    refine isBlock_lines hw (by simpa using hne) (List.forall_mem_map.2 fun m _ => ?_)
    simp [Member.item]

theorem scalarType_ne_empty (ho : ∀ m ∈ o.scalars.toList, m.type ≠ "") (n : String) :
    o.scalarType n ≠ "" := by
  obtain h | ⟨m, hm, h⟩ | ⟨m, hm, h⟩ := o.mapping_of_scalarType n
  · rw [h]
    decide
  · have hb : ∀ m ∈ builtinMappings.toList, m.type ≠ "" := by decide
    exact h ▸ hb m hm
  · exact h ▸ ho m hm

theorem isTypeFragment_enum {vs : List EnumValue} (hb : t.body = .enum vs) (hne : vs ≠ []) :
    o.IsTypeFragment t (Declaration.enum o.enumStyle t.description t.name vs).lines := by
  cases o.enumStyle with
  | type =>
    refine isTypeFragment_assignment _ ?_ (intercalate_ne_empty (by simpa using hne) ?_)
    · rw [RightSide, hb]
      exact ⟨hne, rfl⟩
    · exact List.forall_mem_map.2 fun v _ => by simp [literal]
  | enum =>
    apply IsTypeFragment.block _ _ (isComment_commentLines _)
    refine isBlock_lines (word_of_append ⟨"const enum ".toList, rfl⟩ _) (by simpa using hne) ?_
    exact List.forall_mem_map.2 fun v _ => by simp [constantItem]

theorem isTypeFragment_container {c : Category} {is : List String} {fs : Table Field}
    (hb : t.body = .fields c is fs) :
    o.IsTypeFragment t (o.container c t.description t.name fs.toList).lines := by
  have hr : fs.toList.map (Field.member (o.nullable.get c) o.groupArguments t.name) = [] →
      o.RightSide t "\x7b\x7d" := fun he => by
    rw [RightSide, hb]
    exact ⟨List.map_eq_nil_iff.1 he, rfl⟩
  unfold container
  cases o.objectStyle with
  | interface =>
    exact isTypeFragment_members _ (word_of_append ⟨"interface ".toList, rfl⟩ _) hr
  | type =>
    have hw : exportWord <+: ("export type " ++ t.name ++ " =").toList :=
      word_of_append (word_of_append ⟨"type ".toList, rfl⟩ _) _
    exact isTypeFragment_members _ hw hr

/-- A type that keeps the rules of its kind makes groups with members and then one exported
declaration. -/
theorem declare_fragments (ho : ∀ m ∈ o.scalars.toList, m.type ≠ "") (hn : Sdl.AllNames t.names)
    {s : Schema} (hv : s.violationOf t = none) :
    ∃ groups d, o.declare t = groups ++ [d] ∧
      (∀ g ∈ groups, IsBlock "interface ".toList g.lines) ∧ o.IsTypeFragment t d.lines := by
  obtain ⟨-, hn⟩ := List.forall_mem_cons.1 hn
  unfold declare
  cases hb : t.body with
  | enum vs =>
    have hne : vs ≠ [] := by
      rintro rfl
      simp [Schema.violationOf, hb] at hv
    exact ⟨[], _, rfl, List.forall_mem_nil _, isTypeFragment_enum hb hne⟩
  | fields c is fs =>
    refine ⟨o.groups c t.name fs.toList, _, rfl, ?_, isTypeFragment_container hb⟩
    unfold groups
    split
    · exact List.forall_mem_map.2 fun f hf => isBlock_group (List.mem_filter.1 hf).2
    · exact List.forall_mem_nil _
  | scalar =>
    refine ⟨[], _, rfl, List.forall_mem_nil _, ?_⟩
    refine isTypeFragment_assignment _ ?_ (scalarType_ne_empty ho t.name)
    rw [RightSide, hb]
  | union ms =>
    have hne : ms ≠ [] := by
      rintro rfl
      simp [Schema.violationOf, hb] at hv
    rw [hb] at hn
    refine ⟨[], _, rfl, List.forall_mem_nil _, ?_⟩
    refine isTypeFragment_assignment _ ?_ (intercalate_ne_empty hne fun m hm => ?_)
    · rw [RightSide, hb]
      exact ⟨hne, rfl⟩
    · exact Sdl.ne_empty_of_isName (hn m hm)

end Options

/-- The body of a namespace is decoded by its blank lines and tabs: what it falls into are the
declarations of the schema, and these have the shapes above. -/
theorem fragments_of_generated {text out : String} {o : Options} (ho : o.IsPlain)
    (hs : ∀ m ∈ o.scalars.toList, m.type ≠ "") (h : generateFromText text o = .ok out) :
    ∃ s body, Schema.ofText text = .ok s ∧
      splitLines out.toList =
        (o.visibility.modifier ++ "namespace " ++ o.namespaceName ++ " \x7b").toList :: [] ::
          body ++ [[], ['\x7d']] ∧
      (∀ l ∈ body, l = [] ∨ l.head? = some '\t') ∧
      (fragmentsOf body).map joinLines = (s.declarations o).map (·.text.toList) ∧
      s.declarations o = o.preamble ++ (s.types.toList.filter s.isDeclared).flatMap o.declare ∧
      o.preamble.length = 6 ∧
      ∀ t ∈ s.types.toList.filter s.isDeclared, ∃ groups d, o.declare t = groups ++ [d] ∧
        (∀ g ∈ groups, IsBlock "interface ".toList (splitLines g.text.toList)) ∧
        o.IsTypeFragment t (splitLines d.text.toList) := by
  obtain ⟨s, hok, rfl⟩ := generateFromText_ok h
  obtain ⟨m, -, -, hv⟩ := Schema.ofText_ok hok
  have hplain := Schema.isPlain_declarations (Schema.ofText_isPlain hok) ho
  have hlines := Schema.splitLines_generate (Schema.ofText_isPlain hok) ho
  refine ⟨s, _, hok, hlines, ?_, ?_, rfl, rfl, fun t ht => ?_⟩
  · refine List.forall_mem_map.2 fun l _ => ?_
    cases l with
    | nil => exact .inl rfl
    | cons c l => exact .inr rfl
  · rw [fragmentsOf_bodyLines hplain (s.declarations_ne_nil o), List.map_map]
    exact List.map_congr_left fun x hx => (Declaration.toList_text (hplain x hx)).symm
  · have hmem := List.mem_of_mem_filter ht
    have hrule := List.findSome?_eq_none_iff.1 hv t hmem
    have hall := Schema.ofText_allNames hok t hmem
    obtain ⟨groups, d, hd, hg, hf⟩ := Options.declare_fragments hs hall hrule
    have htext : ∀ x ∈ o.declare t, splitLines x.text.toList = x.lines := fun x hx =>
      splitLines_text (hplain x (List.mem_append_right _ (List.mem_flatMap.2 ⟨t, ht, hx⟩)))
    refine ⟨groups, d, hd, fun g hm => ?_, ?_⟩
    · rw [htext g (hd ▸ List.mem_append_left _ hm)]
      exact hg g hm
    · rw [htext d (hd ▸ List.mem_append_right _ (List.mem_singleton_self d))]
      exact hf

def hostileDescription : String :=
  "\"\"\"\nexport type A = 1\n\n*/\n\"\"\" enum E { A } type Query { f(a: Int): E }"

theorem fragments_of_hostileDescription :
    ∃ out s body, generateFromText hostileDescription .default = .ok out ∧
      Schema.ofText hostileDescription = .ok s ∧
      splitLines out.toList = "declare namespace gql \x7b".toList :: [] :: body ++ [[], ['\x7d']] ∧
      (fragmentsOf body).map joinLines = (s.declarations .default).map (·.text.toList) := by
  have hok : (generateFromText hostileDescription .default).isOk = true := by decide +kernel
  obtain ⟨out, h⟩ := exists_of_isOk hok
  obtain ⟨s, body, hs, hl, -, hf, -⟩ :=
    fragments_of_generated Options.isPlain_default (List.forall_mem_nil _) h
  exact ⟨out, s, body, h, hs, hl, hf⟩

end SchemaTypings
