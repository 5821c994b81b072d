import SchemaTypings.Proofs.CommentRemoval
import SchemaTypings.Proofs.ExportedLines
import SchemaTypings.Proofs.PlainDeclarations
import SchemaTypings.Proofs.Tables

namespace SchemaTypings

open Text TypeScript

section Undescribed

def EnumValue.undescribed (v : EnumValue) : EnumValue :=
  { v with description := none }

def Argument.undescribed (a : Argument) : Argument :=
  { a with description := none }

def Field.undescribed (f : Field) : Field :=
  { f with description := none, arguments := f.arguments.map Argument.undescribed }

def Body.undescribed : Body → Body
  | .enum vs => .enum (vs.map EnumValue.undescribed)
  | .fields c is fs => .fields c is (fs.map Field.undescribed fun _ => rfl)
  | .scalar => .scalar
  | .union ms => .union ms

def TypeDef.undescribed (d : TypeDef) : TypeDef :=
  { d with description := none, body := d.body.undescribed }

def Schema.undescribed (s : Schema) : Schema :=
  { s with types := s.types.map TypeDef.undescribed fun _ => rfl }

theorem Field.names_undescribed (f : Field) : f.undescribed.names = f.names := by
  simp only [names, undescribed, List.flatMap_map]
  rfl

theorem TypeDef.names_undescribed (d : TypeDef) : d.undescribed.names = d.names := by
  have hb : d.body.undescribed.names = d.body.names := by
    cases d.body with
    | enum vs => exact List.map_map ..
    | fields c is fs =>
      simp only [Body.undescribed, Body.names, Table.map, List.flatMap_map, Field.names_undescribed]
    | scalar | union ms => rfl
  exact congrArg (d.name :: ·) hb

theorem Schema.names_undescribed (s : Schema) : s.undescribed.names = s.names := by
  simp only [names, undescribed, Table.map, List.flatMap_map, TypeDef.names_undescribed]

end Undescribed

namespace TypeScript

def Item.undescribed (i : Item) : Item :=
  ⟨none, i.line⟩

def Layout.undescribed : Layout → Layout
  | line t => line t
  | block head separator items => block head separator (items.map Item.undescribed)

namespace Declaration

def undescribed : Declaration → Declaration
  | typeAlias _ name type => typeAlias none name type
  | callable => callable
  | enum style _ name values => enum style none name (values.map EnumValue.undescribed)
  | union _ name members => union none name members
  | group name properties => group name (properties.map fun p => { p with description := none })
  | container style _ name members =>
    container style none name (members.map fun m => { m with description := none })

theorem description_undescribed (x : Declaration) : x.undescribed.description = none := by
  cases x <;> rfl

theorem layout_undescribed (x : Declaration) : x.undescribed.layout = x.layout.undescribed := by
  have hm : ∀ head separator members, membersLayout head separator
      (members.map fun m : Member => { m with description := none }) =
        (membersLayout head separator members).undescribed := by
    intro head separator members
    cases members with
    | nil => rfl
    | cons m r => simp [membersLayout, Layout.undescribed, Function.comp_def, Member.item,
        Item.undescribed]
  cases x with
  | typeAlias | callable | union => rfl
  | enum style description name values =>
    cases style with
    | type => simp only [undescribed, layout, Layout.undescribed, List.map_map]; rfl
    | enum => simp only [undescribed, layout, Layout.undescribed, List.map_map]; rfl
  | group name properties =>
    simp only [undescribed, layout, Layout.undescribed, List.map_map]
    rfl
  | container style description name members =>
    cases style with
    | interface => exact hm _ _ _
    | type => exact hm _ _ _

end Declaration

def Layout.items : Layout → List Item
  | line _ => []
  | block _ _ items => items

/-- Lines open no comment, unless they belong to a comment. -/
structure Layout.IsQuiet (l : Layout) : Prop where
  first : opensComment l.first = false
  items : ∀ i ∈ l.items, ∀ s : String, opensComment (i.line ++ s).toList = false

theorem Item.cleans_lines {i : Item} {separator : String}
    (h : opensComment (i.line ++ separator).toList = false) :
    Cleans (i.lines separator) (i.undescribed.lines separator) :=
  (Cleans.commentLines i.description).append (Cleans.line h)

theorem cleans_itemLines (separator : String) {items : List Item}
    (h : ∀ i ∈ items, ∀ s : String, opensComment (i.line ++ s).toList = false) :
    Cleans (itemLines separator items) (itemLines separator (items.map Item.undescribed)) := by
  induction items using itemLines.induct with
  | case1 => exact Cleans.line rfl
  | case2 i => exact Item.cleans_lines (h i (List.mem_cons_self ..) "")
  | case3 i r hr ih =>
    obtain ⟨hi, hs⟩ := List.forall_mem_cons.1 h
    have hm : r.map Item.undescribed = [] → False := fun he => hr (List.map_eq_nil_iff.1 he)
    rw [List.map_cons, itemLines, itemLines]
    · exact (Item.cleans_lines (hi separator)).append (ih hs)
    · exact hm
    · exact hr

theorem Layout.cleans_lines {l : Layout} (h : l.IsQuiet) : Cleans l.lines l.undescribed.lines := by
  cases l with
  | line t => exact Cleans.line h.first
  | block head separator items =>
    have hi := (cleans_itemLines separator h.items).map KeepsComments.tab
    exact (Cleans.cons h.first hi).append (Cleans.line rfl)

theorem Declaration.cleans_lines {x : Declaration} (h : x.layout.IsQuiet) :
    Cleans x.lines x.undescribed.lines := by
  rw [lines, lines, description_undescribed, layout_undescribed]
  exact (Cleans.commentLines x.description).append (Layout.cleans_lines h)

theorem opensComment_of_word {c : Char} {w l : Line} (h : c :: w <+: l) (ht : c ≠ '\t')
    (hs : c ≠ '/') : opensComment l = false := by
  obtain ⟨t, rfl⟩ := h
  exact opensComment_of_name (n := []) List.not_mem_nil ht hs (w ++ t)

theorem Declaration.opensComment_first (x : Declaration) : opensComment x.layout.first = false := by
  cases hn : x.exportedName? with
  | some n =>
    obtain ⟨w, -, r, hf⟩ := first_of_exported hn
    have hp : exportWord <+: x.layout.first :=
      hf ▸ ⟨w ++ n.toList ++ ' ' :: r, by simp only [List.append_assoc]⟩
    exact opensComment_of_word hp (by decide) (by decide)
  | none =>
    cases x with
    | callable => decide
    | group name properties =>
      have hp : "interface ".toList <+: (Declaration.group name properties).layout.first := by
        rw [layout, Layout.first, String.toList_append, String.toList_append, List.append_assoc]
        exact List.prefix_append _ _
      exact opensComment_of_word hp (by decide) (by decide)
    | typeAlias | enum | union | container => cases hn

end TypeScript

section Quiet

theorem opensComment_item {n separator : String} (h : '/' ∉ n.toList) {c : Char} {r : Line}
    (hsep : separator.toList = c :: r) (ht : c ≠ '\t') (hs : c ≠ '/') (t s : String) :
    opensComment (n ++ separator ++ t ++ s).toList = false := by
  rw [String.toList_append, String.toList_append, String.toList_append, hsep, List.append_assoc,
    List.append_assoc, List.cons_append]
  exact opensComment_of_name h ht hs _

theorem isQuiet_of_items {x : Declaration}
    (h : ∀ i ∈ x.layout.items, ∀ s : String, opensComment (i.line ++ s).toList = false) :
    x.layout.IsQuiet :=
  ⟨x.opensComment_first, h⟩

theorem isQuiet_group {r : NullableRenderer} {owner : String} {f : Field}
    (h : ∀ n ∈ f.names, '/' ∉ n.toList) : (f.group r owner).layout.IsQuiet := by
  refine isQuiet_of_items (List.forall_mem_map.2 (List.forall_mem_map.2 fun a ha s => ?_))
  have hn : '/' ∉ a.name.toList := h _ (Field.names_argument ha _ (by simp [Argument.names]))
  exact opensComment_item hn rfl (by decide) (by decide) _ s

theorem isQuiet_container {o : Options} {c : Category} {description : Option String} {n : String}
    {fs : List Field} (h : ∀ f ∈ fs, '/' ∉ f.name.toList) :
    (o.container c description n fs).layout.IsQuiet := by
  have hm : ∀ m ∈ fs.map (Field.member (o.nullable.get c) o.groupArguments n), ∀ s : String,
      opensComment (m.item.line ++ s).toList = false :=
    List.forall_mem_map.2 fun f hf s => opensComment_item (h f hf) rfl (by decide) (by decide) _ s
  have hi : ∀ head separator, ∀ i ∈ (membersLayout head separator
      (fs.map (Field.member (o.nullable.get c) o.groupArguments n))).items, ∀ s : String,
        opensComment (i.line ++ s).toList = false := by
    intro head separator
    unfold membersLayout
    split
    · exact List.forall_mem_nil _
    · exact List.forall_mem_map.2 hm
  apply isQuiet_of_items
  unfold Options.container
  cases o.objectStyle with
  | interface => exact hi _ _
  | type => exact hi _ _

theorem isQuiet_declare (o : Options) {t : TypeDef} (h : ∀ n ∈ t.names, '/' ∉ n.toList) :
    ∀ x ∈ o.declare t, x.layout.IsQuiet := by
  obtain ⟨-, h⟩ := List.forall_mem_cons.1 h
  unfold Options.declare
  cases hb : t.body with
  | enum vs =>
    rw [hb] at h
    refine List.forall_mem_singleton.2 (isQuiet_of_items ?_)
    cases o.enumStyle with
    | type => exact List.forall_mem_nil _
    | enum =>
      refine List.forall_mem_map.2 fun v hv s => ?_
      exact opensComment_item (h _ (List.mem_map_of_mem hv)) rfl (by decide) (by decide) _ s
  | fields c is fs =>
    rw [hb] at h
    have hf : ∀ f ∈ fs.toList, ∀ n ∈ f.names, '/' ∉ n.toList := fun f hm n hn =>
      h n (List.mem_flatMap.2 ⟨f, hm, hn⟩)
    refine List.forall_mem_append.2 ⟨?_, List.forall_mem_singleton.2 ?_⟩
    · unfold Options.groups
      split
      · exact List.forall_mem_map.2 fun f hm => isQuiet_group (hf f (List.mem_of_mem_filter hm))
      · exact List.forall_mem_nil _
    · exact isQuiet_container fun f hm => hf f hm _ (List.mem_cons_self ..)
  | scalar => exact List.forall_mem_singleton.2 (isQuiet_of_items (List.forall_mem_nil _))
  | union ms => exact List.forall_mem_singleton.2 (isQuiet_of_items (List.forall_mem_nil _))

theorem isQuiet_preamble (o : Options) : ∀ x ∈ o.preamble, x.layout.IsQuiet := by
  refine List.forall_mem_append.2 ⟨List.forall_mem_map.2 fun n _ => ?_, ?_⟩
  · exact isQuiet_of_items (List.forall_mem_nil _)
  · refine List.forall_mem_singleton.2 (isQuiet_of_items ?_)
    have hp : ∀ a s : String, a.toList <+: (a ++ s).toList := fun a s => by
      rw [String.toList_append]
      exact List.prefix_append _ _
    refine List.forall_mem_cons.2 ⟨fun s => ?_, List.forall_mem_singleton.2 fun s => ?_⟩
    · exact opensComment_of_word (hp "(a: P): R" s) (by decide) (by decide)
    · exact opensComment_of_word (hp "args: P" s) (by decide) (by decide)

end Quiet

namespace Field

variable (f : Field) (r : NullableRenderer) (owner : String)

theorem isCallable_undescribed : f.undescribed.isCallable = f.isCallable := by
  simp [isCallable, undescribed]

theorem group_undescribed : f.undescribed.group r owner = (f.group r owner).undescribed := by
  simp only [group, undescribed, Declaration.undescribed, List.map_map]
  rfl

theorem argumentsType_undescribed (grouped : Bool) :
    f.undescribed.argumentsType r grouped owner = f.argumentsType r grouped owner := by
  simp only [argumentsType, undescribed, List.map_map]
  rfl

theorem member_undescribed (grouped : Bool) :
    f.undescribed.member r grouped owner =
      { f.member r grouped owner with description := none } := by
  simp only [member, isCallable_undescribed, argumentsType_undescribed]
  rfl

end Field

namespace Options

variable (o : Options)

theorem groups_undescribed (c : Category) (owner : String) (fs : List Field) :
    o.groups c owner (fs.map Field.undescribed) =
      (o.groups c owner fs).map Declaration.undescribed := by
  unfold groups
  split
  · have hc : Field.isCallable ∘ Field.undescribed = Field.isCallable :=
      funext Field.isCallable_undescribed
    rw [List.filter_map, hc, List.map_map, List.map_map]
    exact List.map_congr_left fun f _ => f.group_undescribed _ owner
  · rfl

theorem container_undescribed (c : Category) (description : Option String) (n : String)
    (fs : List Field) :
    o.container c none n (fs.map Field.undescribed) =
      (o.container c description n fs).undescribed := by
  simp only [container, Declaration.undescribed, List.map_map]
  refine congrArg _ (List.map_congr_left fun f _ => ?_)
  exact f.member_undescribed _ n _

theorem declare_undescribed (t : TypeDef) :
    o.declare t.undescribed = (o.declare t).map Declaration.undescribed := by
  obtain ⟨n, description, origin, body⟩ := t
  cases body with
  | enum vs | scalar | union ms => rfl
  | fields c is fs =>
    have hg := o.groups_undescribed c n fs.toList
    have hc := o.container_undescribed c description n fs.toList
    simp only [declare, TypeDef.undescribed, Body.undescribed, declareFields, Table.map,
      List.map_append, List.map_singleton, hg, hc]

theorem opensComment_header : opensComment o.header = false := by
  have hp : (o.visibility.modifier ++ "namespace ").toList <+: o.header :=
    ⟨(o.namespaceName ++ " \x7b").toList, by simp only [header, String.toList_append,
      List.append_assoc]⟩
  cases hv : o.visibility <;> rw [hv] at hp <;>
    exact opensComment_of_word hp (by decide) (by decide)

end Options

namespace Schema

variable {s s' : Schema} {o : Options}

theorem declarations_undescribed (s : Schema) (o : Options) :
    s.undescribed.declarations o = (s.declarations o).map Declaration.undescribed := by
  have hp : o.preamble.map Declaration.undescribed = o.preamble := rfl
  have hf : s.undescribed.types.toList.filter s.undescribed.isDeclared =
      (s.types.toList.filter s.isDeclared).map TypeDef.undescribed := List.filter_map
  simp only [declarations, hf, List.map_append, hp, List.flatMap_map, List.map_flatMap,
    o.declare_undescribed]

theorem isQuiet_declarations (h : ∀ n ∈ s.names, '/' ∉ n.toList) :
    ∀ x ∈ s.declarations o, x.layout.IsQuiet := by
  refine List.forall_mem_append.2 ⟨isQuiet_preamble o, fun x hx => ?_⟩
  obtain ⟨t, ht, hx⟩ := List.mem_flatMap.1 hx
  refine isQuiet_declare o (fun n hn => h n ?_) x hx
  exact List.mem_flatMap.2 ⟨t, List.mem_of_mem_filter ht, hn⟩

theorem cleans_generate (hs : s.IsPlain) (ho : o.IsPlain) (h : ∀ n ∈ s.names, '/' ∉ n.toList) :
    Cleans (splitLines (s.generate o).toList) (splitLines (s.undescribed.generate o).toList) := by
  have hs' : s.undescribed.IsPlain := fun n hn => hs n (s.names_undescribed ▸ hn)
  have hb : Cleans (bodyLines (s.declarations o)) (bodyLines (s.undescribed.declarations o)) := by
    rw [declarations_undescribed, bodyLines, bodyLines, List.map_map]
    exact Cleans.blocks fun x hx => Declaration.cleans_lines (isQuiet_declarations h x hx)
  rw [splitLines_generate hs ho, splitLines_generate hs' ho]
  have hc : Cleans [[], ['\x7d']] [[], ['\x7d']] := Cleans.cons rfl (Cleans.line rfl)
  have hi := (hb.map KeepsComments.indentLine).append hc
  exact Cleans.cons o.opensComment_header (Cleans.cons rfl hi)

theorem withoutComments_eq (hs : s.IsPlain) (ho : o.IsPlain) (h : ∀ n ∈ s.names, '/' ∉ n.toList) :
    withoutComments (s.generate o) = s.undescribed.generate o := by
  rw [withoutComments, (cleans_generate hs ho h).kept, joinLines_splitLines, String.ofList_toList]

/-- Schemas that differ only in their descriptions have the same text but for comments, and this is
the text of the schema without descriptions. -/
theorem withoutComments_generate (ho : o.IsPlain)
    (hs : ∀ n ∈ s.names, SingleLine n ∧ '/' ∉ n.toList) (h : s'.undescribed = s.undescribed) :
    withoutComments (s'.generate o) = withoutComments (s.generate o) ∧
      withoutComments (s.generate o) = s.undescribed.generate o := by
  have hn : s'.names = s.names := by
    rw [← s'.names_undescribed, h, s.names_undescribed]
  have hs' : ∀ n ∈ s'.names, SingleLine n ∧ '/' ∉ n.toList := hn ▸ hs
  have he := withoutComments_eq (fun n hm => (hs n hm).1) ho fun n hm => (hs n hm).2
  have he' := withoutComments_eq (fun n hm => (hs' n hm).1) ho fun n hm => (hs' n hm).2
  exact ⟨by rw [he', he, h], he⟩

/-- An enum that is described by a text, like its value. -/
def describedEnum (text : String) : Schema where
  roots := ⟨some "E", none, none⟩
  types := .ofList [⟨"E", some text, none, .enum [⟨"A", some text⟩]⟩]

theorem withoutComments_describedEnum :
    (describedEnum "/* */ export type A = 1").undescribed = (describedEnum "\n*/ A").undescribed ∧
      withoutComments ((describedEnum "/* */ export type A = 1").generate .default) =
        withoutComments ((describedEnum "\n*/ A").generate .default) ∧
      withoutComments ((describedEnum "\n*/ A").generate .default) =
        (describedEnum "\n*/ A").undescribed.generate .default := by
  have hu : (describedEnum "/* */ export type A = 1").undescribed =
      (describedEnum "\n*/ A").undescribed := by decide +kernel
  have hn : ∀ n ∈ (describedEnum "\n*/ A").names, SingleLine n ∧ '/' ∉ n.toList := by
    decide +kernel
  exact ⟨hu, withoutComments_generate Options.isPlain_default hn hu⟩

end Schema

end SchemaTypings
