import SchemaTypings.Proofs.CommentLines
import SchemaTypings.TypeScript.Declaration

namespace SchemaTypings.TypeScript

open Text

/-- What stands in a block on a line of its own, below its comment. -/
structure Item where
  description : Option String
  line : String

namespace Item

def text (i : Item) : String :=
  indentContinuation (docComment i.description ++ i.line)

/-- The lines of an item, and what follows it on its last line. -/
def lines (i : Item) (separator : String) : List Line :=
  commentLines i.description ++ [(i.line ++ separator).toList]

end Item

def itemLines (separator : String) : List Item → List Line
  | [] => [[]]
  | [i] => i.lines ""
  | i :: r => i.lines separator ++ itemLines separator r

inductive Layout where
  | line (text : String)
  | block (head separator : String) (items : List Item)

namespace Layout

def text : Layout → String
  | line t => t
  | block head separator items => head ++ " " ++ blockText separator (items.map Item.text)

def lines : Layout → List Line
  | line t => [t.toList]
  | block head separator items =>
    (head ++ " \x7b").toList :: (itemLines separator items).map ('\t' :: ·) ++ [['\x7d']]

end Layout

def Property.item (p : Property) : Item :=
  ⟨p.description, p.name ++ ": " ++ p.type⟩

def Member.item (m : Member) : Item :=
  ⟨m.description, m.name ++ ": " ++ m.type.text⟩

def constantItem (v : EnumValue) : Item :=
  ⟨v.description, v.name ++ " = " ++ literal v.name⟩

theorem Property.text_item (p : Property) : p.item.text = p.text := by
  simp only [item, Item.text, text, String.append_assoc]

theorem Member.text_item (m : Member) : m.item.text = m.text := by
  simp only [item, Item.text, text, String.append_assoc]

theorem text_constantItem (v : EnumValue) : (constantItem v).text = constantText v := by
  simp only [constantItem, Item.text, constantText, String.append_assoc]

def membersLayout (head separator : String) (members : List Member) : Layout :=
  if members.isEmpty then .line (head ++ " \x7b\x7d")
  else .block head separator (members.map Member.item)

namespace Declaration

def description : Declaration → Option String
  | typeAlias description _ _ => description
  | callable => none
  | enum _ description _ _ => description
  | union description _ _ => description
  | group _ _ => none
  | container _ description _ _ => description

def layout : Declaration → Layout
  | typeAlias _ name type => .line ("export type " ++ name ++ " = " ++ type)
  | callable =>
    .block ("interface " ++ callableName ++ "<P, R>") "" [⟨none, "(a: P): R"⟩, ⟨none, "args: P"⟩]
  | enum .type _ name values =>
    .line ("export type " ++ name ++ " = " ++
      " | ".intercalate (values.map fun v => literal v.name))
  | enum .enum _ name values =>
    .block ("export const enum " ++ name) "," (values.map constantItem)
  | union _ name members => .line ("export type " ++ name ++ " = " ++ " | ".intercalate members)
  | group name properties => .block ("interface " ++ name) "" (properties.map Property.item)
  | container .interface _ name members => membersLayout ("export interface " ++ name) "" members
  | container .type _ name members => membersLayout ("export type " ++ name ++ " =") "," members

def lines (d : Declaration) : List Line :=
  commentLines d.description ++ d.layout.lines

theorem text_membersLayout (head separator : String) (members : List Member) :
    (membersLayout head separator members).text = head ++ " " ++ membersText separator members := by
  unfold membersLayout membersText
  split
  · simp only [Layout.text, String.append_assoc]
    rfl
  · have hm : (members.map Member.item).map Item.text = members.map Member.text := by
      rw [List.map_map]
      exact congrArg (List.map · members) (funext Member.text_item)
    rw [Layout.text, hm]

theorem text_eq (d : Declaration) : d.text = docComment d.description ++ d.layout.text := by
  cases d with
  | typeAlias | union => simp only [text, description, layout, Layout.text, String.append_assoc]
  | callable => rfl
  | enum style description name values =>
    cases style with
    | type => simp only [text, Declaration.description, layout, Layout.text, String.append_assoc]
    | enum =>
      have hv : (values.map constantItem).map Item.text = values.map constantText := by
        rw [List.map_map]
        exact congrArg (List.map · values) (funext text_constantItem)
      simp only [text, Declaration.description, layout, Layout.text, hv, String.append_assoc]
  | group name properties =>
    have hp : (properties.map Property.item).map Item.text = properties.map Property.text := by
      rw [List.map_map]
      exact congrArg (List.map · properties) (funext Property.text_item)
    simp only [text, Declaration.description, layout, Layout.text, hp, String.append_assoc]
    exact String.empty_append.symm
  | container style =>
    cases style <;> simp only [text, description, layout, text_membersLayout, String.append_assoc]
    rfl

end Declaration

theorem newline_not_mem_commentLines (d : Option String) : ∀ l ∈ commentLines d, '\n' ∉ l := by
  obtain h | h := isComment_commentLines d
  · rw [h]
    exact List.forall_mem_nil _
  · exact fun l hl => (h.isLine l hl).1

theorem toList_indentContinuation {s : String} {ls : List Line} (hs : s.toList = joinLines ls)
    (h : ∀ l ∈ ls, '\n' ∉ l) :
    (indentContinuation s).toList = ['\n', '\t'].intercalate ls := by
  have hl : ∀ {l : Line}, '\n' ∉ l →
      l.flatMap (fun c => if c = '\n' then ['\n', '\t'] else [c]) = l := by
    intro l hl
    refine (List.flatMap_congr fun c hc => ?_).trans (List.flatMap_singleton' l)
    have hne : c ≠ '\n' := fun he => hl (he ▸ hc)
    exact if_neg hne
  rw [indentContinuation, String.toList_ofList, hs]
  clear hs
  induction ls with
  | nil => rfl
  | cons l ls ih =>
    obtain ⟨hn, hr⟩ := List.forall_mem_cons.1 h
    by_cases hne : ls = []
    · subst hne
      simpa [joinLines] using hl hn
    · rw [joinLines_cons l hne, List.flatMap_append, List.flatMap_cons, hl hn, ih hr,
        List.intercalate_cons_of_ne_nil hne]
      simp

namespace Item

theorem toList_text {i : Item} (h : SingleLine i.line) :
    i.text.toList = ['\n', '\t'].intercalate (i.lines "") := by
  have hs : (docComment i.description ++ i.line).toList = joinLines (i.lines "") := by
    rw [String.toList_append, docComment_eq, String.toList_ofList, lines, joinLines,
      intercalate_append _ _ (List.cons_ne_nil _ _)]
    simp
  refine toList_indentContinuation hs fun l hl => ?_
  obtain hl | hl := List.mem_append.1 hl
  · exact newline_not_mem_commentLines _ l hl
  · obtain rfl := List.mem_singleton.1 hl
    simpa using h.1

end Item

theorem itemLines_ne_nil (separator : String) (items : List Item) :
    itemLines separator items ≠ [] := by
  induction items using itemLines.induct with
  | case1 => exact List.cons_ne_nil _ _
  | case2 i => simp [itemLines, Item.lines]
  | case3 i r hr ih => simp [itemLines, ih]

theorem intercalate_itemLines {separator : String} {items : List Item}
    (h : ∀ i ∈ items, SingleLine i.line) :
    (separator ++ "\n\t").toList.intercalate (items.map fun i => i.text.toList) =
      ['\n', '\t'].intercalate (itemLines separator items) := by
  induction items using itemLines.induct with
  | case1 => rfl
  | case2 i =>
    obtain ⟨hi, -⟩ := List.forall_mem_cons.1 h
    simpa [itemLines] using Item.toList_text hi
  | case3 i r hr ih =>
    obtain ⟨hi, hs⟩ := List.forall_mem_cons.1 h
    have hm : r.map (fun i => i.text.toList) ≠ [] := by simpa using hr
    have hn : separator.toList ++ ['\n', '\t'] = (separator ++ "\n\t").toList := by
      rw [String.toList_append]
      rfl
    have he : ['\n', '\t'].intercalate (i.lines "") = (commentLines i.description).flatMap
        (· ++ ['\n', '\t']) ++ i.line.toList := by
      simp [Item.lines, intercalate_append]
    rw [List.map_cons, List.intercalate_cons_of_ne_nil hm, ih hs, Item.toList_text hi, he, ← hn,
      itemLines, intercalate_append _ _ (itemLines_ne_nil separator r)]
    · simp [Item.lines]
    · exact hr

theorem joinLines_tabbed {ls : List Line} (h : ls ≠ []) :
    joinLines (ls.map ('\t' :: ·)) = '\t' :: ['\n', '\t'].intercalate ls := by
  induction ls with
  | nil => exact absurd rfl h
  | cons l ls ih =>
    by_cases hne : ls = []
    · subst hne
      simp [joinLines]
    · have hm : ls.map ('\t' :: ·) ≠ [] := by simpa using hne
      rw [List.map_cons, joinLines_cons _ hm, ih hne, List.intercalate_cons_of_ne_nil hne]
      simp

theorem forall_mem_itemLines {P : Line → Prop} {separator : String} {items : List Item}
    (hnil : P []) (h : ∀ i ∈ items, ∀ s ∈ ["", separator], ∀ l ∈ i.lines s, P l) :
    ∀ l ∈ itemLines separator items, P l := by
  induction items using itemLines.induct with
  | case1 => exact List.forall_mem_singleton.2 hnil
  | case2 i => exact h i (List.mem_cons_self ..) "" (by simp)
  | case3 i r hr ih =>
    obtain ⟨hi, hs⟩ := List.forall_mem_cons.1 h
    rw [itemLines]
    · exact List.forall_mem_append.2 ⟨hi separator (by simp), ih hs⟩
    · exact hr

theorem Item.isLine_lines {i : Item} {separator : String} (hi : SingleLine i.line)
    (hs : SingleLine separator) : ∀ l ∈ i.lines separator, IsLine l := by
  refine List.forall_mem_append.2 ⟨?_, List.forall_mem_singleton.2 (hi.append hs).isLine⟩
  obtain h | h := isComment_commentLines i.description
  · rw [h]
    exact List.forall_mem_nil _
  · exact h.isLine

/-- Everything but the descriptions is without line breaks. -/
def Layout.IsPlain : Layout → Prop
  | line t => SingleLine t ∧ t ≠ ""
  | block head separator items =>
    SingleLine head ∧ SingleLine separator ∧ ∀ i ∈ items, SingleLine i.line

namespace Layout

variable {l : Layout}

theorem toList_text (h : l.IsPlain) : l.text.toList = joinLines l.lines := by
  cases l with
  | line t => exact List.intercalate_singleton.symm
  | block head separator items =>
    have hn := itemLines_ne_nil separator items
    have hm : (itemLines separator items).map ('\t' :: ·) ≠ [] := by simpa using hn
    have hj : joinLines ((itemLines separator items).map ('\t' :: ·) ++ [['\x7d']]) =
        joinLines ((itemLines separator items).map ('\t' :: ·)) ++ ['\n', '\x7d'] := by
      rw [joinLines, intercalate_append _ _ (List.cons_ne_nil _ _), flatMap_append_eq _ hm]
      simp [joinLines]
    rw [lines, List.cons_append, joinLines_cons _ (by simp), hj, joinLines_tabbed hn,
      ← intercalate_itemLines h.2.2]
    simp [text, blockText, String.toList_intercalate, Function.comp_def]

theorem isLine_lines (h : l.IsPlain) : ∀ m ∈ l.lines, IsLine m ∧ m ≠ [] := by
  cases l with
  | line t => exact List.forall_mem_singleton.2 ⟨h.1.isLine, by simpa using h.2⟩
  | block head separator items =>
    obtain ⟨hh, hs, hi⟩ := h
    have hempty : SingleLine "" := by simp [SingleLine]
    have hl : ∀ m ∈ itemLines separator items, IsLine m := by
      refine forall_mem_itemLines ⟨by simp, by simp⟩ fun i him s hsm => ?_
      apply Item.isLine_lines (hi i him)
      obtain rfl | hsm := List.mem_cons.1 hsm
      · exact hempty
      · exact List.mem_singleton.1 hsm ▸ hs
    have hopen : SingleLine " \x7b" := by simp [SingleLine]
    refine List.forall_mem_append.2 ⟨List.forall_mem_cons.2 ⟨⟨?_, by simp⟩, ?_⟩, ?_⟩
    · exact (hh.append hopen).isLine
    · exact List.forall_mem_map.2 fun m hm =>
        ⟨(hl m hm).cons (by decide) (by decide), List.cons_ne_nil _ _⟩
    · exact List.forall_mem_singleton.2 ⟨⟨by decide, by decide⟩, by decide⟩

theorem lines_ne_nil (l : Layout) : l.lines ≠ [] := by
  cases l <;> simp [lines]

end Layout

namespace Declaration

variable {d : Declaration}

theorem lines_ne_nil (d : Declaration) : d.lines ≠ [] :=
  List.append_ne_nil_of_right_ne_nil _ d.layout.lines_ne_nil

theorem toList_text (h : d.layout.IsPlain) : d.text.toList = joinLines d.lines := by
  rw [text_eq, String.toList_append, docComment_eq, String.toList_ofList, Layout.toList_text h]
  exact (intercalate_append _ _ d.layout.lines_ne_nil).symm

theorem isLine_lines (h : d.layout.IsPlain) : ∀ l ∈ d.lines, IsLine l ∧ l ≠ [] := by
  refine List.forall_mem_append.2 ⟨fun l hl => ?_, Layout.isLine_lines h⟩
  have hc := (isComment_commentLines d.description).resolve_left (List.ne_nil_of_mem hl)
  refine ⟨hc.isLine l hl, ?_⟩
  rintro rfl
  obtain h | h := hc.start [] hl <;> cases h

end Declaration

end SchemaTypings.TypeScript
