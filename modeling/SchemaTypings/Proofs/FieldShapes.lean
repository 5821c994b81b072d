import Mathlib.Data.List.ModifyLast
import SchemaTypings.Proofs.Descriptions
import SchemaTypings.Proofs.Fragments
import SchemaTypings.Proofs.TypeReading

namespace SchemaTypings

open Text TypeScript
open Sdl (IsWord)

theorem map_eq_of_map_eq {α β γ : Type} {f f' : α → β} {g : α → γ} {l l' : List α}
    (h : ∀ a ∈ l, ∀ b ∈ l', f a = f' b → g a = g b) (hf : l.map f = l'.map f') :
    l.map g = l'.map g := by
  induction l generalizing l' with
  | nil => rw [List.map_eq_nil_iff.1 hf.symm]
  | cons a l ih =>
    cases l' with
    | nil => cases hf
    | cons b l' =>
      obtain ⟨hab, hl⟩ := List.cons.inj hf
      have hhead : g a = g b := h a (List.mem_cons_self ..) b (List.mem_cons_self ..) hab
      have htail : l.map g = l'.map g :=
        ih (fun c hc d hd => h c (List.mem_cons_of_mem _ hc) d (List.mem_cons_of_mem _ hd)) hl
      rw [List.map_cons, List.map_cons, hhead, htail]

namespace TypeScript

section Lines

variable {x y : Declaration} {head head' separator : String} {is js : List Item}
  {ms ns : List Member}

theorem Declaration.lines_undescribed (x : Declaration) :
    x.undescribed.lines = x.layout.undescribed.lines := by
  rw [lines, description_undescribed, layout_undescribed]
  rfl

/-- A text tells its lines, and which of them are comments. -/
structure Layout.IsReadable (l : Layout) : Prop where
  plain : l.IsPlain
  quiet : l.IsQuiet

theorem Declaration.undescribed_of_text (hx : x.layout.IsReadable) (hy : y.layout.IsReadable)
    (h : x.text = y.text) : x.layout.undescribed.lines = y.layout.undescribed.lines := by
  have hlines : x.lines = y.lines := by
    rw [← splitLines_text hx.plain, h, splitLines_text hy.plain]
  rw [← x.lines_undescribed, ← y.lines_undescribed, ← (cleans_lines hx.quiet).kept, hlines,
    (cleans_lines hy.quiet).kept]

/-- With a separator behind the last item as well, every item is a line of the same form. -/
theorem modifyLast_itemLines (hi : is ≠ []) :
    (itemLines separator (is.map Item.undescribed)).modifyLast (· ++ separator.toList) =
      is.map fun i => i.line.toList ++ separator.toList := by
  induction is with
  | nil => exact absurd rfl hi
  | cons i is ih =>
    cases is with
    | nil =>
      have hlines : itemLines separator ([i].map Item.undescribed) = [i.line.toList] :=
        congrArg (fun s : String => [s.toList]) String.append_empty
      rw [hlines]
      exact List.modifyLast_concat _ _ []
    | cons j is =>
      have hlines : itemLines separator ((i :: j :: is).map Item.undescribed) =
          [i.line.toList ++ separator.toList] ++
            itemLines separator ((j :: is).map Item.undescribed) :=
        congrArg (· :: _) String.toList_append
      rw [hlines, List.modifyLast_append_of_right_ne_nil _ _ _ (itemLines_ne_nil _ _),
        ih (List.cons_ne_nil _ _)]
      rfl

theorem items_of_itemLines (hi : is ≠ []) (hj : js ≠ [])
    (h : itemLines separator (is.map Item.undescribed) =
      itemLines separator (js.map Item.undescribed)) :
    is.map Item.line = js.map Item.line := by
  have hlines : is.map (fun i => i.line.toList ++ separator.toList) =
      js.map fun j => j.line.toList ++ separator.toList := by
    rw [← modifyLast_itemLines hi, h, modifyLast_itemLines hj]
  apply map_eq_of_map_eq _ hlines
  intro i _ j _ he
  exact String.toList_inj.1 (List.append_cancel_right he)

theorem items_of_block (hi : is ≠ []) (hj : js ≠ [])
    (h : (Layout.block head separator is).undescribed.lines =
      (Layout.block head' separator js).undescribed.lines) :
    head = head' ∧ is.map Item.line = js.map Item.line := by
  obtain ⟨hhead, hitems⟩ := List.cons.inj h
  have htab : Function.Injective fun l : Line => '\t' :: l := fun l m he => (List.cons.inj he).2
  have hlines := List.map_injective_iff.2 htab (List.append_cancel_right hitems)
  rw [String.toList_append, String.toList_append] at hhead
  exact ⟨String.toList_inj.1 (List.append_cancel_right hhead), items_of_itemLines hi hj hlines⟩

theorem members_of_layout
    (h : (membersLayout head separator ms).undescribed.lines =
      (membersLayout head' separator ns).undescribed.lines) :
    head = head' ∧ ms.map (fun m => m.item.line) = ns.map fun m => m.item.line := by
  -- Braces around no members are one line, and any other members are at least three.
  have hone : ∀ (l : List Line), l ++ [['\x7d']] ≠ [] := fun l =>
    List.append_ne_nil_of_right_ne_nil _ (List.cons_ne_nil _ _)
  cases ms with
  | nil =>
    cases ns with
    | nil =>
      have hhead := (List.cons.inj h).1
      rw [String.toList_append, String.toList_append] at hhead
      exact ⟨String.toList_inj.1 (List.append_cancel_right hhead), rfl⟩
    | cons n ns => exact absurd (List.cons.inj h).2.symm (hone _)
  | cons m ms =>
    cases ns with
    | nil => exact absurd (List.cons.inj h).2 (hone _)
    | cons n ns =>
      have hm : (m :: ms).map Member.item ≠ [] := List.cons_ne_nil _ _
      have hn : (n :: ns).map Member.item ≠ [] := List.cons_ne_nil _ _
      obtain ⟨hhead, hitems⟩ := items_of_block hm hn h
      rw [List.map_map, List.map_map] at hitems
      exact ⟨hhead, hitems⟩

end Lines

end TypeScript

def Argument.shape (a : Argument) : String × TypeRef :=
  (a.name, a.type.collapse)

def Field.argumentShapes (f : Field) : List (String × TypeRef) :=
  f.arguments.map Argument.shape

/-- A field without its descriptions, and with its types collapsed. -/
def Field.shape (f : Field) : String × TypeRef × List (String × TypeRef) :=
  (f.name, f.type.collapse, f.argumentShapes)

def Argument.text (a : Argument) : String :=
  a.name ++ ": " ++ a.type.expression .standard false

/-- What stands behind an argument in place: the other arguments, and the end of all of them. -/
def behindArgument : List Argument → List Char → List Char
  | [], r => " \x7d".toList ++ r
  | a :: as, r => ", ".toList ++ (a.text.toList ++ behindArgument as r)

section Reading

variable {a a' : Argument} {as as' : List Argument} {f f' : Field} {r r' : List Char}

theorem named_append_inj {n n' : String} (hn : IsWord n) (hn' : IsWord n')
    (h : n.toList ++ (": ".toList ++ r) = n'.toList ++ (": ".toList ++ r')) : n = n' ∧ r = r' := by
  have hcolon : ∀ {q : List Char}, EndsWord (": ".toList ++ q) := by
    rintro q c ⟨⟩
    decide
  obtain ⟨hname, hrest⟩ := word_append_inj hn hn' hcolon hcolon h
  exact ⟨hname, List.append_cancel_left hrest⟩

theorem argument_append_inj (ha : ∀ x ∈ a.names, IsWord x) (ha' : ∀ x ∈ a'.names, IsWord x)
    (hr : EndsType r) (hr' : EndsType r') (h : a.text.toList ++ r = a'.text.toList ++ r') :
    a.shape = a'.shape ∧ r = r' := by
  obtain ⟨hn, ht⟩ : IsWord a.name ∧ IsWord a.type.baseName := by simpa [Argument.names] using ha
  obtain ⟨hn', ht'⟩ : IsWord a'.name ∧ IsWord a'.type.baseName := by
    simpa [Argument.names] using ha'
  simp only [Argument.text, String.toList_append, List.append_assoc] at h
  obtain ⟨hname, hrest⟩ := named_append_inj hn hn' h
  obtain ⟨htype, hr⟩ := TypeRef.collapse_eq_of_append ht ht' hr hr' hrest
  exact ⟨Prod.ext hname htype, hr⟩

theorem endsType_behindArgument (as : List Argument) (r : List Char) :
    EndsType (behindArgument as r) := by
  cases as with
  | nil => exact .arguments r
  | cons a as => exact .argument _

theorem toList_arguments (a : Argument) (as : List Argument) (r : List Char) :
    (", ".intercalate ((a :: as).map Argument.text)).toList ++ (" \x7d".toList ++ r) =
      a.text.toList ++ behindArgument as r := by
  induction as generalizing a with
  | nil => exact congrArg (fun s : String => s.toList ++ _) String.intercalate_singleton
  | cons b as ih =>
    have hb := ih b
    rw [List.map_cons] at hb
    rw [List.map_cons, List.map_cons, String.intercalate_cons_cons, String.toList_append,
      String.toList_append, List.append_assoc, List.append_assoc, hb, behindArgument]

theorem behindArgument_inj (ha : ∀ a ∈ as, ∀ x ∈ a.names, IsWord x)
    (ha' : ∀ a ∈ as', ∀ x ∈ a.names, IsWord x)
    (h : behindArgument as r = behindArgument as' r') :
    as.map Argument.shape = as'.map Argument.shape ∧ r = r' := by
  induction as generalizing as' with
  | nil =>
    cases as' with
    | nil => exact ⟨rfl, List.append_cancel_left h⟩
    | cons a' as' => cases h
  | cons a as ih =>
    cases as' with
    | nil => cases h
    | cons a' as' =>
      obtain ⟨hhead, htail⟩ := List.forall_mem_cons.1 ha
      obtain ⟨hhead', htail'⟩ := List.forall_mem_cons.1 ha'
      obtain ⟨hshape, hrest⟩ := argument_append_inj hhead hhead' (endsType_behindArgument as r)
        (endsType_behindArgument as' r') (List.append_cancel_left h)
      obtain ⟨hshapes, hr⟩ := ih htail htail' hrest
      exact ⟨congrArg₂ List.cons hshape hshapes, hr⟩

theorem arguments_append_inj (hne : as ≠ []) (hne' : as' ≠ [])
    (ha : ∀ a ∈ as, ∀ x ∈ a.names, IsWord x) (ha' : ∀ a ∈ as', ∀ x ∈ a.names, IsWord x)
    (h : (", ".intercalate (as.map Argument.text)).toList ++ (" \x7d".toList ++ r) =
      (", ".intercalate (as'.map Argument.text)).toList ++ (" \x7d".toList ++ r')) :
    as.map Argument.shape = as'.map Argument.shape ∧ r = r' := by
  obtain ⟨a, as, rfl⟩ := List.exists_cons_of_ne_nil hne
  obtain ⟨a', as', rfl⟩ := List.exists_cons_of_ne_nil hne'
  rw [toList_arguments, toList_arguments] at h
  -- A separator in front makes the first argument one of the others.
  exact behindArgument_inj ha ha' (congrArg (", ".toList ++ ·) h)

theorem value_ne_call (hf : IsWord f.type.baseName) (q : List Char) :
    (f.type.expression .standard false).toList ≠ callableName.toList ++ ("<".toList ++ q) := by
  intro h
  have hword : IsWord callableName := by decide
  have harray : callableName ≠ "Array" := by decide
  rw [← List.append_nil (String.toList _)] at h
  exact harray (TypeRef.opened_eq_array hf hword .text h)

variable {n : String} {grouped : Bool}

theorem arguments_of_value (hc : f.isCallable = false) : f.arguments = [] := by
  simpa [Field.isCallable] using hc

theorem arguments_ne_nil (hc : f.isCallable = true) : f.arguments ≠ [] := by
  simpa [Field.isCallable] using hc

theorem toList_member_of_value (hc : f.isCallable = false) :
    (f.member .standard grouped n).item.line.toList =
      f.name.toList ++ (": ".toList ++ (f.type.expression .standard false).toList) := by
  simp only [Field.member, hc, Bool.false_eq_true, if_false, Member.item, MemberType.text,
    String.toList_append, List.append_assoc]

theorem toList_member_of_call (hc : f.isCallable = true) :
    (f.member .standard grouped n).item.line.toList =
      f.name.toList ++ (": ".toList ++ (callableName.toList ++ ("<".toList ++
        ((f.argumentsType .standard grouped n).text.toList ++ (", ".toList ++
          ((f.type.expression .standard false).toList ++ ">".toList)))))) := by
  simp only [Field.member, hc, if_true, Member.item, MemberType.text, String.toList_append,
    List.append_assoc]

/-- In place the arguments are told, and in a group its name is told by those of field and type. -/
theorem argumentsType_append_inj (hc : f.isCallable = true) (hc' : f'.isCallable = true)
    (ha : ∀ a ∈ f.arguments, ∀ x ∈ a.names, IsWord x)
    (ha' : ∀ a ∈ f'.arguments, ∀ x ∈ a.names, IsWord x) (hname : f.name = f'.name)
    (h : (f.argumentsType .standard grouped n).text.toList ++ r =
      (f'.argumentsType .standard grouped n).text.toList ++ r') :
    (grouped = false → f.argumentShapes = f'.argumentShapes) ∧ r = r' := by
  cases grouped with
  | true =>
    simp only [Field.argumentsType, if_true, ArgumentsType.text, hname] at h
    exact ⟨fun he => absurd he.symm Bool.false_ne_true, List.append_cancel_left h⟩
  | false =>
    have htext : ∀ (g : Field) (q : List Char),
        (g.argumentsType .standard false n).text.toList ++ q = "\x7b ".toList ++
          ((", ".intercalate (g.arguments.map Argument.text)).toList ++ (" \x7d".toList ++ q)) := by
      intro g q
      simp only [Field.argumentsType, Bool.false_eq_true, if_false, ArgumentsType.text,
        String.toList_append, List.append_assoc, List.map_map]
      rfl
    rw [htext, htext] at h
    obtain ⟨hshapes, hr⟩ := arguments_append_inj (arguments_ne_nil hc) (arguments_ne_nil hc') ha ha'
      (List.append_cancel_left h)
    exact ⟨fun _ => hshapes, hr⟩

theorem member_line_inj (hf : ∀ x ∈ f.names, IsWord x) (hf' : ∀ x ∈ f'.names, IsWord x)
    (h : (f.member .standard grouped n).item.line = (f'.member .standard grouped n).item.line) :
    f.name = f'.name ∧ f.isCallable = f'.isCallable ∧ f.type.collapse = f'.type.collapse ∧
      (grouped = false → f.argumentShapes = f'.argumentShapes) := by
  obtain ⟨hn, hrest⟩ := List.forall_mem_cons.1 hf
  obtain ⟨ht, -⟩ := List.forall_mem_cons.1 hrest
  obtain ⟨hn', hrest'⟩ := List.forall_mem_cons.1 hf'
  obtain ⟨ht', -⟩ := List.forall_mem_cons.1 hrest'
  have hline := congrArg String.toList h
  cases hc : f.isCallable <;> cases hc' : f'.isCallable
  · rw [toList_member_of_value hc, toList_member_of_value hc'] at hline
    obtain ⟨hname, htype⟩ := named_append_inj hn hn' hline
    have hend := congrArg (· ++ []) htype
    obtain ⟨hcollapse, -⟩ := TypeRef.collapse_eq_of_append ht ht' .text .text hend
    have hnone : f.argumentShapes = f'.argumentShapes := by
      rw [Field.argumentShapes, Field.argumentShapes, arguments_of_value hc, arguments_of_value hc']
    exact ⟨hname, rfl, hcollapse, fun _ => hnone⟩
  · rw [toList_member_of_value hc, toList_member_of_call hc'] at hline
    obtain ⟨-, htype⟩ := named_append_inj hn hn' hline
    exact absurd htype (value_ne_call ht _)
  · rw [toList_member_of_call hc, toList_member_of_value hc'] at hline
    obtain ⟨-, htype⟩ := named_append_inj hn hn' hline
    exact absurd htype.symm (value_ne_call ht' _)
  · rw [toList_member_of_call hc, toList_member_of_call hc'] at hline
    obtain ⟨hname, htype⟩ := named_append_inj hn hn' hline
    have ha : ∀ a ∈ f.arguments, ∀ x ∈ a.names, IsWord x := fun a hm x hx =>
      hf x (Field.names_argument hm x hx)
    have ha' : ∀ a ∈ f'.arguments, ∀ x ∈ a.names, IsWord x := fun a hm x hx =>
      hf' x (Field.names_argument hm x hx)
    obtain ⟨hshapes, hresult⟩ := argumentsType_append_inj hc hc' ha ha' hname
      (List.append_cancel_left (List.append_cancel_left htype))
    obtain ⟨hcollapse, -⟩ := TypeRef.collapse_eq_of_append ht ht' (.list []) (.list [])
      (List.append_cancel_left hresult)
    exact ⟨hname, rfl, hcollapse, hshapes⟩

theorem isReadable_group (hn : IsWord n) (hf : ∀ x ∈ f.names, IsWord x) :
    (f.group .standard n).layout.IsReadable where
  plain := isPlain_group NullableRenderer.isPlain_standard (singleLine_of_isWord hn)
    fun x hx => singleLine_of_isWord (hf x hx)
  quiet := isQuiet_group fun x hx => (hf x hx).not_mem (by decide)

theorem arguments_of_group {n' : String} (hc : f.isCallable = true) (hc' : f'.isCallable = true)
    (hn : IsWord n) (hn' : IsWord n') (hf : ∀ x ∈ f.names, IsWord x)
    (hf' : ∀ x ∈ f'.names, IsWord x)
    (h : (f.group .standard n).text = (f'.group .standard n').text) :
    f.argumentShapes = f'.argumentShapes := by
  have hitems : ∀ {g : Field}, g.isCallable = true →
      (g.arguments.map (Argument.property .standard)).map Property.item ≠ [] := by
    intro g hg he
    rw [List.map_eq_nil_iff, List.map_eq_nil_iff] at he
    exact arguments_ne_nil hg he
  obtain ⟨-, hlines⟩ := items_of_block (hitems hc) (hitems hc')
    (Declaration.undescribed_of_text (isReadable_group hn hf) (isReadable_group hn' hf') h)
  rw [List.map_map, List.map_map, List.map_map, List.map_map] at hlines
  apply map_eq_of_map_eq _ hlines
  intro a ha b hb he
  have htext := congrArg (fun s : String => s.toList ++ []) he
  apply And.left
  exact argument_append_inj (fun x hx => hf x (Field.names_argument ha x hx))
    (fun x hx => hf' x (Field.names_argument hb x hx)) .text .text htext

end Reading

section Container

def ObjectStyle.head : ObjectStyle → String → String
  | interface, n => "export interface " ++ n
  | type, n => "export type " ++ n ++ " ="

def ObjectStyle.separator : ObjectStyle → String
  | interface => ""
  | type => ","

theorem ObjectStyle.head_inj {style : ObjectStyle} {n n' : String}
    (h : style.head n = style.head n') : n = n' := by
  cases style with
  | interface =>
    have hl : ("export interface " ++ n).toList = ("export interface " ++ n').toList :=
      congrArg String.toList h
    rw [String.toList_append, String.toList_append] at hl
    exact String.toList_inj.1 (List.append_cancel_left hl)
  | type =>
    have hl : ("export type " ++ n ++ " =").toList = ("export type " ++ n' ++ " =").toList :=
      congrArg String.toList h
    rw [String.toList_append, String.toList_append, String.toList_append,
      String.toList_append] at hl
    exact String.toList_inj.1 (List.append_cancel_left (List.append_cancel_right hl))

theorem layout_container (style : ObjectStyle) (description : Option String) (n : String)
    (members : List Member) : (Declaration.container style description n members).layout =
      membersLayout (style.head n) style.separator members := by
  cases style <;> rfl

variable {o : Options} {c c' : Category} {d d' : Option String} {n n' : String}
  {fs fs' : List Field}

theorem isReadable_container (hc : o.nullable.get c = .standard) (hn : IsWord n)
    (hf : ∀ f ∈ fs, ∀ x ∈ f.names, IsWord x) :
    (o.container c d n fs).layout.IsReadable := by
  have hline := singleLine_of_isWord hn
  constructor
  · rw [Options.container, hc, layout_container]
    apply Options.isPlain_membersLayout
    · cases o.objectStyle with
      | interface => exact singleLine_append.2 ⟨by decide, hline⟩
      | type => exact singleLine_append.2 ⟨singleLine_append.2 ⟨by decide, hline⟩, by decide⟩
    · cases o.objectStyle <;> decide
    · refine List.forall_mem_map.2 fun f hm => ?_
      exact singleLine_member NullableRenderer.isPlain_standard _ hline
        fun x hx => singleLine_of_isWord (hf f hm x hx)
  · apply isQuiet_container
    exact fun f hm => (hf f hm f.name (List.mem_cons_self ..)).not_mem (by decide)

theorem members_of_container (hc : o.nullable.get c = .standard)
    (hc' : o.nullable.get c' = .standard) (hn : IsWord n) (hn' : IsWord n')
    (hf : ∀ f ∈ fs, ∀ x ∈ f.names, IsWord x) (hf' : ∀ f ∈ fs', ∀ x ∈ f.names, IsWord x)
    (h : (o.container c d n fs).text = (o.container c' d' n' fs').text) :
    n = n' ∧ fs.map (fun f => (f.name, f.isCallable, f.type.collapse)) =
        fs'.map (fun f => (f.name, f.isCallable, f.type.collapse)) ∧
      (o.groupArguments = false → fs.map Field.shape = fs'.map Field.shape) := by
  have hlines := Declaration.undescribed_of_text (isReadable_container hc hn hf)
    (isReadable_container hc' hn' hf') h
  rw [Options.container, Options.container, hc, hc', layout_container, layout_container] at hlines
  obtain ⟨hhead, hmembers⟩ := members_of_layout hlines
  obtain rfl := ObjectStyle.head_inj hhead
  rw [List.map_map, List.map_map] at hmembers
  refine ⟨rfl, ?_, fun hgroup => ?_⟩
  · apply map_eq_of_map_eq _ hmembers
    intro f hm g hm' he
    obtain ⟨hname, hcall, htype, -⟩ := member_line_inj (hf f hm) (hf' g hm') he
    rw [hname, hcall, htype]
  · apply map_eq_of_map_eq _ hmembers
    intro f hm g hm' he
    obtain ⟨hname, -, htype, hshapes⟩ := member_line_inj (hf f hm) (hf' g hm') he
    rw [Field.shape, Field.shape, hname, htype, hshapes hgroup]

theorem shapes_of_calls
    (hm : fs.map (fun f => (f.name, f.isCallable, f.type.collapse)) =
      fs'.map (fun f => (f.name, f.isCallable, f.type.collapse)))
    (ha : (fs.filter Field.isCallable).map Field.argumentShapes =
      (fs'.filter Field.isCallable).map Field.argumentShapes) :
    fs.map Field.shape = fs'.map Field.shape := by
  induction fs generalizing fs' with
  | nil => rw [List.map_eq_nil_iff.1 hm.symm]
  | cons f fs ih =>
    cases fs' with
    | nil => cases hm
    | cons f' fs' =>
      obtain ⟨hhead, htail⟩ := List.cons.inj hm
      simp only [Prod.mk.injEq] at hhead
      obtain ⟨hname, hcall, htype⟩ := hhead
      cases hc : f.isCallable with
      | false =>
        have hc' : f'.isCallable = false := hcall ▸ hc
        rw [List.filter_cons_of_neg (by simp [hc]), List.filter_cons_of_neg (by simp [hc'])] at ha
        rw [List.map_cons, List.map_cons, ih htail ha, Field.shape, Field.shape, hname, htype,
          Field.argumentShapes, Field.argumentShapes, arguments_of_value hc, arguments_of_value hc']
      | true =>
        have hc' : f'.isCallable = true := hcall ▸ hc
        rw [List.filter_cons_of_pos hc, List.filter_cons_of_pos hc'] at ha
        obtain ⟨hshapes, hrest⟩ := List.cons.inj ha
        rw [List.map_cons, List.map_cons, ih htail hrest, Field.shape, Field.shape, hname, htype,
          hshapes]

theorem arguments_of_groups (hc : o.nullable.get c = .standard)
    (hc' : o.nullable.get c' = .standard) (hn : IsWord n) (hn' : IsWord n')
    (hf : ∀ f ∈ fs, ∀ x ∈ f.names, IsWord x) (hf' : ∀ f ∈ fs', ∀ x ∈ f.names, IsWord x)
    (hgroup : o.groupArguments = true)
    (h : (o.groups c n fs).map Declaration.text = (o.groups c' n' fs').map Declaration.text) :
    (fs.filter Field.isCallable).map Field.argumentShapes =
      (fs'.filter Field.isCallable).map Field.argumentShapes := by
  rw [Options.groups, Options.groups, if_pos hgroup, if_pos hgroup, hc, hc', List.map_map,
    List.map_map] at h
  apply map_eq_of_map_eq _ h
  intro f hm g hm' he
  obtain ⟨hm, hcall⟩ := List.mem_filter.1 hm
  obtain ⟨hm', hcall'⟩ := List.mem_filter.1 hm'
  exact arguments_of_group hcall hcall' hn hn' (hf f hm) (hf' g hm') he

/-- Equal declarations come from fields that are equal but for their descriptions and for doubled
non-null marks. -/
theorem shapes_of_declareFields (hc : o.nullable.get c = .standard)
    (hc' : o.nullable.get c' = .standard) (hn : ∀ x ∈ n :: fs.flatMap Field.names, IsWord x)
    (hn' : ∀ x ∈ n' :: fs'.flatMap Field.names, IsWord x)
    (h : (o.declareFields c d n fs).map Declaration.text =
      (o.declareFields c' d' n' fs').map Declaration.text) :
    n = n' ∧ fs.map Field.shape = fs'.map Field.shape := by
  obtain ⟨hn, hnames⟩ := List.forall_mem_cons.1 hn
  obtain ⟨hn', hnames'⟩ := List.forall_mem_cons.1 hn'
  have hf : ∀ f ∈ fs, ∀ x ∈ f.names, IsWord x := fun f hm x hx =>
    hnames x (List.mem_flatMap.2 ⟨f, hm, hx⟩)
  have hf' : ∀ f ∈ fs', ∀ x ∈ f.names, IsWord x := fun f hm x hx =>
    hnames' x (List.mem_flatMap.2 ⟨f, hm, hx⟩)
  rw [Options.declareFields, Options.declareFields, List.map_append, List.map_append] at h
  obtain ⟨hgroups, hcontainer⟩ := List.append_inj' h rfl
  obtain ⟨hname, hmembers, hinline⟩ :=
    members_of_container hc hc' hn hn' hf hf' (List.cons.inj hcontainer).1
  refine ⟨hname, ?_⟩
  cases hgroup : o.groupArguments with
  | false => exact hinline hgroup
  | true =>
    apply shapes_of_calls hmembers
    exact arguments_of_groups hc hc' hn hn' hf hf' hgroup hgroups

def describedFields : List Field :=
  [⟨"user", .nonNull (.nonNull (.named "User")), some " id: ID */ ", [⟨"id", .named "ID", none⟩]⟩]

def redescribedFields : List Field :=
  [⟨"user", .nonNull (.named "User"), some "id: ID */", [⟨"id", .named "ID", some "\t"⟩]⟩]

theorem shapes_redescribed :
    (Options.default.declareFields .object none "Query" describedFields).map Declaration.text =
        (Options.default.declareFields .input (some "\n") "Query" redescribedFields).map
          Declaration.text ∧
      describedFields.map Field.shape = redescribedFields.map Field.shape := by
  have htext : (Options.default.declareFields .object none "Query" describedFields).map
      Declaration.text = (Options.default.declareFields .input (some "\n") "Query"
        redescribedFields).map Declaration.text := by
    decide +kernel
  obtain ⟨-, hshapes⟩ := shapes_of_declareFields (o := Options.default) rfl rfl (by decide)
    (by decide) htext
  exact ⟨htext, hshapes⟩

end Container

end SchemaTypings
