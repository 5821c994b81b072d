import SchemaTypings.Proofs.CommentEnds
import SchemaTypings.Proofs.PlainDeclarations

namespace SchemaTypings

open Text TypeScript
open Sdl (IsWord)

namespace TypeScript

/-- An item of a block without the comment that it begins with. -/
def belowComment (s : String) : String :=
  match s.toList with
  | '/' :: '*' :: r => String.ofList ((behindTerminator r).drop 2)
  | _ => s

theorem belowComment_append (d : Option String) {s : String} (h : s.toList.head? ≠ some '/') :
    belowComment (indentContinuation (docComment d) ++ s) = s := by
  obtain he | ⟨body, hb, hu⟩ := isCommentText_indented d
  · rw [he, String.empty_append, belowComment]
    split
    · next r hs =>
      rw [hs] at h
      exact absurd rfl h
    · rfl
  · have hstar : Unterminated ('*' :: body ++ ['*']) :=
      (List.isChain_cons.1 (List.isChain_cons.1 hu).2).2
    have htext : (indentContinuation (docComment d) ++ s).toList =
        '/' :: '*' :: ('*' :: body ++ '*' :: '/' :: '\n' :: '\t' :: s.toList) := by
      simp [hb, opening, terminator]
    rw [belowComment, htext]
    simp only [hstar.behindTerminator_append, List.drop_succ_cons, List.drop_zero,
      String.ofList_toList]

def groupText (name : String) (members : List String) : String :=
  "interface " ++ name ++ " \x7b\n\t" ++ "\n\t".intercalate members ++ "\n\x7d"

def inlineText (members : List String) : String :=
  "\x7b " ++ ", ".intercalate (members.map belowComment) ++ " \x7d"

def containerText (style : ObjectStyle) (description : Option String) (name : String)
    (members : List String) : String :=
  match style, members with
  | .interface, [] => docComment description ++ "export interface " ++ name ++ " \x7b\x7d"
  | .interface, _ =>
    docComment description ++ "export interface " ++ name ++ " \x7b\n\t" ++
      "\n\t".intercalate members ++ "\n\x7d"
  | .type, [] => docComment description ++ "export type " ++ name ++ " = \x7b\x7d"
  | .type, _ =>
    docComment description ++ "export type " ++ name ++ " = \x7b\n\t" ++
      ",\n\t".intercalate members ++ "\n\x7d"

end TypeScript

namespace Field

def argumentTexts (r : NullableRenderer) (f : Field) : List String :=
  f.arguments.map fun a =>
    indentContinuation (docComment a.description ++ a.name ++ ": " ++ a.type.expression r false)

def memberText (r : NullableRenderer) (arguments : String) (f : Field) : String :=
  if f.isCallable then
    indentContinuation (docComment f.description ++ f.name ++ ": GQLFunction<") ++ arguments ++
      indentContinuation (", " ++ f.type.expression r false ++ ">")
  else
    indentContinuation (docComment f.description ++ f.name ++ ": " ++ f.type.expression r false)

end Field

theorem indentContinuation_eq_self {s : String} (h : SingleLine s) : indentContinuation s = s := by
  apply String.toList_inj.1
  rw [toList_indented, indented_eq_self h.1]

theorem indentContinuation_intercalate {s : String} (hs : SingleLine s) (l : List String) :
    indentContinuation (s.intercalate l) = s.intercalate (l.map indentContinuation) := by
  induction l with
  | nil => rfl
  | cons t l ih =>
    cases l with
    | nil => simp
    | cons u l =>
      rw [List.map_cons, List.map_cons, String.intercalate_cons_cons, String.intercalate_cons_cons,
        indentContinuation_append, indentContinuation_append, indentContinuation_eq_self hs, ih,
        List.map_cons]

variable {r : NullableRenderer} {n : String} {f : Field} {fs : List Field}

theorem text_group :
    (f.group r n).text = groupText (argumentGroupName f.name n) (f.argumentTexts r) := by
  have hm : (f.arguments.map (Argument.property r)).map Property.text = f.argumentTexts r :=
    List.map_map ..
  simp only [Field.group, Declaration.text, hm, groupText, blockText, String.append_assoc,
    String.empty_append]
  rfl

theorem text_member_of_value (h : f.isCallable = false) (grouped : Bool) (arguments : String) :
    (f.member r grouped n).text = f.memberText r arguments := by
  simp only [Member.text, Field.member, Field.memberText, h, Bool.false_eq_true, if_false,
    MemberType.text]

theorem text_member_of_call (h : f.isCallable = true) (grouped : Bool) :
    (f.member r grouped n).text =
      f.memberText r (indentContinuation (f.argumentsType r grouped n).text) := by
  have hcall : ": GQLFunction<" = ": " ++ callableName ++ "<" := by decide
  have htype : docComment f.description ++ f.name ++ ": " ++
      (callableName ++ "<" ++ (f.argumentsType r grouped n).text ++ ", " ++
        f.type.expression r false ++ ">") =
      docComment f.description ++ f.name ++ ": GQLFunction<" ++
        (f.argumentsType r grouped n).text ++ (", " ++ f.type.expression r false ++ ">") := by
    rw [hcall]
    simp only [String.append_assoc]
  simp only [Member.text, Field.member, Field.memberText, h, if_true, MemberType.text]
  rw [htype, indentContinuation_append, indentContinuation_append]

theorem text_member_grouped (hn : IsWord n) (hf : IsWord f.name) :
    (f.member r true n).text = f.memberText r (argumentGroupName f.name n) := by
  cases hc : f.isCallable with
  | false => exact text_member_of_value hc ..
  | true =>
    have hgroup : SingleLine (argumentGroupName f.name n) :=
      singleLine_argumentGroupName (singleLine_of_isWord hf) (singleLine_of_isWord hn)
    rw [text_member_of_call hc, Field.argumentsType, if_pos rfl, ArgumentsType.text,
      indentContinuation_eq_self hgroup]

/-- Without its comment, a member of a group is the argument in place. -/
theorem belowComment_argument {a : Argument} (ha : IsWord a.name) :
    belowComment (indentContinuation
        (docComment a.description ++ a.name ++ ": " ++ a.type.expression r false)) =
      indentContinuation (a.name ++ ": " ++ a.type.expression r false) := by
  have hassoc : docComment a.description ++ a.name ++ ": " ++ a.type.expression r false =
      docComment a.description ++ (a.name ++ ": " ++ a.type.expression r false) := by
    simp only [String.append_assoc]
  rw [hassoc, indentContinuation_append]
  apply belowComment_append
  rw [toList_indented, head?_indented, String.toList_append, String.toList_append]
  cases h : a.name.toList with
  | nil => simp
  | cons c w =>
    have hslash : '/' ∉ c :: w := h ▸ ha.not_mem (by decide)
    rintro ⟨⟩
    exact hslash (List.mem_cons_self ..)

theorem text_argumentsType_inline (ha : ∀ a ∈ f.arguments, IsWord a.name) :
    indentContinuation (f.argumentsType r false n).text = inlineText (f.argumentTexts r) := by
  have hopen : SingleLine "\x7b " := by decide
  have hcomma : SingleLine ", " := by decide
  have hclose : SingleLine " \x7d" := by decide
  have hm : ((f.arguments.map fun a => (a.name, a.type.expression r false)).map
      fun a => a.1 ++ ": " ++ a.2).map indentContinuation =
        (f.argumentTexts r).map belowComment := by
    rw [Field.argumentTexts, List.map_map, List.map_map, List.map_map]
    apply List.map_congr_left
    intro a hm
    rw [Function.comp_apply, Function.comp_apply, Function.comp_apply,
      belowComment_argument (ha a hm)]
  rw [Field.argumentsType, if_neg Bool.false_ne_true, ArgumentsType.text, indentContinuation_append,
    indentContinuation_append, indentContinuation_eq_self hopen, indentContinuation_eq_self hclose,
    indentContinuation_intercalate hcomma, hm, inlineText]

theorem text_member_inline (ha : ∀ a ∈ f.arguments, IsWord a.name) :
    (f.member r false n).text = f.memberText r (inlineText (f.argumentTexts r)) := by
  cases hc : f.isCallable with
  | false => exact text_member_of_value hc ..
  | true => rw [text_member_of_call hc, text_argumentsType_inline ha]

theorem text_container (style : ObjectStyle) (description : Option String) (members : List Member) :
    (Declaration.container style description n members).text =
      containerText style description n (members.map Member.text) := by
  cases style with
  | interface | type =>
    cases members with
    | nil =>
      simp [Declaration.text, membersText, containerText, String.append_assoc]
    | cons m ms =>
      simp only [Declaration.text, membersText, List.isEmpty_cons, Bool.false_eq_true, if_false,
        blockText, List.map_cons, containerText, String.append_assoc]
      rfl

/-- With groups, the declarations are the groups of the fields that are called and a container.
Without, they are the same container alone, where the members of a group stand for its name. -/
theorem text_declareFields (o : Options) (c : Category) (description : Option String)
    (hn : IsWord n) (hf : ∀ f ∈ fs, IsWord f.name ∧ ∀ a ∈ f.arguments, IsWord a.name) :
    ({ o with groupArguments := true }.declareFields c description n fs).map Declaration.text =
        ((fs.filter Field.isCallable).map fun f =>
          groupText (argumentGroupName f.name n) (f.argumentTexts (o.nullable.get c))) ++
        [containerText o.objectStyle description n
          (fs.map fun f => f.memberText (o.nullable.get c) (argumentGroupName f.name n))] ∧
      ({ o with groupArguments := false }.declareFields c description n fs).map Declaration.text =
        [containerText o.objectStyle description n (fs.map fun f =>
          f.memberText (o.nullable.get c) (inlineText (f.argumentTexts (o.nullable.get c))))] := by
  constructor
  · have hgroups : ∀ gs : List Field, (gs.map (Field.group (o.nullable.get c) n)).map
        Declaration.text = gs.map fun f =>
          groupText (argumentGroupName f.name n) (f.argumentTexts (o.nullable.get c)) := by
      intro gs
      rw [List.map_map]
      exact List.map_congr_left fun f _ => text_group
    have hmembers : (fs.map (Field.member (o.nullable.get c) true n)).map Member.text =
        fs.map fun f => f.memberText (o.nullable.get c) (argumentGroupName f.name n) := by
      rw [List.map_map]
      exact List.map_congr_left fun f hm => text_member_grouped hn (hf f hm).1
    rw [Options.declareFields, Options.groups, if_pos rfl, List.map_append, List.map_singleton,
      Options.container, text_container, hgroups, hmembers]
  · have hmembers : (fs.map (Field.member (o.nullable.get c) false n)).map Member.text =
        fs.map fun f =>
          f.memberText (o.nullable.get c) (inlineText (f.argumentTexts (o.nullable.get c))) := by
      rw [List.map_map]
      exact List.map_congr_left fun f hm => text_member_inline (hf f hm).2
    rw [Options.declareFields, Options.groups, if_neg Bool.false_ne_true, List.nil_append,
      List.map_singleton, Options.container, text_container, hmembers]

/-- Descriptions with what looks like an argument and with the ends of comments. -/
def commentedFields : List Field :=
  [⟨"user", .named "User", some "*/ id: ID, /*",
      [⟨"id", .nonNull (.named "ID"), some "a: B\n*/ \x7b b: C \x7d"⟩,
        ⟨"roles", .list (.named "Role"), none⟩]⟩,
    ⟨"_1", .nonNull (.named "Int"), none, []⟩]

def brokenLines : Options :=
  Options.default.withNullable .object (.custom fun e => e ++ "\n| null")

theorem text_commentedFields :
    ({ brokenLines with groupArguments := false }.declareFields .object none "Query"
        commentedFields).map Declaration.text =
      ["export interface Query \x7b\n\t/** *\\/ id: ID, /* */\n\tuser: GQLFunction<\x7b id: ID, " ++
        "roles: Array<Role\n\t| null>\n\t| null \x7d, User\n\t| null>\n\t_1: Int\n\x7d"] := by
  have hf : ∀ f ∈ commentedFields, IsWord f.name ∧ ∀ a ∈ f.arguments, IsWord a.name := by decide
  obtain ⟨-, hinline⟩ := text_declareFields (n := "Query") brokenLines .object none (by decide) hf
  apply hinline.trans
  decide +kernel

end SchemaTypings
