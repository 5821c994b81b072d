import SchemaTypings.Proofs.DeclarationLines
import SchemaTypings.Proofs.Tokens

namespace SchemaTypings.TypeScript

open Text
open Sdl (IsWord isNameChar)

section Layout

theorem reads_newline : Reads "\n" [] :=
  Reads.blank (c := '\n') (by decide) (by decide)

theorem reads_tab : Reads "\t" [] :=
  Reads.blank (c := '\t') (by decide) (by decide)

theorem reads_space : Reads " " [] :=
  Reads.blank (c := ' ') (by decide) (by decide)

theorem reads_docComment (d : Option String) : Reads (docComment d) [] :=
  Reads.comment (isCommentText_docComment d) reads_newline

theorem reads_item {i : Item} {ts : List Token} (hn : '\n' ∉ i.line.toList)
    (h : Reads i.line ts) : Reads i.text ts := by
  have hline : indentContinuation i.line = i.line := by
    apply String.toList_inj.1
    rw [toList_indented, indented_eq_self hn]
  have hcomment : Reads (indentContinuation (docComment i.description)) [] :=
    Reads.comment (isCommentText_indented i.description) (reads_newline.append reads_tab)
  rw [Item.text, indentContinuation_append, hline]
  exact hcomment.append h

theorem reads_blockText {α : Type} {separator : String} {ts : List Token} {l : List α}
    {text : α → String} {read : α → List Token} (hs : Reads separator ts)
    (h : ∀ a ∈ l, Reads (text a) (read a)) :
    Reads (blockText separator (l.map text))
      (Token.mark '\x7b' :: ts.intercalate (l.map read) ++ [Token.mark '\x7d']) := by
  have hopen := Reads.mark (c := '\x7b') (by decide) (by decide) (by decide) (by decide)
  have hclose := Reads.mark (c := '\x7d') (by decide) (by decide) (by decide) (by decide)
  have hbreak := reads_newline.append reads_tab
  have hitems := Reads.intercalate (hs.append hbreak) h
  have hr := ((hopen.append hbreak).append hitems).append (reads_newline.append hclose)
  simp only [List.append_nil] at hr
  exact hr

end Layout

def constantTokens (v : EnumValue) : List Token :=
  [.word v.name, .mark '=', .literal v.name]

section Enum

variable {description : Option String} {n : String} {vs : List EnumValue}

theorem reads_assigned {s : String} (h : IsWord s) (hne : s ≠ "") :
    Reads (s ++ " = ") [.word s, .mark '='] := by
  have hmark := Reads.mark (c := '=') (by decide) (by decide) (by decide) (by decide)
  have hr := (Reads.word h hne).append (hmark.append reads_space)
  rwa [String.append_assoc] at hr

theorem reads_constantItem {v : EnumValue} (h : IsWord v.name) (hne : v.name ≠ "") :
    Reads (constantItem v).text (constantTokens v) := by
  have hquote := h.not_mem (c := '\'') (by decide)
  have hnewline := h.not_mem (c := '\n') (by decide)
  apply reads_item
  · simp [constantItem, literal, hnewline]
  · exact (reads_assigned h hne).append (Reads.literal hquote)

theorem reads_literalUnion (hn : IsWord n) (hne : n ≠ "") (hv : ∀ v ∈ vs, IsWord v.name) :
    Reads (Declaration.enum .type description n vs).text
      ([Token.word "export", .word "type", .word n, .mark '='] ++
        [Token.mark '|'].intercalate (vs.map fun v => [.literal v.name])) := by
  have hbar := Reads.mark (c := '|') (by decide) (by decide) (by decide) (by decide)
  have hliterals : Reads (" | ".intercalate (vs.map fun v => literal v.name))
      ([.mark '|'].intercalate (vs.map fun v => [.literal v.name])) :=
    Reads.intercalate (reads_space.append (hbar.append reads_space)) fun v hm =>
      Reads.literal ((hv v hm).not_mem (by decide))
  have hwords : "export type " = "export" ++ " " ++ ("type" ++ " ") := by decide
  have hexport : Reads "export type " [.word "export", .word "type"] := by
    rw [hwords]
    exact (Reads.word (by decide) (by decide)).append (Reads.word (by decide) (by decide))
  have hhead : "export type " ++ n ++ " = " = "export type " ++ (n ++ " = ") := String.append_assoc
  rw [Declaration.text_eq, Declaration.layout, Layout.text, hhead]
  have hr := (hexport.append (reads_assigned hn hne)).append hliterals
  exact (reads_docComment description).append hr

theorem reads_constantEnum (hn : IsWord n) (hne : n ≠ "")
    (hv : ∀ v ∈ vs, IsWord v.name ∧ v.name ≠ "") :
    Reads (Declaration.enum .enum description n vs).text
      ([Token.word "export", .word "const", .word "enum", .word n, .mark '\x7b'] ++
        [Token.mark ','].intercalate (vs.map constantTokens) ++ [Token.mark '\x7d']) := by
  have hcomma : Reads "," [.mark ','] :=
    Reads.mark (c := ',') (by decide) (by decide) (by decide) (by decide)
  have hitems : Reads (blockText "," ((vs.map constantItem).map Item.text))
      (Token.mark '\x7b' :: [Token.mark ','].intercalate (vs.map constantTokens) ++
        [Token.mark '\x7d']) := by
    rw [List.map_map]
    exact reads_blockText hcomma fun v hm => reads_constantItem (hv v hm).1 (hv v hm).2
  have hwords : "export const enum " = "export" ++ " " ++ ("const" ++ " ") ++ ("enum" ++ " ") := by
    decide
  have hexport : Reads "export const enum " [.word "export", .word "const", .word "enum"] := by
    rw [hwords]
    exact ((Reads.word (by decide) (by decide)).append (Reads.word (by decide) (by decide))).append
      (Reads.word (by decide) (by decide))
  have hhead : "export const enum " ++ n ++ " " = "export const enum " ++ (n ++ " ") :=
    String.append_assoc
  rw [Declaration.text_eq, Declaration.layout, Layout.text, hhead]
  have hr := (hexport.append (Reads.word hn hne)).append hitems
  exact (reads_docComment description).append hr

theorem literals_intercalate {c : Char} {read : EnumValue → List Token}
    (h : ∀ v, (read v).filterMap Token.literal? = [v.name]) :
    ([Token.mark c].intercalate (vs.map read)).filterMap Token.literal? =
      vs.map EnumValue.name := by
  induction vs with
  | nil => rfl
  | cons v vs ih =>
    by_cases hne : vs = []
    · subst hne
      simp [h]
    · have hm : vs.map read ≠ [] := by simpa using hne
      rw [List.map_cons, List.intercalate_cons_of_ne_nil hm, List.filterMap_append,
        List.filterMap_append, h, ih]
      rfl

theorem literals_enum (hn : IsWord n) (hne : n ≠ "") (hv : ∀ v ∈ vs, IsWord v.name ∧ v.name ≠ "")
    (style : EnumStyle) :
    literals (Declaration.enum style description n vs).text = vs.map EnumValue.name := by
  unfold literals
  cases style with
  | type =>
    rw [(reads_literalUnion hn hne fun v hm => (hv v hm).1).tokens_eq, List.filterMap_append,
      literals_intercalate fun _ => rfl]
    rfl
  | enum =>
    rw [(reads_constantEnum hn hne hv).tokens_eq, List.filterMap_append, List.filterMap_append,
      literals_intercalate fun _ => rfl]
    exact List.append_nil _

/-- Whatever the descriptions say, the literals of an enum are the names of its values, in both
styles, and those of a constant enum stand behind members of the same names. So a text of either
style tells the names. -/
theorem valueNames_of_enum (hn : IsWord n ∧ n ≠ "") (hv : ∀ v ∈ vs, IsWord v.name ∧ v.name ≠ "") :
    (∀ style, literals (Declaration.enum style description n vs).text = vs.map EnumValue.name) ∧
      tokens (Declaration.enum .type description n vs).text.toList =
        [Token.word "export", .word "type", .word n, .mark '='] ++
          [Token.mark '|'].intercalate (vs.map fun v => [.literal v.name]) ∧
      tokens (Declaration.enum .enum description n vs).text.toList =
        [Token.word "export", .word "const", .word "enum", .word n, .mark '\x7b'] ++
          [Token.mark ','].intercalate
            (vs.map fun v => [.word v.name, .mark '=', .literal v.name]) ++ [Token.mark '\x7d'] ∧
      ∀ style style' description' n' ws, IsWord n' ∧ n' ≠ "" →
        (∀ w ∈ ws, IsWord w.name ∧ w.name ≠ "") →
        (Declaration.enum style description n vs).text =
          (Declaration.enum style' description' n' ws).text →
        vs.map EnumValue.name = ws.map EnumValue.name := by
  have htype : Reads (Declaration.enum .type description n vs).text _ :=
    reads_literalUnion hn.1 hn.2 fun v hm => (hv v hm).1
  have henum : Reads (Declaration.enum .enum description n vs).text _ :=
    reads_constantEnum hn.1 hn.2 hv
  refine ⟨literals_enum hn.1 hn.2 hv, htype.tokens_eq, henum.tokens_eq, ?_⟩
  intro style style' description' n' ws hn' hw htext
  have hvs : literals (Declaration.enum style description n vs).text = _ :=
    literals_enum hn.1 hn.2 hv style
  have hws : literals (Declaration.enum style' description' n' ws).text = _ :=
    literals_enum hn'.1 hn'.2 hw style'
  rw [← hvs, ← hws, htext]

/-- Descriptions with quotes, with what looks like a value, and with the end of a comment. -/
def quotedValues : List EnumValue :=
  [⟨"RED", some "'PINK' */ BLUE = 'BLUE', /*"⟩, ⟨"_1", some "\n'\r\n *"⟩, ⟨"RED", none⟩]

theorem valueNames_quoted :
    (∀ style,
      literals (Declaration.enum style (some "*/ 'A' | /** 'B'") "Color" quotedValues).text =
        ["RED", "_1", "RED"]) ∧
    tokens (Declaration.enum .enum (some "*/ 'A' | /** 'B'") "Color" quotedValues).text.toList =
      [.word "export", .word "const", .word "enum", .word "Color", .mark '\x7b',
        .word "RED", .mark '=', .literal "RED", .mark ',', .word "_1", .mark '=', .literal "_1",
        .mark ',', .word "RED", .mark '=', .literal "RED", .mark '\x7d'] := by
  have hv : ∀ v ∈ quotedValues, IsWord v.name ∧ v.name ≠ "" := by decide
  obtain ⟨hliterals, -, henum, -⟩ := valueNames_of_enum (n := "Color") (by decide) hv
  exact ⟨hliterals, henum⟩

end Enum

end SchemaTypings.TypeScript
