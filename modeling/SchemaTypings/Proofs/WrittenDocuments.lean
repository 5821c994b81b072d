import SchemaTypings.Proofs.DocumentHistory
import SchemaTypings.Proofs.Passages

namespace SchemaTypings

open Sdl
open Sdl.Passage (accepted optionally inTurn bracketed listed)

def TypeRef.written (t : TypeRef) : Passage := fun s r =>
  t.IsWritable ∧ Passage.word t.text t.EndsBefore s r

def Argument.written (a : Argument) : Passage :=
  inTurn [optionally (accepted Sdl.text), Passage.name a.name, Passage.symbol ':', a.type.written,
    optionally (accepted defaultValue), optionally (accepted directives)]

def Field.written (f : Field) : Passage :=
  inTurn [optionally (accepted Sdl.text), Passage.name f.name,
    bracketed '(' ')' (f.arguments.map Argument.written), Passage.symbol ':', f.type.written,
    optionally (accepted directives)]

/-- An input field is written like an argument. -/
def Field.writtenAsInput (f : Field) : Passage := fun s r =>
  f.arguments = [] ∧ Argument.written ⟨f.name, f.type, f.description⟩ s r

def Category.fieldWritten : Category → Field → Passage
  | input => Field.writtenAsInput
  | interface | object => Field.written

def Category.fieldsWritten (c : Category) (l : List Field) : Passage :=
  bracketed '\x7b' '\x7d' (l.map c.fieldWritten)

def EnumValue.written (v : EnumValue) : Passage :=
  inTurn [optionally (accepted Sdl.text), Passage.name v.name, optionally (accepted directives)]

def implementedWritten : List String → Passage :=
  listed (Passage.keyword "implements") '&'

def membersWritten : List String → Passage :=
  listed (Passage.symbol '=') '|'

def valuesWritten (vs : List EnumValue) : Passage :=
  bracketed '\x7b' '\x7d' (vs.map EnumValue.written)

/-- What stands behind the name of a type. Of fields that are written under one name, the type has
the last one. -/
def Body.written : Body → Passage
  | enum vs => inTurn [optionally (accepted directives), valuesWritten vs]
  | fields c is fs => fun s r => ∃ l, fs = .ofList l ∧
    inTurn [implementedWritten is, optionally (accepted directives), c.fieldsWritten l] s r
  | scalar => optionally (accepted directives)
  | union ms => inTurn [optionally (accepted directives), membersWritten ms]

def Body.writtenAs (kind : Kind) (b : Body) : Passage := fun s r =>
  b.kind = kind ∧ b.written s r

namespace Sdl

/-- A type statement, which knows how much of the document is left where it begins. -/
def TypeStatement.written (t : TypeStatement) : Passage := fun s r =>
  t.left = s.length ∧
    inTurn [if t.extend then Passage.keyword "extend" else optionally (accepted text),
      Passage.keyword t.body.kind.keyword, Passage.name t.name, t.body.written] s r

def Statement.written : Statement → Passage
  | schema _ _ _ => accepted schemaStatement
  | type t => t.written
  | directive _ => accepted directiveStatement

end Sdl

/-- The text consists of statements, and the document of what they define. -/
def Document.IsWritten (doc : Document) (text : String) (source : Option String) : Prop :=
  ∃ ss : List Statement, inTurn (ss.map Statement.written) (dropIgnored false text.toList) [] ∧
    doc = documentOf (originAt (positions text.toList) source) ss

namespace Sdl

open Reader

variable {α : Type}

theorem typeRef_eq_some {s r : List Char} {t : TypeRef} :
    typeRef s = some (t, r) ↔ t.written s r := by
  simp only [typeRef, word_eq_some, bareType_eq_some_iff, TypeRef.written, Passage.word, and_assoc,
    exists_and_left]

theorem spells_argument : argument.Spells fun x => x.1.written := by
  intro s x r h
  simp only [argument, bind_eq_some, pure_eq_some, name_eq_some, symbol_eq_some,
    typeRef_eq_some] at h
  obtain ⟨d, s₁, hd, n, s₂, hn, -, s₃, hcolon, t, s₄, ht, v, s₅, hv, ns, s₆, hns, rfl, rfl⟩ := h
  exact ⟨s₁, spells_optional _ _ _ _ hd, s₂, hn, s₃, hcolon, s₄, ht,
    s₅, spells_orEmpty_accepted _ _ _ _ hv, s₆, spells_orEmpty_accepted _ _ _ _ hns, rfl⟩

theorem spells_items {p : Reader (Noted α)} {P : α → Passage} (opening closing : Char)
    (h : p.Spells fun x => P x.1) :
    (block opening closing p).Spells fun as =>
      bracketed opening closing ((valuesOf as).map P) := by
  intro s as r hs
  have hitems := spells_block opening closing h s as r hs
  rwa [valuesOf, List.map_map]

theorem spells_arguments :
    arguments.Spells fun as => bracketed '(' ')' ((valuesOf as).map Argument.written) :=
  spells_items '(' ')' spells_argument

theorem spells_field : field.Spells fun x => x.1.written := by
  intro s x r h
  simp only [field, bind_eq_some, pure_eq_some, name_eq_some, symbol_eq_some,
    typeRef_eq_some] at h
  obtain ⟨d, s₁, hd, n, s₂, hn, as, s₃, has, -, s₄, hcolon, t, s₅, ht, ns, s₆, hns, rfl, rfl⟩ := h
  exact ⟨s₁, spells_optional _ _ _ _ hd, s₂, hn,
    s₃, spells_orEmpty spells_arguments (fun _ => rfl) _ _ _ has, s₄, hcolon, s₅, ht,
    s₆, spells_orEmpty_accepted _ _ _ _ hns, rfl⟩

theorem spells_enumValue : enumValue.Spells fun x => x.1.written := by
  intro s x r h
  simp only [enumValue, bind_eq_some, pure_eq_some] at h
  obtain ⟨d, s₁, hd, n, s₂, hn, ns, s₃, hns, rfl, rfl⟩ := h
  unfold valueName at hn
  split at hn
  · cases hn
  · exact ⟨s₁, spells_optional _ _ _ _ hd, s₂, name_eq_some.1 hn,
      s₃, spells_orEmpty_accepted _ _ _ _ hns, rfl⟩

theorem spells_inputField : inputField.Spells fun x => x.1.writtenAsInput :=
  spells_map spells_argument fun _ _ _ ha => ⟨rfl, ha⟩

section Parts

variable {items : Reader (List α)} {P : List α → Passage}

theorem spells_mayHave (h : items.Spells P) (hempty : ∀ s, P [] s s) :
    (mayHave items).Spells fun x => inTurn [optionally (accepted directives), P x.2] := by
  intro s x r hs
  simp only [mayHave, bind_eq_some, pure_eq_some] at hs
  obtain ⟨ns, s₁, hns, as, s₂, has, rfl, rfl⟩ := hs
  exact ⟨s₁, spells_orEmpty_accepted _ _ _ _ hns, s₂, spells_orEmpty h hempty _ _ _ has, rfl⟩

theorem spells_mustHave (h : items.Spells P) (hempty : ∀ s, P [] s s) :
    (mustHave items).Spells fun x => inTurn [optionally (accepted directives), P x.2] := by
  intro s x r hs
  obtain hs | hs := orElse_eq_some hs
  · simp only [bind_eq_some, pure_eq_some] at hs
    obtain ⟨ns, s₁, hns, as, s₂, has, rfl, rfl⟩ := hs
    exact ⟨s₁, spells_orEmpty_accepted _ _ _ _ hns, s₂, h _ _ _ has, rfl⟩
  · simp only [bind_eq_some, pure_eq_some] at hs
    obtain ⟨ns, s₁, hns, rfl, rfl⟩ := hs
    exact ⟨s₁, .inr ⟨ns, hns⟩, s₁, hempty s₁, rfl⟩

end Parts

theorem spells_fields {c : Category} (hc : c.fieldWritten = Field.written) :
    fields.Spells fun fs => c.fieldsWritten (valuesOf fs) := by
  have hfields := spells_items '\x7b' '\x7d' spells_field
  rwa [← hc] at hfields

theorem spells_inputFields :
    inputFields.Spells fun fs => Category.input.fieldsWritten (valuesOf fs) :=
  spells_items _ _ spells_inputField

theorem spells_enumValues : enumValues.Spells fun vs => valuesWritten (valuesOf vs) :=
  spells_items _ _ spells_enumValue

theorem spells_implemented : implemented.Spells implementedWritten :=
  spells_listed (fun _ _ _ => keyword_eq_some.1) '&'

theorem spells_members : members.Spells membersWritten :=
  spells_listed (fun _ _ _ => symbol_eq_some.1) '|'

theorem spells_outputBody {c : Category} {rest : Reader (List Number.Numeral × List (Noted Field))}
    (h : rest.Spells fun x =>
      inTurn [optionally (accepted directives), c.fieldsWritten (valuesOf x.2)]) :
    (outputBody c rest).Spells fun b => b.1.writtenAs c.kind := by
  intro s b r hs
  simp only [outputBody, bind_eq_some, pure_eq_some] at hs
  obtain ⟨is, s₁, his, x, s₂, hx, rfl, rfl⟩ := hs
  exact ⟨rfl, valuesOf x.2, rfl,
    s₁, spells_orEmpty spells_implemented (fun _ => rfl) _ _ _ his, h _ _ _ hx⟩

theorem spells_inputBody {rest : Reader (List Number.Numeral × List (Noted Field))}
    (h : rest.Spells fun x =>
      inTurn [optionally (accepted directives), Category.input.fieldsWritten (valuesOf x.2)]) :
    Spells (do let (notes, fs) ← rest; return fieldsBody .input [] notes fs)
      fun b => b.1.writtenAs .input :=
  spells_map h fun x s _ hx => ⟨rfl, valuesOf x.2, rfl, s, rfl, hx⟩

theorem spells_implementing :
    Spells (do return fieldsBody .object (← implemented) [] []) fun b => b.1.writtenAs .object :=
  spells_map spells_implemented fun _ _ r his =>
    ⟨rfl, [], rfl, r, his, r, .inl rfl, r, rfl, rfl⟩

theorem spells_scalarBody {p : Reader (List Number.Numeral)}
    (h : p.Spells fun _ => optionally (accepted directives)) :
    Spells (do return (Body.scalar, ← p)) fun b => b.1.writtenAs .scalar :=
  spells_map h fun _ _ _ hns => ⟨rfl, hns⟩

theorem spells_unionBody {p : Reader (List Number.Numeral × List String)}
    (h : p.Spells fun x => inTurn [optionally (accepted directives), membersWritten x.2]) :
    Spells (do let (notes, ms) ← p; return (Body.union ms, notes))
      fun b => b.1.writtenAs .union :=
  spells_map h fun _ _ _ hx => ⟨rfl, hx⟩

theorem spells_enumBody {p : Reader (List Number.Numeral × List (Noted EnumValue))}
    (h : p.Spells fun x =>
      inTurn [optionally (accepted directives), valuesWritten (valuesOf x.2)]) :
    Spells (do let (notes, vs) ← p; return enumBody notes vs) fun b => b.1.writtenAs .enum :=
  spells_map h fun _ _ _ hx => ⟨rfl, hx⟩

def typeWritten (x : String × Noted Body) : Passage :=
  inTurn [Passage.keyword x.2.1.kind.keyword, Passage.name x.1, x.2.1.written]

theorem spells_named {body : Reader (Noted Body)} {kind : Kind}
    (h : body.Spells fun b => b.1.writtenAs kind) : (named kind body).Spells typeWritten := by
  intro s x r hs
  simp only [named, bind_eq_some, pure_eq_some, keyword_eq_some, name_eq_some] at hs
  obtain ⟨-, s₁, hkeyword, n, s₂, hn, b, s₃, hb, rfl, rfl⟩ := hs
  obtain ⟨rfl, hbody⟩ := h _ _ _ hb
  exact ⟨s₁, hkeyword, s₂, hn, s₃, hbody, rfl⟩

theorem spells_defined : defined.Spells typeWritten :=
  spells_orElse (spells_named (spells_scalarBody (spells_orEmpty_accepted _))) <|
  spells_orElse (spells_named (spells_outputBody (c := .object)
    (spells_mayHave (spells_fields rfl) fun _ => rfl))) <|
  spells_orElse (spells_named (spells_outputBody (c := .interface)
    (spells_mayHave (spells_fields rfl) fun _ => rfl))) <|
  spells_orElse (spells_named (spells_unionBody
    (spells_mayHave spells_members fun _ => rfl))) <|
  spells_orElse (spells_named (spells_enumBody
    (spells_mayHave spells_enumValues fun _ => rfl))) <|
  spells_named (spells_inputBody (spells_mayHave spells_inputFields fun _ => rfl))

theorem spells_extended : extended.Spells typeWritten :=
  spells_orElse (spells_named (spells_scalarBody (spells_optionally directives))) <|
  spells_orElse (spells_named (spells_orElse
    (spells_outputBody (c := .object) (spells_mustHave (spells_fields rfl) fun _ => rfl))
    spells_implementing)) <|
  spells_orElse (spells_named (spells_outputBody (c := .interface)
    (spells_mustHave (spells_fields rfl) fun _ => rfl))) <|
  spells_orElse (spells_named (spells_unionBody
    (spells_mustHave spells_members fun _ => rfl))) <|
  spells_orElse (spells_named (spells_enumBody
    (spells_mustHave spells_enumValues fun _ => rfl))) <|
  spells_named (spells_inputBody (spells_mustHave spells_inputFields fun _ => rfl))

theorem spells_typeStatement : typeStatement.Spells Statement.written := by
  intro s x r hs
  obtain ⟨left, q, hleft, hs⟩ := bind_eq_some.1 hs
  obtain ⟨rfl, rfl⟩ := Prod.mk.inj (Option.some.inj hleft)
  obtain hs | hs := orElse_eq_some hs
  · simp only [bind_eq_some, pure_eq_some] at hs
    obtain ⟨d, s₁, hd, t, s₂, ht, rfl, rfl⟩ := hs
    exact ⟨rfl, s₁, spells_optional _ _ _ _ hd, spells_defined _ _ _ ht⟩
  · simp only [bind_eq_some, pure_eq_some, keyword_eq_some] at hs
    obtain ⟨-, s₁, hextend, t, s₂, ht, rfl, rfl⟩ := hs
    exact ⟨rfl, s₁, hextend, spells_extended _ _ _ ht⟩

theorem spells_schemaStatement : schemaStatement.Spells Statement.written := by
  intro s x r hs
  have haccepted : accepted schemaStatement s r := ⟨x, hs⟩
  obtain hs | hs := orElse_eq_some hs
  · simp only [bind_eq_some, pure_eq_some] at hs
    obtain ⟨-, _, -, ns, _, -, rs, _, -, rfl, -⟩ := hs
    exact haccepted
  · simp only [bind_eq_some, pure_eq_some] at hs
    obtain ⟨-, _, -, -, _, -, ⟨ns, rs⟩, _, -, rfl, -⟩ := hs
    exact haccepted

theorem spells_directiveStatement : directiveStatement.Spells Statement.written := by
  intro s x r hs
  have haccepted : accepted directiveStatement s r := ⟨x, hs⟩
  simp only [directiveStatement, bind_eq_some, pure_eq_some] at hs
  obtain ⟨-, _, -, -, _, -, -, _, -, -, _, -, as, _, -, -, _, -, -, _, -, -, _, -, -, _, -,
    -, _, -, rfl, -⟩ := hs
  exact haccepted

theorem spells_statement : statement.Spells Statement.written :=
  spells_orElse spells_schemaStatement
    (spells_orElse spells_typeStatement spells_directiveStatement)

theorem atEnd_eq_some {s r : List Char} {u : Unit} (h : atEnd s = some (u, r)) :
    s = [] ∧ r = [] := by
  cases s with
  | nil => exact ⟨rfl, (Prod.mk.inj (Option.some.inj h)).2.symm⟩
  | cons c s => cases h

theorem isWritten_of_parse {text : String} {source : Option String} {doc : Document}
    (h : parse text source = .ok doc) : doc.IsWritten text source := by
  obtain ⟨ss, r, hs, -, rfl⟩ := parse_ok h
  simp only [statements, bind_eq_some, pure_eq_some] at hs
  obtain ⟨_, s₁, hskip, ss, s₂, hss, _, s₃, hend, rfl, rfl⟩ := hs
  obtain ⟨rfl, rfl⟩ := atEnd_eq_some hend
  obtain ⟨-, rfl⟩ := Prod.mk.inj (Option.some.inj hskip)
  exact ⟨ss, (spells_many1 spells_statement _ _ _ hss).2, rfl⟩

end Sdl

structure Argument.IsWritable (a : Argument) : Prop where
  name : IsName a.name
  type : a.type.IsWritable

structure Field.IsWritable (f : Field) : Prop where
  name : IsName f.name
  type : f.type.IsWritable
  arguments : ∀ a ∈ f.arguments, a.IsWritable

section Writable

open Sdl.Passage (exists_of_bracketed exists_of_inTurn allNames_of_listed)

variable {s r : List Char} {a : Argument} {f : Field} {b : Body}

theorem Argument.IsWritable.allNames (h : a.IsWritable) : AllNames a.names :=
  AllNames.cons h.name (AllNames.cons h.type.name (List.forall_mem_nil _))

theorem Field.IsWritable.allNames (h : f.IsWritable) : AllNames f.names :=
  AllNames.cons h.name (AllNames.cons h.type.name
    (AllNames.flatMap fun a ha => (h.arguments a ha).allNames))

theorem Argument.written.isWritable (h : a.written s r) : a.IsWritable := by
  obtain ⟨_, -, _, ⟨hn, -⟩, _, -, _, ⟨ht, -⟩, -⟩ := h
  exact ⟨hn, ht⟩

theorem Field.written.isWritable (h : f.written s r) : f.IsWritable := by
  obtain ⟨_, -, _, ⟨hn, -⟩, _, has, _, -, _, ⟨ht, -⟩, -⟩ := h
  refine ⟨hn, ht, fun a ha => ?_⟩
  obtain ⟨s', r', hwritten⟩ := exists_of_bracketed has a ha
  exact hwritten.isWritable

theorem Field.writtenAsInput.isWritable (h : f.writtenAsInput s r) : f.IsWritable := by
  obtain ⟨hnone, ha⟩ := h
  exact ⟨ha.isWritable.name, ha.isWritable.type, hnone ▸ List.forall_mem_nil _⟩

theorem Category.isWritable_of_fieldWritten {c : Category} (h : c.fieldWritten f s r) :
    f.IsWritable := by
  cases c with
  | input => exact Field.writtenAsInput.isWritable h
  | interface | object => exact Field.written.isWritable h

theorem Body.isWritable_of_written {c : Category} {is : List String} {fs : Table Field}
    (h : (Body.fields c is fs).written s r) : ∀ f ∈ fs.toList, f.IsWritable := by
  obtain ⟨l, rfl, _, -, _, -, _, hl, -⟩ := h
  intro f hf
  obtain ⟨s', r', hwritten⟩ := exists_of_bracketed hl f (Table.mem_ofList hf)
  exact Category.isWritable_of_fieldWritten hwritten

theorem Body.allNames_of_written (h : b.written s r) : AllNames b.names := by
  cases b with
  | enum vs =>
    obtain ⟨_, -, _, hvs, -⟩ := h
    refine List.forall_mem_map.2 fun v hv => ?_
    obtain ⟨_, _, _, -, _, ⟨hn, -⟩, -⟩ := exists_of_bracketed hvs v hv
    exact hn
  | fields c is fs =>
    exact AllNames.flatMap fun f hf => (Body.isWritable_of_written h f hf).allNames
  | scalar => exact List.forall_mem_nil _
  | union ms =>
    obtain ⟨_, -, _, hms, -⟩ := h
    exact allNames_of_listed hms

namespace Document.IsWritten

variable {doc : Document} {text : String} {source : Option String}

theorem exists_of_mem (h : doc.IsWritten text source) : ∀ d ∈ doc.definitions,
    ∃ s r, IsName d.type.name ∧ d.type.body.written s r := by
  obtain ⟨ss, hss, rfl⟩ := h
  intro d hd
  obtain ⟨x, hx, hd⟩ := List.mem_filterMap.1 hd
  obtain ⟨s, r, hwritten⟩ := exists_of_inTurn hss x hx
  cases x with
  | type x =>
    obtain rfl := Option.some.inj hd
    obtain ⟨-, _, -, _, -, _, ⟨hn, -⟩, q, hbody, -⟩ := hwritten
    exact ⟨_, q, hn, hbody⟩
  | schema _ _ _ | directive _ => cases hd

theorem allNames (h : doc.IsWritten text source) :
    ∀ d ∈ doc.definitions, AllNames d.type.names := by
  intro d hd
  obtain ⟨s, r, hn, hbody⟩ := h.exists_of_mem d hd
  exact AllNames.cons hn (Body.allNames_of_written hbody)

end Document.IsWritten

end Writable

end SchemaTypings
