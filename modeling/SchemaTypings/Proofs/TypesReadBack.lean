import SchemaTypings.Proofs.TypeIndependence
import SchemaTypings.Proofs.TypesInDocuments

namespace SchemaTypings

def fieldText (t : TypeRef) : String :=
  "type T \x7b f: " ++ t.text ++ " \x7d"

def fieldDocument (t : TypeRef) (source : Option String) : Document where
  roots := .undeclared
  definitions := [⟨false, ⟨"T", none, some ⟨source, 1, 1⟩,
    .fields .object [] (.ofList [⟨"f", t, none, []⟩])⟩⟩]

namespace Sdl

open Reader

section Readers

variable {α : Type} {p q : Reader α} {s : List Char} {x : α × List Char}

theorem orElse_of_some (h : p s = some x) : (p <|> q) s = some x := by
  change (p s <|> q s) = some x
  rw [h]
  rfl

theorem orElse_of_none (h : p s = none) (hq : q s = some x) : (p <|> q) s = some x := by
  change (p s <|> q s) = some x
  rw [h]
  exact hq

end Readers

theorem dropIgnored_of_isNameStart {c : Char} (hc : isNameStart c = true) (r : List Char) :
    dropIgnored false (c :: r) = c :: r := by
  have hignored : isIgnored c ≠ true := by
    intro hi
    simp only [isIgnored, isLineEnd, Bool.or_eq_true, beq_iff_eq] at hi
    obtain (((rfl | rfl) | rfl) | rfl) | rfl | rfl := hi <;> exact absurd hc (by decide)
  have hcomment : c ≠ '#' := by
    rintro rfl
    exact absurd hc (by decide)
  simp only [dropIgnored, hignored, hcomment, Bool.false_eq_true, ↓reduceIte]

variable {t : TypeRef}

theorem dropIgnored_text (hn : IsName t.baseName) (r : List Char) :
    dropIgnored false (t.text.toList ++ r) = t.text.toList ++ r := by
  induction t generalizing r with
  | named n =>
    obtain ⟨c, w, hw, hc, -⟩ := hn
    have hw : (TypeRef.named n).text.toList = c :: w := hw
    rw [hw]
    exact dropIgnored_of_isNameStart hc (w ++ r)
  | list t _ => rw [TypeRef.toList_text_list]; rfl
  | nonNull t ih =>
    rw [TypeRef.toList_text_nonNull]
    exact ih hn _

/-- What is read behind the bracket of the document of one field. -/
theorem field_text (ht : t.IsWritable) :
    field ("f: ".toList ++ (t.text.toList ++ " \x7d".toList)) =
      some ((⟨"f", t, none, []⟩, []), ['\x7d']) := by
  have hend : t.EndsBefore " \x7d".toList := TypeRef.endsBefore_cons (by decide) (by decide) t _
  have htype : typeRef (dropIgnored false (t.text.toList ++ " \x7d".toList)) =
      some (t, ['\x7d']) := by
    rw [dropIgnored_text ht.name]
    exact typeRef_eq_some.2 ⟨ht, _, rfl, hend, rfl⟩
  refine bind_eq_some.2 ⟨none, _, rfl, ?_⟩
  refine bind_eq_some.2 ⟨"f", _, rfl, ?_⟩
  refine bind_eq_some.2 ⟨[], _, rfl, ?_⟩
  refine bind_eq_some.2 ⟨(), _, rfl, ?_⟩
  exact bind_eq_some.2 ⟨t, _, htype, rfl⟩

theorem toList_fieldText (t : TypeRef) :
    (fieldText t).toList =
      "type T \x7b f: ".toList ++ (t.text.toList ++ " \x7d".toList) := by
  rw [fieldText, String.toList_append, String.toList_append, List.append_assoc]

theorem fields_text (ht : t.IsWritable) :
    fields ("\x7b f: ".toList ++ (t.text.toList ++ " \x7d".toList)) =
      some ([(⟨"f", t, none, []⟩, [])], []) := by
  refine bind_eq_some.2 ⟨(), _, rfl, ?_⟩
  refine bind_eq_some.2 ⟨_, _, bind_eq_some.2 ⟨_, _, field_text ht, rfl⟩, ?_⟩
  exact bind_eq_some.2 ⟨(), _, rfl, rfl⟩

theorem defined_text (ht : t.IsWritable) :
    defined (fieldText t).toList =
      some (("T", .fields .object [] (.ofList [⟨"f", t, none, []⟩]), []), []) := by
  have hrest : mayHave fields ("\x7b f: ".toList ++ (t.text.toList ++ " \x7d".toList)) =
      some (([], [(⟨"f", t, none, []⟩, [])]), []) := by
    refine bind_eq_some.2 ⟨[], _, rfl, ?_⟩
    exact bind_eq_some.2 ⟨_, _, orElse_of_some (fields_text ht), rfl⟩
  rw [toList_fieldText]
  refine orElse_of_none rfl (orElse_of_some ?_)
  refine bind_eq_some.2 ⟨(), _, rfl, ?_⟩
  refine bind_eq_some.2 ⟨"T", _, rfl, ?_⟩
  refine bind_eq_some.2 ⟨_, _, ?_, rfl⟩
  refine bind_eq_some.2 ⟨[], _, rfl, ?_⟩
  exact bind_eq_some.2 ⟨_, _, hrest, rfl⟩

theorem statements_text (ht : t.IsWritable) :
    statements (fieldText t).toList =
      some ([.type ⟨(fieldText t).toList.length, false, "T", none,
        .fields .object [] (.ofList [⟨"f", t, none, []⟩]), []⟩], []) := by
  have hstatement : statement (fieldText t).toList =
      some (.type ⟨(fieldText t).toList.length, false, "T", none,
        .fields .object [] (.ofList [⟨"f", t, none, []⟩]), []⟩, []) := by
    have hschema : schemaStatement (fieldText t).toList = none := by
      rw [toList_fieldText]
      rfl
    have hdescription : optional text (fieldText t).toList = some (none, (fieldText t).toList) := by
      rw [toList_fieldText]
      rfl
    refine orElse_of_none hschema (orElse_of_some ?_)
    refine bind_eq_some.2 ⟨_, _, rfl, orElse_of_some ?_⟩
    refine bind_eq_some.2 ⟨none, _, hdescription, ?_⟩
    exact bind_eq_some.2 ⟨_, _, defined_text ht, rfl⟩
  have hskip : skip (fieldText t).toList = some ((), (fieldText t).toList) := by
    rw [toList_fieldText]
    rfl
  refine bind_eq_some.2 ⟨(), _, hskip, ?_⟩
  refine bind_eq_some.2 ⟨_, _, bind_eq_some.2 ⟨_, _, hstatement, rfl⟩, ?_⟩
  exact bind_eq_some.2 ⟨(), _, rfl, rfl⟩

theorem originAt_start (chars : List Char) (source : Option String) :
    originAt (positions chars) source chars.length = ⟨source, 1, 1⟩ := by
  simp [originAt, positions, Position.start]

end Sdl

theorem parseDocument_fieldText {t : TypeRef} (ht : t.IsWritable) (source : Option String) :
    parseDocument (fieldText t) source = .ok (fieldDocument t source) := by
  have horigin := Sdl.originAt_start (fieldText t).toList source
  have hparse : Sdl.parse (fieldText t) source = .ok (fieldDocument t source) := by
    unfold Sdl.parse
    rw [Sdl.statements_text ht]
    change Except.ok (Document.mk _ [⟨false, ⟨"T", none, some (Sdl.originAt _ _ _), _⟩⟩]) = _
    rw [horigin]
    rfl
  unfold parseDocument
  rw [hparse]

theorem Schema.text_ne_of_conflict {s u : Schema} {d : SourceText} {type field : String}
    {t t' : TypeRef} (hs : ∀ x ∈ s.typeRefs, x.IsWritable)
    (h : s.addText d.1 d.2 = (u, some (.merge (.conflictingField type field t t')))) :
    t.text ≠ t'.text := by
  obtain ⟨hiff, -⟩ := addText_eq_error_iff s u d _
  obtain ⟨f, -, he, -⟩ | ⟨doc, before, x, after, m, c, hp, hsplit, hbefore, hx, he⟩ := hiff.1 h
  · cases he
  · obtain rfl := DocumentError.merge.inj he
    obtain ⟨ht, ht', hne⟩ := types_of_stops hx
    have hdoc := List.forall_mem_flatMap.1 (Sdl.isWritten_of_parse hp).isWritable
    rw [hsplit] at hdoc
    obtain ⟨hdefinitions, hrest⟩ := List.forall_mem_append.1 hdoc
    have hm : ∀ y ∈ m.typeRefs, y.IsWritable := by
      have hmerged := forall_typeRefs_mergeDefinitions
        (s := s.withRoots (s.roots.override doc.roots)) hs hdefinitions
      rwa [hbefore] at hmerged
    have hincoming := hrest x (List.mem_cons_self ..) t' ht'
    exact fun htext => hne ((hm t ht).text_inj hincoming htext)

/-- Every type that can be written is read back from its text. Conversely, the types of a document
can be written, and they are written where they are read, no two of them in one place. Hence types
of schemas are the same if their texts are, and the two types that a conflict names have different
texts. -/
theorem typeTexts_of_documents :
    (∀ (t : TypeRef) (source : Option String), t.IsWritable →
      parseDocument (fieldText t) source = .ok (fieldDocument t source)) ∧
    (∀ (text : String) (source : Option String) (doc : Document),
      parseDocument text source = .ok doc →
        doc.IsWritten text source ∧ ∀ t ∈ doc.typeRefs, t.IsWritable) ∧
    (∀ (t t' : TypeRef) (s r r' : List Char), t.written s r → t'.written s r' → t = t' ∧ r = r') ∧
    (∀ (docs docs' : List SourceText) (s s' : Schema),
      (Schema.empty.addTexts docs).build = .ok s → (Schema.empty.addTexts docs').build = .ok s' →
        ∀ t ∈ s.typeRefs, ∀ t' ∈ s'.typeRefs, t.text = t'.text → t = t') ∧
    ∀ (docs : List SourceText) (d : SourceText) (u : Schema) (type field : String)
      (t t' : TypeRef), (Schema.empty.addTexts docs).addText d.1 d.2 =
        (u, some (.merge (.conflictingField type field t t'))) → t.text ≠ t'.text := by
  have hadded : ∀ docs, ∀ x ∈ (Schema.empty.addTexts docs).typeRefs, x.IsWritable :=
    Schema.isWritable_addTexts (List.forall_mem_nil _)
  have hbuilt : ∀ docs s, (Schema.empty.addTexts docs).build = .ok s →
      ∀ x ∈ s.typeRefs, x.IsWritable := by
    intro docs s hs
    obtain ⟨rfl, -⟩ := Schema.build_eq_ok_iff.1 hs
    rw [Schema.typeRefs_withBuiltins]
    exact hadded docs
  refine ⟨fun t source ht => parseDocument_fieldText ht source, fun text source doc h => ?_,
    fun t t' s r r' h h' => ?_, fun docs docs' s s' hs hs' t ht t' ht' htext => ?_,
    fun docs d u type field t t' h => Schema.text_ne_of_conflict (hadded docs) h⟩
  · have hwritten := Sdl.isWritten_of_parse (parseDocument_ok h)
    exact ⟨hwritten, hwritten.isWritable⟩
  · have hread := Sdl.typeRef_eq_some.2 h
    rw [Sdl.typeRef_eq_some.2 h'] at hread
    obtain ⟨rfl, rfl⟩ := Prod.mk.inj (Option.some.inj hread)
    exact ⟨rfl, rfl⟩
  · exact (hbuilt docs s hs t ht).text_inj (hbuilt docs' s' hs' t' ht') htext

def markedLists : TypeRef :=
  .nonNull (.list (.list (.nonNull (.named "Int"))))

def unmarkedLists : TypeRef :=
  .list (.list (.named "Int"))

def listDocuments : List SourceText :=
  [("type T \x7b f(a: [[Int]]): [[Int!]]! \x7d", none)]

/-- The second type, written with what is passed over, for a field of the first one. -/
def unmarkedText : SourceText :=
  ("extend type T \x7b f : # not marked\n\t[[Int]], \x7d", some "second")

theorem typeTexts_lists :
    fieldText markedLists = "type T \x7b f: [[Int!]]! \x7d" ∧
    (fieldDocument markedLists none).IsWritten "type T \x7b f: [[Int!]]! \x7d" none ∧
    (∀ (t : TypeRef) (r : List Char), t.written "[[Int!]]! \x7d".toList r → t = markedLists) ∧
    (∃ s, (Schema.empty.addTexts listDocuments).build = .ok s ∧ markedLists ∈ s.typeRefs ∧
      unmarkedLists ∈ s.typeRefs ∧ markedLists.text ≠ unmarkedLists.text) ∧
    ∃ u, (Schema.empty.addTexts listDocuments).addText unmarkedText.1 unmarkedText.2 =
        (u, some (.merge (.conflictingField "T" "f" markedLists unmarkedLists))) ∧
      markedLists.text ≠ unmarkedLists.text := by
  obtain ⟨hread, hwritten, hunique, hdiffer, hconflict⟩ := typeTexts_of_documents
  have hdecided :
      (∃ s ∈ (Schema.empty.addTexts listDocuments).build.toOption,
        markedLists ∈ s.typeRefs ∧ unmarkedLists ∈ s.typeRefs) ∧
      ((Schema.empty.addTexts listDocuments).addText unmarkedText.1 unmarkedText.2).2 =
        some (.merge (.conflictingField "T" "f" markedLists unmarkedLists)) := by
    decide +kernel
  obtain ⟨⟨s, hs, hmarked, hunmarked⟩, herror⟩ := hdecided
  have hbuild := eq_ok_of_toOption hs
  have htext : fieldText markedLists = "type T \x7b f: [[Int!]]! \x7d" := by decide +kernel
  have hwritable : markedLists.IsWritable := ⟨rfl, 'I', ['n', 't'], rfl, by decide, by decide⟩
  have hdocument := hread markedLists none hwritable
  have hplace : markedLists.written "[[Int!]]! \x7d".toList ['\x7d'] :=
    ⟨hwritable, [' ', '\x7d'], rfl, trivial, rfl⟩
  have hdiffers : markedLists.text ≠ unmarkedLists.text := fun h => by
    have hsame := hdiffer _ _ s s hbuild hbuild _ hmarked _ hunmarked h
    exact absurd hsame (by decide)
  exact ⟨htext, htext ▸ (hwritten _ _ _ hdocument).1,
    fun t r ht => (hunique t markedLists _ r _ ht hplace).1,
    ⟨s, hbuild, hmarked, hunmarked, hdiffers⟩,
    _, Prod.ext rfl herror, hconflict listDocuments unmarkedText _ _ _ _ _ (Prod.ext rfl herror)⟩

end SchemaTypings
