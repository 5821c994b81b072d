import SchemaTypings.Generate
import SchemaTypings.Proofs.RepeatedDocuments
import SchemaTypings.Proofs.StoppedMerges

namespace SchemaTypings

open Files (FileTree discover)

theorem Sdl.parse_eq_error_of_name {text : String} {source : Option String} {f : Fault}
    (h : parse text source = .error f) (source' : Option String) : parse text source' = .error f := by
  unfold parse at h ⊢
  cases hs : statements text.toList with
  | none => rwa [hs] at h
  | some p =>
    rw [hs] at h
    cases hf : p.1.findSome? Sdl.Statement.fault? with
    | some f' => simpa only [hf] using h
    | none => simp [hf] at h

/-- Two readings of the same documents end alike if only names tell them apart: those in the places
of definitions, and the names `a` and `b` of a malformed document. -/
inductive ReadAlike (a b : String) : Except DocumentError Schema → Except DocumentError Schema → Prop
  | schema {s t : Schema} (same : s.unplaced = t.unplaced) : ReadAlike a b (.ok s) (.ok t)
  | malformed (f : Sdl.Fault) : ReadAlike a b (.error (.malformed a f)) (.error (.malformed b f))
  | merge (e : MergeError) : ReadAlike a b (.error (.merge e)) (.error (.merge e))

theorem Schema.readAlike_addText? (text : String) (a b : Option String) :
    ReadAlike (a.getD unnamedDocument) (b.getD unnamedDocument) (empty.addText? text a)
      (empty.addText? text b) := by
  cases hp : Sdl.parse text a with
  | error f =>
    have hp' := Sdl.parse_eq_error_of_name hp b
    unfold addText?
    rw [addText_of_malformed (d := (text, a)) hp, addText_of_malformed (d := (text, b)) hp']
    exact .malformed f
  | ok doc =>
    have hd : SourceText.IsDocument (text, a) := ⟨doc, by unfold parseDocument; rw [hp]⟩
    have hcut := (SourceText.isCutOf_rename hd b).mergeDefinitions
    rw [List.flatMap_singleton] at hcut
    rw [addText?_eq (d := (text, a)) hd, addText?_eq (d := (text, b)) (hd.rename b),
      SourceText.roots_rename hd b]
    cases hu : empty.mergeDefinitions (SourceText.definitions (text, a)) with
    | mk u error =>
      cases hv : empty.mergeDefinitions (SourceText.definitions (text, b)) with
      | mk v error' =>
        rw [hu, hv] at hcut
        obtain ⟨hschema, rfl⟩ := hcut
        cases error with
        | none =>
          have hroots := congrArg
            (Schema.withRoots · (empty.roots.override (SourceText.roots (text, a)))) hschema
          exact .schema hroots
        | some e => exact .merge e

/-- What is made of documents that have been read: the declarations of their schema, or an error.
Errors of documents are wrapped by `wrap`. -/
def finish (wrap : DocumentError → GenerateError) (o : Options) :
    Except DocumentError Schema → Except GenerateError String
  | .error e => .error (wrap e)
  | .ok s =>
    match s.build with
    | .error v => .error (.schema (.violation v))
    | .ok s => .ok (s.generate o)

/-- How generating from a text without a name ends, and how it ends where the text is a document of
the given name and errors of documents are wrapped by `wrap`. -/
inductive EndsAlike (document : String) (wrap : DocumentError → GenerateError) :
    Except GenerateError String → Except GenerateError String → Prop
  | written (out : String) : EndsAlike document wrap (.ok out) (.ok out)
  | malformed (f : Sdl.Fault) : EndsAlike document wrap
    (.error (.schema (.document (.malformed unnamedDocument f))))
    (.error (wrap (.malformed document f)))
  | merge (e : MergeError) : EndsAlike document wrap (.error (.schema (.document (.merge e))))
    (.error (wrap (.merge e)))
  | violation (v : Violation) : EndsAlike document wrap (.error (.schema (.violation v)))
    (.error (.schema (.violation v)))

section Ends

variable {document : String} {wrap : DocumentError → GenerateError} {o : Options}
  {r r' : Except DocumentError Schema} {x y : Except GenerateError String}

theorem ReadAlike.endsAlike (h : ReadAlike unnamedDocument document r r') (o : Options)
    (wrap : DocumentError → GenerateError) :
    EndsAlike document wrap (finish (fun e => .schema (.document e)) o r) (finish wrap o r') := by
  cases h with
  | malformed f => exact .malformed f
  | merge e => exact .merge e
  | @schema s t same =>
    obtain ⟨-, hgenerate⟩ := Schema.build_of_unplaced_eq same
    have hbuild := hgenerate o
    cases hs : s.build with
    | error v =>
      cases ht : t.build with
      | error v' =>
        rw [hs, ht] at hbuild
        obtain rfl := Except.error.inj hbuild
        simp only [finish, hs, ht]
        exact .violation v
      | ok t' =>
        rw [hs, ht] at hbuild
        cases hbuild
    | ok s' =>
      cases ht : t.build with
      | error v =>
        rw [hs, ht] at hbuild
        cases hbuild
      | ok t' =>
        rw [hs, ht] at hbuild
        have hout : s'.generate o = t'.generate o := Except.ok.inj hbuild
        simp only [finish, hs, ht, hout]
        exact .written _

theorem EndsAlike.eq_ok_iff (h : EndsAlike document wrap x y) (out : String) :
    y = .ok out ↔ x = .ok out := by
  cases h <;> simp

theorem EndsAlike.eq_of_malformed {f : Sdl.Fault}
    (h : EndsAlike document wrap (.error (.schema (.document (.malformed unnamedDocument f)))) y) :
    y = .error (wrap (.malformed document f)) := by
  cases h
  rfl

theorem finish_eq (wrap : DocumentError → GenerateError) (o : Options) (s : Schema) :
    (do let s ← s.buildChecked.mapError .schema; return s.generate o) = finish wrap o (.ok s) := by
  unfold Schema.buildChecked
  simp only [finish]
  cases s.build <;> rfl

theorem generateFromText_eq (text : String) (o : Options) :
    generateFromText text o =
      finish (fun e => .schema (.document e)) o (Schema.empty.addText? text none) := by
  unfold generateFromText Schema.ofText
  cases Schema.empty.addText? text none with
  | error e => rfl
  | ok s => exact finish_eq _ o s

end Ends

namespace Files.FileTree

variable {t : FileTree} {path text : String}

def Holds (t : FileTree) (path text : String) : Prop :=
  t.resolvedEntry? path = some (.file text.toUTF8)

instance (t : FileTree) (path text : String) : Decidable (t.Holds path text) :=
  match h : t.resolvedEntry? path with
  | some (.file content) =>
    decidable_of_iff (content.data = text.toUTF8.data) (by simp [Holds, h, ByteArray.ext_iff])
  | some (.directory _) | some .socket | some (.link _) | none => isFalse (by simp [Holds, h])

theorem holds_of_resolve {found : String} (h : t.Holds path text)
    (hsame : t.resolve found = t.resolve path) : t.Holds found text := by
  rwa [Holds, resolvedEntry?, hsame]

theorem fromUTF8?_toUTF8 (text : String) : String.fromUTF8? text.toUTF8 = some text := by
  have h : text.toUTF8.IsValidUTF8 := text.isValidUTF8
  rw [String.fromUTF8?, dif_pos h]
  rfl

theorem read_of_holds (h : t.Holds path text) : t.read path = .ok text := by
  rw [Holds, resolvedEntry?] at h
  split at h
  · next pos hpos => simp only [read, hpos, bind, Except.bind, h, fromUTF8?_toUTF8]
  · cases h

theorem generateFromFile_eq (h : t.Holds path text) (o : Options) :
    t.generateFromFile path o = finish .document o (Schema.empty.addText? text (some path)) := by
  unfold generateFromFile
  rw [read_of_holds h]
  change ((Schema.empty.addText? text (some path)).mapError GenerateError.document >>= _) = _
  cases Schema.empty.addText? text (some path) with
  | error e => rfl
  | ok s => exact finish_eq _ o s

theorem foldlM_addFile? {files : List (String × String)} (h : ∀ f ∈ files, t.Holds f.1 f.2)
    (s : Schema) :
    (files.map Prod.fst).foldlM t.addFile? s =
      (files.map fun f => ((f.2, some f.1) : SourceText)).foldlM
        (fun s d => s.addText? d.1 d.2) s := by
  induction files generalizing s with
  | nil => rfl
  | cons f files ih =>
    obtain ⟨hf, hfiles⟩ := List.forall_mem_cons.1 h
    have hadd : t.addFile? s f.1 = s.addText? f.2 (some f.1) := by
      unfold addFile?
      rw [read_of_holds hf]
      rfl
    rw [List.map_cons, List.map_cons, List.foldlM_cons, List.foldlM_cons, hadd]
    exact congrArg _ (funext fun u => ih hfiles u)

theorem generateFromPatterns_eq {dir : String} {patterns : List String}
    {files : List (String × String)} (hd : discover t dir patterns = .ok (files.map Prod.fst))
    (h : ∀ f ∈ files, t.Holds f.1 f.2) (o : Options) :
    t.generateFromPatterns dir patterns o =
      finish (fun e => .schema (.document e)) o
        (Schema.ofTexts (files.map fun f => (f.2, some f.1))) := by
  unfold generateFromPatterns schemaOfPatterns schemaOfFiles Schema.ofTexts
  rw [hd]
  change ((((files.map Prod.fst).foldlM t.addFile? Schema.empty).mapError SchemaError.document >>=
    Schema.buildChecked).mapError GenerateError.schema >>= fun s => pure (s.generate o)) = _
  rw [foldlM_addFile? h]
  cases (files.map fun f => ((f.2, some f.1) : SourceText)).foldlM
      (fun s d => s.addText? d.1 d.2) Schema.empty with
  | error e => rfl
  | ok s => exact finish_eq _ o s

/-- A text and a file that holds it make the same declarations or fail for the same reason, and so do
patterns that find just this file. Patterns that find several files make what their texts make when
these are added one after another. -/
theorem generate_of_holds (t : FileTree) (o : Options) :
    (∀ path text, t.Holds path text →
      (∀ out, t.generateFromFile path o = .ok out ↔ generateFromText text o = .ok out) ∧
      EndsAlike path .document (generateFromText text o) (t.generateFromFile path o) ∧
      ∀ dir patterns found, discover t dir patterns = .ok [found] →
        t.resolve found = t.resolve path →
        (∀ out, t.generateFromPatterns dir patterns o = .ok out ↔
          generateFromText text o = .ok out) ∧
        EndsAlike found (fun e => .schema (.document e)) (generateFromText text o)
          (t.generateFromPatterns dir patterns o)) ∧
    ∀ dir patterns (files : List (String × String)),
      discover t dir patterns = .ok (files.map Prod.fst) → (∀ f ∈ files, t.Holds f.1 f.2) →
      t.generateFromPatterns dir patterns o =
        finish (fun e => .schema (.document e)) o
          (Schema.ofTexts (files.map fun f => (f.2, some f.1))) := by
  refine ⟨fun path text h => ?_, fun dir patterns files hd h => generateFromPatterns_eq hd h o⟩
  have hread := fun name : String => Schema.readAlike_addText? text none (some name)
  have hfile : EndsAlike path .document (generateFromText text o) (t.generateFromFile path o) := by
    rw [generateFromText_eq, generateFromFile_eq h]
    exact (hread path).endsAlike o .document
  refine ⟨hfile.eq_ok_iff, hfile, fun dir patterns found hd hsame => ?_⟩
  have hfound := holds_of_resolve h hsame
  have hpatterns : EndsAlike found (fun e => .schema (.document e)) (generateFromText text o)
      (t.generateFromPatterns dir patterns o) := by
    have hone : Schema.ofTexts [(text, some found)] =
        Schema.empty.addText? text (some found) := by
      rw [Schema.ofTexts, List.foldlM_cons]
      cases Schema.empty.addText? text (some found) <;> rfl
    have hfiles : ∀ f ∈ [(found, text)], t.Holds f.1 f.2 := List.forall_mem_singleton.2 hfound
    rw [generateFromText_eq, generateFromPatterns_eq hd hfiles, List.map_singleton, hone]
    exact (hread found).endsAlike o _
  exact ⟨hpatterns.eq_ok_iff, hpatterns⟩

def scattered : FileTree :=
  ((((FileTree.empty.enter "/home").addFile
    "root/query.graphql" "type Query { a: Int }".toUTF8).addFile
    "/types/more.graphql" "extend type Query { b: Query }".toUTF8).addFile
    "bad/open.graphql" "type \x7b".toUTF8).add
    "/links/query.graphql" (.link "../home/root/query.graphql")

theorem generate_scattered :
    (∃ out, generateFromText "type Query { a: Int }" .default = .ok out ∧
      scattered.generateFromFile "/home/root/query.graphql" .default = .ok out ∧
      scattered.generateFromPatterns "/home/root" ["./*"] .default = .ok out ∧
      scattered.generateFromPatterns "/" ["links/*"] .default = .ok out) ∧
    scattered.generateFromFile "bad/open.graphql" .default =
      .error (.document (.malformed "bad/open.graphql" .grammar)) ∧
    scattered.generateFromPatterns "." ["bad/*"] .default =
      .error (.schema (.document (.malformed "bad/open.graphql" .grammar))) ∧
    scattered.generateFromPatterns "" ["../types/*", "root/*"] .default =
      finish (fun e => .schema (.document e)) .default
        (Schema.ofTexts [("extend type Query { b: Query }", some "../types/more.graphql"),
          ("type Query { a: Int }", some "root/query.graphql")]) := by
  have hheld : scattered.Holds "/home/root/query.graphql" "type Query { a: Int }" ∧
      scattered.Holds "root/query.graphql" "type Query { a: Int }" ∧
      scattered.Holds "../types/more.graphql" "extend type Query { b: Query }" ∧
      scattered.Holds "bad/open.graphql" "type \x7b" := by
    decide +kernel
  have hdecided :
      (discover scattered "/home/root" ["./*"]).toOption = some ["/home/root/query.graphql"] ∧
      (discover scattered "/" ["links/*"]).toOption = some ["/links/query.graphql"] ∧
      (discover scattered "." ["bad/*"]).toOption = some ["bad/open.graphql"] ∧
      (discover scattered "" ["../types/*", "root/*"]).toOption =
        some ["../types/more.graphql", "root/query.graphql"] ∧
      scattered.resolve "/links/query.graphql" = scattered.resolve "/home/root/query.graphql" ∧
      (generateFromText "type Query { a: Int }" .default).isOk = true := by
    decide +kernel
  have hfault : generateFromText "type \x7b" .default =
      .error (.schema (.document (.malformed unnamedDocument .grammar))) := rfl
  obtain ⟨hquery, hroot, hmore, hopen⟩ := hheld
  obtain ⟨hhome, hlink, hbad, hboth, hsame, hok⟩ := hdecided
  obtain ⟨out, hout⟩ := exists_of_isOk hok
  obtain ⟨hone, hseveral⟩ := generate_of_holds scattered .default
  obtain ⟨hfile, -, hpatterns⟩ := hone _ _ hquery
  obtain ⟨hhomes, -⟩ := hpatterns "/home/root" ["./*"] _ (eq_ok_of_toOption hhome) rfl
  obtain ⟨hlinks, -⟩ := hpatterns "/" ["links/*"] _ (eq_ok_of_toOption hlink) hsame
  obtain ⟨-, hends, hbads⟩ := hone _ _ hopen
  obtain ⟨-, hendsBad⟩ := hbads "." ["bad/*"] _ (eq_ok_of_toOption hbad) rfl
  rw [hfault] at hends hendsBad
  refine ⟨⟨out, hout, (hfile out).2 hout, (hhomes out).2 hout, (hlinks out).2 hout⟩,
    hends.eq_of_malformed, hendsBad.eq_of_malformed, ?_⟩
  exact hseveral "" ["../types/*", "root/*"]
    [("../types/more.graphql", "extend type Query { b: Query }"),
      ("root/query.graphql", "type Query { a: Int }")] (eq_ok_of_toOption hboth)
    (List.forall_mem_cons.2 ⟨hmore, List.forall_mem_singleton.2 hroot⟩)

end Files.FileTree

end SchemaTypings
