import SchemaTypings.Proofs.Compatibility
import SchemaTypings.Proofs.Concatenation
import SchemaTypings.Proofs.SchemaRules

namespace SchemaTypings

theorem TypeDef.getField?_of_mem {t : TypeDef} {f : Field} (h : f ∈ t.fields) :
    t.getField? f.name = some f := by
  obtain ⟨n, description, origin, body⟩ := t
  cases body with
  | fields c is fs => exact Table.get?_of_mem h
  | enum vs | scalar | union ms => exact absurd h List.not_mem_nil

/-- All declarations of a field give it one type. -/
def SameTypes (l : List Field) : Prop :=
  ∀ f ∈ l, ∀ g ∈ l, f.name = g.name → f.type = g.type

instance (l : List Field) : Decidable (SameTypes l) :=
  inferInstanceAs (Decidable (∀ f ∈ l, ∀ g ∈ l, f.name = g.name → f.type = g.type))

namespace Schema

def fieldType? (s : Schema) (type field : String) : Option TypeRef :=
  (s.getType? type).bind fun t => (t.getField? field).map Field.type

variable {docs : List SourceText} {s : Schema}

theorem coherent_of_ofTexts (h : ofTexts docs = .ok s) :
    Coherent (docs.flatMap SourceText.definitions) := by
  rw [← mergeDefinitions_fits (SourceText.origin_flatMap_definitions docs)]
  obtain ⟨t, hrun, -⟩ := exists_of_ofTexts h
  rw [hrun]

theorem fieldType?_of_mem (h : ofTexts docs = .ok s) {d : Definition}
    (hd : d ∈ docs.flatMap SourceText.definitions) {f : Field} (hf : f ∈ d.type.fields) :
    s.fieldType? d.type.name f.name = some f.type := by
  obtain ⟨ht, -⟩ := ofTexts_tracks h
  obtain ⟨t, hmem, hname⟩ := List.mem_map.1 (ht.mem_names.2 (List.mem_map_of_mem hd))
  obtain ⟨first, rest, hds, hm⟩ := ht.entry t hmem
  have he : d ∈ first :: rest := hds ▸ mem_definitionsOf.2 ⟨hd, hname.symm⟩
  obtain ⟨g, hg, hgn, hgt⟩ := hm.exists_sameType ((coherent_of_ofTexts h).fits hds) he hf
  have htype : s.getType? d.type.name = some t :=
    (congrArg s.types.get? hname.symm).trans (Table.get?_of_mem hmem)
  rw [fieldType?, htype, Option.bind_some, ← hgn, TypeDef.getField?_of_mem hg, Option.map_some, hgt]

/-- What a definition declares of a field is the type of the field in the schema, but for the
declarations that a later one in the same definition replaces. -/
theorem fieldTypes_of_ofTexts (h : ofTexts docs = .ok s) :
    ∀ d ∈ docs.flatMap SourceText.definitions, ∀ c is l,
      d.type.body = .fields c is (.ofList l) →
      (∀ f ∈ l, s.fieldType? d.type.name f.name = (lastNamed f.name l).map Field.type) ∧
        ((∀ f ∈ l, s.fieldType? d.type.name f.name = some f.type) ↔ SameTypes l) := by
  intro d hd c is l hb
  have hlast : ∀ f ∈ l, ∃ g ∈ l, lastNamed f.name l = some g ∧ g.name = f.name ∧
      s.fieldType? d.type.name f.name = some g.type := by
    intro f hf
    obtain ⟨g, hg, hgl, hgn⟩ := exists_lastNamed hf
    have hmem : g ∈ d.type.fields := by
      rw [TypeDef.fields, hb]
      exact (Table.mem_of_get? ((Table.get?_ofList l _).trans hgl)).1
    have hgn : g.name = f.name := hgn
    exact ⟨g, hg, hgl, hgn, hgn ▸ fieldType?_of_mem h hd hmem⟩
  refine ⟨fun f hf => ?_, fun hall f hf g hg hn => ?_, fun hsame f hf => ?_⟩
  · obtain ⟨g, -, hgl, -, ht⟩ := hlast f hf
    rw [ht, hgl, Option.map_some]
  · have ht : some f.type = some g.type := by rw [← hall f hf, ← hall g hg, hn]
    exact Option.some.inj ht
  · obtain ⟨g, hg, -, hgn, ht⟩ := hlast f hf
    rw [ht, hsame g hg f hf hgn]

def redeclaredBlock : String := "{ a: Int a: String }"

def redeclared : String := "type T " ++ redeclaredBlock

def redeclaredFields : List Field :=
  [⟨"a", .named "Int", none, []⟩, ⟨"a", .named "String", none, []⟩]

theorem fieldTypes_redeclared :
    ∃ s, ofTexts [(redeclared, none)] = .ok s ∧
      s.fieldType? "T" "a" = some (.named "String") ∧
      ¬ ∀ f ∈ redeclaredFields, s.fieldType? "T" f.name = some f.type := by
  have hc : (ofTexts [(redeclared, none)]).isOk = true ∧
      (∃ d ∈ [(redeclared, none)].flatMap SourceText.definitions,
        d.type.name = "T" ∧ d.type.body = .fields .object [] (.ofList redeclaredFields)) ∧
      ¬ SameTypes redeclaredFields := by
    decide +kernel
  obtain ⟨hok, ⟨d, hd, hname, hb⟩, hdiffer⟩ := hc
  obtain ⟨s, hs⟩ := exists_of_isOk hok
  obtain ⟨hlast, hall⟩ := fieldTypes_of_ofTexts hs d hd _ _ _ hb
  rw [hname] at hlast hall
  exact ⟨s, hs, hlast _ (List.mem_cons_self ..), mt hall.1 hdiffer⟩

theorem redeclared_isOk :
    (ofTexts [(redeclared, none)]).isOk = true ∧
      (Sdl.fields redeclaredBlock.toList).map (fun x => Sdl.valuesOf x.1) =
        some redeclaredFields ∧
      ¬ SameTypes redeclaredFields := by
  decide +kernel

end Schema

end SchemaTypings
