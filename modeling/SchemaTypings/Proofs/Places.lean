import SchemaTypings.Proofs.MergeRuns
import SchemaTypings.Schema.Validation
import SchemaTypings.TypeScript.Declare

namespace SchemaTypings

/-- The one place that is left when places are forgotten. -/
def Origin.somewhere : Origin := ⟨none, 1, 1⟩

namespace TypeDef

def unplaced (d : TypeDef) : TypeDef :=
  { d with origin := d.origin.map fun _ => .somewhere }

theorem merge_unplaced (current incoming : TypeDef) :
    current.unplaced.merge incoming.unplaced =
      ((current.merge incoming).1.unplaced, (current.merge incoming).2) := by
  have ho : (current.origin.map fun _ => Origin.somewhere).or
      (incoming.origin.map fun _ => .somewhere) =
        (current.origin.or incoming.origin).map fun _ => .somewhere := by
    cases current.origin <;> rfl
  cases hb : mergeBody current.name current.body incoming.body with
  | none =>
    simp only [merge, hb, unplaced]
    rfl
  | some merged =>
    simp only [merge, hb, unplaced, ho]

end TypeDef

def Definition.unplaced (d : Definition) : Definition :=
  { d with type := d.type.unplaced }

theorem Definition.incoming_unplaced (d : Definition) : d.unplaced.incoming = d.incoming.unplaced := by
  have hd : d.unplaced.declares = d.declares := rfl
  rw [incoming_eq, incoming_eq, hd]
  cases d.declares <;> rfl

namespace Schema

/-- The schema without the places of its definitions. -/
def unplaced (s : Schema) : Schema :=
  { s with types := s.types.map TypeDef.unplaced fun _ => rfl }

theorem getType?_unplaced (s : Schema) (n : String) :
    s.unplaced.getType? n = (s.getType? n).map TypeDef.unplaced :=
  s.types.get?_map TypeDef.unplaced (fun _ => rfl) n

theorem hasType_unplaced (s : Schema) (n : String) : s.unplaced.hasType n = s.hasType n :=
  s.types.contains_map TypeDef.unplaced (fun _ => rfl) n

theorem addType_unplaced (s : Schema) (d : TypeDef) :
    s.unplaced.addType d.unplaced = (s.addType d).unplaced := by
  have h := Table.map_insert s.types TypeDef.unplaced (fun _ => rfl) d
  simp only [addType, unplaced, h]

theorem mergeDefinition_unplaced (s : Schema) (d : Definition) :
    s.unplaced.mergeDefinition d.unplaced =
      ((s.mergeDefinition d).1.unplaced, (s.mergeDefinition d).2) := by
  have hg : s.unplaced.getType? d.unplaced.type.name =
      (s.getType? d.type.name).map TypeDef.unplaced := s.getType?_unplaced d.type.name
  cases ht : s.getType? d.type.name with
  | none =>
    rw [ht] at hg
    simp only [mergeDefinition, ht, hg, Option.map_none, d.incoming_unplaced, addType_unplaced]
  | some t =>
    rw [ht] at hg
    simp only [mergeDefinition, ht, hg, Option.map_some, d.incoming_unplaced,
      TypeDef.merge_unplaced, addType_unplaced]

theorem mergeDefinitions_unplaced (s : Schema) (ds : List Definition) :
    s.unplaced.mergeDefinitions (ds.map Definition.unplaced) =
      ((s.mergeDefinitions ds).1.unplaced, (s.mergeDefinitions ds).2) :=
  mergeDefinitions_map mergeDefinition_unplaced s ds

theorem addBuiltin_unplaced (s : Schema) (n : String) :
    s.unplaced.addBuiltin n = (s.addBuiltin n).unplaced := by
  unfold addBuiltin
  rw [s.hasType_unplaced]
  split
  · rfl
  · exact s.addType_unplaced (builtin n)

theorem withBuiltins_unplaced (s : Schema) : s.unplaced.withBuiltins = s.withBuiltins.unplaced := by
  unfold withBuiltins
  induction builtinScalars generalizing s with
  | nil => rfl
  | cons n ns ih => rw [List.foldl_cons, List.foldl_cons, addBuiltin_unplaced, ih]

theorem violationOf_unplaced (s : Schema) (d : TypeDef) :
    s.unplaced.violationOf d.unplaced = s.violationOf d := by
  have hm : s.unplaced.missingReference d.unplaced = s.missingReference d := by
    simp only [missingReference, hasType_unplaced]
    rfl
  unfold violationOf
  rw [hm]
  rfl

theorem violation?_unplaced (s : Schema) : s.unplaced.violation? = s.violation? := by
  have h : s.unplaced.violationOf ∘ TypeDef.unplaced = s.violationOf :=
    funext s.violationOf_unplaced
  unfold violation?
  rw [← h, ← List.findSome?_map]
  rfl

theorem build_unplaced (s : Schema) : s.unplaced.build = s.build.map unplaced := by
  unfold build validate
  rw [withBuiltins_unplaced, violation?_unplaced]
  cases s.withBuiltins.violation? <;> rfl

theorem isDeclared_unplaced (s : Schema) (d : TypeDef) :
    s.unplaced.isDeclared d.unplaced = s.isDeclared d := by
  have ho : d.unplaced.hasOrigin = d.hasOrigin := Option.isSome_map ..
  rw [isDeclared, ho]
  rfl

theorem declarations_unplaced (s : Schema) (o : Options) :
    s.unplaced.declarations o = s.declarations o := by
  have hf : s.unplaced.isDeclared ∘ TypeDef.unplaced = s.isDeclared := funext s.isDeclared_unplaced
  have hd : o.declare ∘ TypeDef.unplaced = o.declare := funext fun _ => rfl
  have ht : s.unplaced.types.toList = s.types.toList.map TypeDef.unplaced := rfl
  rw [declarations, ht, List.filter_map, hf, List.flatMap_map]
  exact congrArg (o.preamble ++ (s.types.toList.filter s.isDeclared).flatMap ·) hd

theorem generate_unplaced (s : Schema) (o : Options) : s.unplaced.generate o = s.generate o := by
  rw [generate, declarations_unplaced, generate]

/-- Schemas that differ only in places are built alike and have the same declarations. -/
theorem build_of_unplaced_eq {s t : Schema} (h : s.unplaced = t.unplaced) :
    s.build.map unplaced = t.build.map unplaced ∧
      ∀ o, s.build.map (generate · o) = t.build.map (generate · o) := by
  have hb : s.build.map unplaced = t.build.map unplaced := by
    rw [← build_unplaced, h, build_unplaced]
  have hg : ∀ (o : Options) (r : Except Violation Schema),
      r.map (generate · o) = (r.map unplaced).map (generate · o) := by
    intro o r
    cases r with
    | error v => rfl
    | ok u => exact congrArg Except.ok (u.generate_unplaced o).symm
  exact ⟨hb, fun o => by rw [hg, hb, ← hg]⟩

end Schema

end SchemaTypings
