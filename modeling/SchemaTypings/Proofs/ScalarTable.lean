import SchemaTypings.Proofs.DocumentHistory
import SchemaTypings.Proofs.OptionScopes

namespace SchemaTypings

open TypeScript

namespace Options

variable {o : Options} {first : List ScalarMapping} {n : String}

def withScalars (o : Options) (ms : List ScalarMapping) : Options :=
  ms.foldl (fun o m => o.withScalar m.scalar m.type) o

theorem scalars_withScalars (o : Options) (ms : List ScalarMapping) :
    (o.withScalars ms).scalars = o.scalars.insertAll ms := by
  induction ms generalizing o with
  | nil => rfl
  | cons m ms ih => exact ih (o.withScalar m.scalar m.type)

/-- The options hold what has been given, and nothing else. -/
theorem scalars_of_given (h : o.scalars = .ofList first) (later : List ScalarMapping) :
    (o.withScalars later).scalars = .ofList (first ++ later) := by
  rw [scalars_withScalars, h]
  exact (Table.insertAll_append .empty first later).symm

theorem names_builtinMappings : builtinMappings.names = builtinScalars := by
  decide

theorem names_resolvedScalars (o : Options) :
    o.resolvedScalars.names = builtinScalars ++ o.scalars.names.filter (· ∉ builtinScalars) := by
  rw [resolvedScalars, Table.names_insertAll, names_unseen_of_nodup o.scalars.nodup,
    names_builtinMappings]
  rfl

theorem get?_resolvedScalars (o : Options) (n : String) :
    o.resolvedScalars.get? n = (o.scalars.get? n).or (builtinMappings.get? n) :=
  builtinMappings.get?_overlay o.scalars n

theorem get?_resolvedScalars_eq_none :
    o.resolvedScalars.get? n = none ↔ n ∉ builtinScalars ∧ n ∉ o.scalars.names := by
  rw [get?_resolvedScalars, Option.or_eq_none_iff, Table.get?_eq_none, Table.get?_eq_none,
    names_builtinMappings, and_comm]

theorem scalarType_eq (o : Options) (n : String) :
    o.scalarType n = (o.resolvedScalars.get? n).elim "any" ScalarMapping.type := by
  rw [scalarType]
  cases o.resolvedScalars.get? n <;> rfl

end Options

namespace TypeScript.Declaration

def isScalarAlias : Declaration → Bool
  | typeAlias _ _ _ => true
  | _ => false

end TypeScript.Declaration

open Declaration (isScalarAlias)

namespace Options

theorem scalarAliases_preamble (o : Options) :
    o.preamble.filter isScalarAlias = builtinScalars.map (o.scalarAlias none) :=
  rfl

theorem scalarAliases_groups (o : Options) (c : Category) (owner : String) (fs : List Field) :
    (o.groups c owner fs).filter isScalarAlias = [] := by
  refine List.filter_eq_nil_iff.2 fun x hx => ?_
  unfold groups at hx
  split at hx
  · obtain ⟨f, -, rfl⟩ := List.mem_map.1 hx
    exact Bool.false_ne_true
  · cases hx

theorem scalarAliases_declare (o : Options) (t : TypeDef) :
    (o.declare t).filter isScalarAlias =
      if t.isScalar then [o.scalarAlias t.description t.name] else [] := by
  obtain ⟨n, description, origin, body⟩ := t
  cases body with
  | enum vs | union ms | scalar => rfl
  | fields c is fs =>
    have hgroups := o.scalarAliases_groups c n fs.toList
    cases c <;> simp [declare, declareFields, hgroups, container, isScalarAlias] <;> rfl

end Options

/-- The aliases of scalars are those of the preamble and those of the declared scalar types. -/
theorem Schema.scalarAliases_declarations (s : Schema) (o : Options) :
    (s.declarations o).filter isScalarAlias =
      builtinScalars.map (o.scalarAlias none) ++
        ((s.types.toList.filter s.isDeclared).filter TypeDef.isScalar).map fun t =>
          o.scalarAlias t.description t.name := by
  rw [declarations, List.filter_append, o.scalarAliases_preamble, List.filter_flatMap]
  congr 1
  induction s.types.toList.filter s.isDeclared with
  | nil => rfl
  | cons t ts ih =>
    rw [List.flatMap_cons, ih, o.scalarAliases_declare]
    by_cases ht : t.isScalar = true <;> simp [ht]

/-- The table of scalars has the built-in ones first and then the others, in the order in which they
were first given. Each has the mapping that was given last, or else the one that is built in. The
aliases of an output read this table, and a scalar that it does not have may be anything. -/
theorem scalarAliases_of_given {o : Options} {first : List ScalarMapping}
    (h : o.scalars = .ofList first) (later : List ScalarMapping) :
    (o.withScalars later).scalars = .ofList (first ++ later) ∧
    (o.withScalars later).resolvedScalars.names = builtinScalars ++
      ((firstSeen (first ++ later)).map name).filter (· ∉ builtinScalars) ∧
    (o.withScalars later).resolvedScalars.names.Nodup ∧
    (∀ n, (o.withScalars later).resolvedScalars.get? n =
      (lastNamed n (first ++ later)).or (Options.builtinMappings.get? n)) ∧
    (∀ n, (o.withScalars later).resolvedScalars.get? n = none ↔
      n ∉ builtinScalars ∧ n ∉ (first ++ later).map name) ∧
    ∀ s : Schema,
      s.generate (o.withScalars later) = (o.withScalars later).namespaceText
        ((s.declarations (o.withScalars later)).map Declaration.text) ∧
      (s.declarations (o.withScalars later)).filter isScalarAlias =
        builtinScalars.map (fun n => .typeAlias none n
          (((o.withScalars later).resolvedScalars.get? n).elim "any" ScalarMapping.type)) ++
        ((s.types.toList.filter s.isDeclared).filter TypeDef.isScalar).map fun t =>
          .typeAlias t.description t.name
            (((o.withScalars later).resolvedScalars.get? t.name).elim "any" ScalarMapping.type) := by
  have hgiven := Options.scalars_of_given h later
  have hnames : (o.withScalars later).scalars.names = (firstSeen (first ++ later)).map name := by
    rw [hgiven, Table.names_ofList]
  refine ⟨hgiven, ?_, (o.withScalars later).resolvedScalars.nodup, fun n => ?_, fun n => ?_,
    fun s => ⟨rfl, ?_⟩⟩
  · rw [Options.names_resolvedScalars, hnames]
  · rw [Options.get?_resolvedScalars, hgiven, Table.get?_ofList]
  · rw [Options.get?_resolvedScalars_eq_none, hnames, mem_names_firstSeen]
  · simp only [← Options.scalarType_eq]
    exact s.scalarAliases_declarations (o.withScalars later)

def mappedJson : String :=
  "\x7b\"customScalarTypes\": \x7b\"Date\": \"Date\", \"ID\": \"string\", \"Date\": \"string\"\x7d\x7d"

def mappedFirst : List ScalarMapping := [⟨"Date", "Date"⟩, ⟨"ID", "string"⟩, ⟨"Date", "string"⟩]

def mappedLater : List ScalarMapping := [⟨"Time", "number"⟩, ⟨"ID", "number"⟩]

def mappedText : String := "\"A day\" scalar Date scalar Odd extend scalar Time @a"

theorem scalarAliases_mappedText :
    ∃ o s, Options.fromJson mappedJson = .ok o ∧ o.scalars = .ofList mappedFirst ∧
      Schema.ofText mappedText = .ok s ∧
      (o.withScalars mappedLater).resolvedScalars.names =
        ["String", "Boolean", "Int", "Float", "ID", "Date", "Time"] ∧
      (s.declarations (o.withScalars mappedLater)).filter isScalarAlias = [
        .typeAlias none "String" "string", .typeAlias none "Boolean" "boolean",
        .typeAlias none "Int" "number", .typeAlias none "Float" "number",
        .typeAlias none "ID" "number", .typeAlias (some "A day") "Date" "string",
        .typeAlias none "Odd" "any"] := by
  have hjson : ∃ o ∈ (Options.fromJson mappedJson).toOption, o.scalars = .ofList mappedFirst := by
    decide +kernel
  have htext : ∃ s ∈ (Schema.ofText mappedText).toOption,
      ((s.types.toList.filter s.isDeclared).filter TypeDef.isScalar).map (fun t =>
        (t.description, t.name)) = [(some "A day", "Date"), (none, "Odd")] := by
    decide +kernel
  obtain ⟨o, ho, hfirst⟩ := hjson
  obtain ⟨s, hs, hscalars⟩ := htext
  obtain ⟨-, hnames, -, hget, -, hall⟩ := scalarAliases_of_given hfirst mappedLater
  obtain ⟨-, haliases⟩ := hall s
  have htypes := congrArg (List.map fun p : Option String × String =>
    Declaration.typeAlias p.1 p.2
      (((o.withScalars mappedLater).resolvedScalars.get? p.2).elim "any" ScalarMapping.type)) hscalars
  rw [List.map_map] at htypes
  refine ⟨o, s, eq_ok_of_toOption ho, hfirst, eq_ok_of_toOption hs, hnames.trans (by decide),
    haliases.trans ?_⟩
  refine (congrArg (_ ++ ·) htypes).trans ?_
  simp only [hget]
  decide

end SchemaTypings
