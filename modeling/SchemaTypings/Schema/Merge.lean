import SchemaTypings.Schema.Basic

namespace SchemaTypings

inductive MergeError where
  | duplicateDefinition (type : String) (existing incoming : Kind)
  | conflictingField (type field : String) (existing incoming : TypeRef)
deriving DecidableEq

def MergeError.message : MergeError → String
  | duplicateDefinition type existing incoming =>
    "duplicate definition of '" ++ type ++ "': already defined as " ++ existing.keyword ++
      ", redefined as " ++ incoming.keyword
  | conflictingField type field existing incoming =>
    "conflicting field '" ++ type ++ "." ++ field ++ "': " ++ existing.text ++ " vs " ++
      incoming.text

/-- What has been merged, and the error that stopped it. -/
abbrev Merged (α : Type) := α × Option MergeError

structure Definition where
  extend : Bool
  type : TypeDef
deriving DecidableEq

structure Document where
  roots : RootTypes
  definitions : List Definition
deriving DecidableEq

def addNew {α : Type} [Named α] (l : List α) : List α → List α
  | [] => l
  | a :: r => if l.any fun b => name b == name a then addNew l r else addNew (l ++ [a]) r

/-- A type without a description, or with an empty one, takes the incoming description. -/
def mergeDescription (current incoming : Option String) : Option String :=
  match current with
  | none => incoming
  | some d => if d.isEmpty then incoming.or current else current

/-- A field keeps its type and its arguments, and its description if it has one. -/
def Field.merge (current incoming : Field) : Field :=
  { current with description := current.description.or incoming.description }

def mergeFields (type : String) (current : Table Field) : List Field → Merged (Table Field)
  | [] => (current, none)
  | f :: fs =>
    match current.get? f.name with
    | none => mergeFields type (current.insert f) fs
    | some g =>
      if g.type = f.type then mergeFields type (current.insert (g.merge f)) fs
      else (current, some (.conflictingField type f.name g.type f.type))

/-- Bodies of one kind are merged; others exclude each other. -/
def mergeBody (type : String) (current incoming : Body) : Option (Merged Body) :=
  match current, incoming with
  | .enum vs, .enum ws => some (.enum (addNew vs ws), none)
  | .union ms, .union ns => some (.union (addNew ms ns), none)
  | .scalar, .scalar => some (.scalar, none)
  | .fields c is fs, .fields c' js gs =>
    if c = c' then
      let (fs, error) := mergeFields type fs gs.toList
      some (.fields c (addNew is js) fs, error)
    else none
  | _, _ => none

def TypeDef.merge (current incoming : TypeDef) : Merged TypeDef :=
  match mergeBody current.name current.body incoming.body with
  | none => (current, some (.duplicateDefinition current.name current.kind incoming.kind))
  | some (body, error) =>
    ({ current with
        description := mergeDescription current.description incoming.description
        origin := current.origin.or incoming.origin
        body }, error)

/-- The type that a definition brings in. An extension declares nothing, and neither does a
definition of a built-in scalar. -/
def Definition.incoming (d : Definition) : TypeDef :=
  if d.extend || (d.type.isScalar && builtinScalars.contains d.type.name) then d.type.withoutOrigin
  else d.type

namespace Schema

def mergeDefinition (s : Schema) (d : Definition) : Merged Schema :=
  match s.getType? d.type.name with
  | none => (s.addType d.incoming, none)
  | some current =>
    let (type, error) := current.merge d.incoming
    (s.addType type, error)

def mergeDefinitions (s : Schema) : List Definition → Merged Schema
  | [] => (s, none)
  | d :: ds =>
    match s.mergeDefinition d with
    | (s, none) => s.mergeDefinitions ds
    | (s, some e) => (s, some e)

def addDocument (s : Schema) (doc : Document) : Merged Schema :=
  mergeDefinitions { s with roots := s.roots.override doc.roots } doc.definitions

end Schema

end SchemaTypings
