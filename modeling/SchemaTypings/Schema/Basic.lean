import SchemaTypings.Schema.Definition

namespace SchemaTypings

def builtinScalars : List String := ["String", "Boolean", "Int", "Float", "ID"]

def reservedRoots : List String := ["Query", "Mutation"]

structure RootTypes where
  query : Option String
  mutation : Option String
  subscription : Option String
deriving DecidableEq

namespace RootTypes

def undeclared : RootTypes := ⟨none, none, none⟩

def toList (r : RootTypes) : List (Option String) :=
  [r.query, r.mutation, r.subscription]

def contains (r : RootTypes) (n : String) : Bool :=
  r.toList.contains (some n)

/-- What `later` declares takes the place of what was declared. -/
def override (r later : RootTypes) : RootTypes where
  query := later.query.or r.query
  mutation := later.mutation.or r.mutation
  subscription := later.subscription.or r.subscription

end RootTypes

structure Schema where
  roots : RootTypes
  types : Table TypeDef
deriving DecidableEq

namespace Schema

def empty : Schema := ⟨.undeclared, .empty⟩

def getType? (s : Schema) (n : String) : Option TypeDef :=
  s.types.get? n

def hasType (s : Schema) (n : String) : Bool :=
  s.types.contains n

def addType (s : Schema) (d : TypeDef) : Schema :=
  { s with types := s.types.insert d }

/-- A root type is reserved, or declared as a root operation type. -/
def isRoot (s : Schema) (d : TypeDef) : Bool :=
  reservedRoots.contains d.name || s.roots.contains d.name

end Schema

def TypeDef.isReservedRoot (d : TypeDef) : Bool :=
  reservedRoots.contains d.name

end SchemaTypings
