import SchemaTypings.Schema.TypeRef
import SchemaTypings.Table

namespace SchemaTypings

def unnamedDocument : String := "<sdl>"

/-- Where a definition begins: a document, a line and a column, both counted from one. -/
structure Origin where
  source : Option String
  line : Nat
  column : Nat
deriving DecidableEq

def Origin.text (o : Origin) : String :=
  o.source.getD unnamedDocument ++ ":" ++ toString o.line ++ ":" ++ toString o.column

structure Argument where
  name : String
  type : TypeRef
  description : Option String
deriving DecidableEq

structure Field where
  name : String
  type : TypeRef
  description : Option String
  arguments : List Argument
deriving DecidableEq

def Field.isCallable (f : Field) : Bool :=
  !f.arguments.isEmpty

structure EnumValue where
  name : String
  description : Option String
deriving DecidableEq

instance : Named Field := ⟨Field.name⟩
instance : Named EnumValue := ⟨EnumValue.name⟩

instance : Named String := ⟨id⟩

inductive Kind where
  | enum | object | interface | input | scalar | union
deriving DecidableEq

def Kind.keyword : Kind → String
  | enum => "enum"
  | object => "type"
  | interface => "interface"
  | input => "input"
  | scalar => "scalar"
  | union => "union"

inductive Category where
  | input | interface | object
deriving DecidableEq

def Category.kind : Category → Kind
  | input => .input
  | interface => .interface
  | object => .object

inductive Body where
  | enum (values : List EnumValue)
  | fields (category : Category) (implements : List String) (fields : Table Field)
  | scalar
  | union (members : List String)
deriving DecidableEq

def Body.kind : Body → Kind
  | enum _ => .enum
  | fields c _ _ => c.kind
  | scalar => .scalar
  | union _ => .union

structure TypeDef where
  name : String
  description : Option String
  origin : Option Origin
  body : Body
deriving DecidableEq

instance : Named TypeDef := ⟨TypeDef.name⟩

namespace TypeDef

def kind (d : TypeDef) : Kind :=
  d.body.kind

def isScalar (d : TypeDef) : Bool :=
  d.kind == .scalar

def hasOrigin (d : TypeDef) : Bool :=
  d.origin.isSome

def withoutOrigin (d : TypeDef) : TypeDef :=
  { d with origin := none }

def addField? (d : TypeDef) (f : Field) : Option TypeDef :=
  match d.body with
  | .fields c is fs => some { d with body := .fields c is (fs.insert f) }
  | _ => none

def getField? (d : TypeDef) (n : String) : Option Field :=
  match d.body with
  | .fields _ _ fs => fs.get? n
  | _ => none

def addValue? (d : TypeDef) (v : EnumValue) : Option TypeDef :=
  match d.body with
  | .enum vs => some { d with body := .enum (vs ++ [v]) }
  | _ => none

def values (d : TypeDef) : List EnumValue :=
  match d.body with
  | .enum vs => vs
  | _ => []

def getValue? (d : TypeDef) (n : String) : Option EnumValue :=
  d.values.find? fun v => v.name == n

end TypeDef

end SchemaTypings
