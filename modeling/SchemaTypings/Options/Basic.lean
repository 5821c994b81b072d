import SchemaTypings.Schema.Definition
import SchemaTypings.Text.Quoted
import SchemaTypings.Text.Replace

namespace SchemaTypings

inductive EnumStyle where
  | enum | type
deriving DecidableEq

inductive ObjectStyle where
  | interface | type
deriving DecidableEq

inductive Visibility where
  | exported | declared | plain
deriving DecidableEq

def Visibility.modifier : Visibility → String
  | exported => "export "
  | declared => "declare "
  | plain => ""

/-- How the expression of a type is made nullable: by a union with null and undefined, by a template
in which an empty pair of braces stands for the expression, or by any function. -/
inductive NullableRenderer where
  | standard
  | template (text : String)
  | custom (render : String → String)

namespace NullableRenderer

def render : NullableRenderer → String → String
  | standard, e => e ++ " | null | undefined"
  | template t, e => String.ofList (Text.replacePair '{' '}' e.toList t.toList)
  | custom f, e => f e

/-- Which kind of renderer it is; a function is not shown. -/
def describe : NullableRenderer → String
  | standard => "Default"
  | template t => "Template(" ++ Text.quoted t ++ ")"
  | custom _ => "Custom(..)"

end NullableRenderer

structure NullableRenderers where
  input : NullableRenderer
  interface : NullableRenderer
  object : NullableRenderer

namespace NullableRenderers

def standard : NullableRenderers := ⟨.standard, .standard, .standard⟩

def get (r : NullableRenderers) : Category → NullableRenderer
  | .input => r.input
  | .interface => r.interface
  | .object => r.object

def set (r : NullableRenderers) (c : Category) (new : NullableRenderer) : NullableRenderers :=
  match c with
  | .input => { r with input := new }
  | .interface => { r with interface := new }
  | .object => { r with object := new }

end NullableRenderers

structure ScalarMapping where
  scalar : String
  type : String
deriving DecidableEq

instance : Named ScalarMapping := ⟨ScalarMapping.scalar⟩

structure Options where
  enumStyle : EnumStyle
  objectStyle : ObjectStyle
  namespaceName : String
  visibility : Visibility
  groupArguments : Bool
  scalars : Table ScalarMapping
  nullable : NullableRenderers

namespace Options

def default : Options where
  enumStyle := .type
  objectStyle := .interface
  namespaceName := "gql"
  visibility := .declared
  groupArguments := true
  scalars := .empty
  nullable := .standard

def withEnumStyle (o : Options) (s : EnumStyle) : Options :=
  { o with enumStyle := s }

def withObjectStyle (o : Options) (s : ObjectStyle) : Options :=
  { o with objectStyle := s }

def withNamespace (o : Options) (n : String) : Options :=
  { o with namespaceName := n }

def withVisibility (o : Options) (v : Visibility) : Options :=
  { o with visibility := v }

def withArgumentGrouping (o : Options) (enabled : Bool) : Options :=
  { o with groupArguments := enabled }

def withScalar (o : Options) (scalar type : String) : Options :=
  { o with scalars := o.scalars.insert ⟨scalar, type⟩ }

def withNullable (o : Options) (c : Category) (r : NullableRenderer) : Options :=
  { o with nullable := o.nullable.set c r }

def builtinMappings : Table ScalarMapping :=
  .ofList [⟨"String", "string"⟩, ⟨"Boolean", "boolean"⟩, ⟨"Int", "number"⟩, ⟨"Float", "number"⟩,
    ⟨"ID", "string | number"⟩]

/-- The mappings of the built-in scalars, overlaid by those of the options. -/
def resolvedScalars (o : Options) : Table ScalarMapping :=
  builtinMappings.insertAll o.scalars.toList

def scalarType (o : Options) (scalar : String) : String :=
  match o.resolvedScalars.get? scalar with
  | some m => m.type
  | none => "any"

end Options

end SchemaTypings
