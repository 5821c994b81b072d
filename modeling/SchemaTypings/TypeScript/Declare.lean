import SchemaTypings.Schema.Basic
import SchemaTypings.Text.Uppercase
import SchemaTypings.TypeScript.Declaration
import SchemaTypings.TypeScript.TypeExpression

namespace SchemaTypings

open TypeScript

def argumentGroupName (field owner : String) : String :=
  "I" ++ Text.upperFirst field ++ "On" ++ Text.upperFirst owner ++ "Arguments"

def Argument.property (r : NullableRenderer) (a : Argument) : Property :=
  ⟨a.description, a.name, a.type.expression r false⟩

def Field.group (r : NullableRenderer) (owner : String) (f : Field) : Declaration :=
  .group (argumentGroupName f.name owner) (f.arguments.map (Argument.property r))

def Field.argumentsType (r : NullableRenderer) (grouped : Bool) (owner : String) (f : Field) :
    ArgumentsType :=
  if grouped then .group (argumentGroupName f.name owner)
  else .inline (f.arguments.map fun a => (a.name, a.type.expression r false))

def Field.member (r : NullableRenderer) (grouped : Bool) (owner : String) (f : Field) : Member where
  description := f.description
  name := f.name
  type :=
    let type := f.type.expression r false
    if f.isCallable then .call (f.argumentsType r grouped owner) type else .value type

namespace Options

def groups (o : Options) (c : Category) (owner : String) (fields : List Field) :
    List Declaration :=
  if o.groupArguments then
    (fields.filter Field.isCallable).map (Field.group (o.nullable.get c) owner)
  else []

def container (o : Options) (c : Category) (description : Option String) (name : String)
    (fields : List Field) : Declaration :=
  .container o.objectStyle description name
    (fields.map (Field.member (o.nullable.get c) o.groupArguments name))

/-- The argument groups of a type with fields, and then the type itself. -/
def declareFields (o : Options) (c : Category) (description : Option String) (name : String)
    (fields : List Field) : List Declaration :=
  o.groups c name fields ++ [o.container c description name fields]

def scalarAlias (o : Options) (description : Option String) (name : String) : Declaration :=
  .typeAlias description name (o.scalarType name)

def declare (o : Options) (d : TypeDef) : List Declaration :=
  match d.body with
  | .enum vs => [.enum o.enumStyle d.description d.name vs]
  | .fields c _ fs => o.declareFields c d.description d.name fs.toList
  | .scalar => [o.scalarAlias d.description d.name]
  | .union ms => [.union d.description d.name ms]

def preamble (o : Options) : List Declaration :=
  builtinScalars.map (o.scalarAlias none) ++ [.callable]

end Options

namespace Schema

/-- A type is declared if a document defines it, or if it is a root type. -/
def isDeclared (s : Schema) (d : TypeDef) : Bool :=
  d.hasOrigin || s.isRoot d

def declarations (s : Schema) (o : Options) : List Declaration :=
  o.preamble ++ (s.types.toList.filter s.isDeclared).flatMap o.declare

end Schema

def indentLine (l : List Char) : List Char :=
  if l.isEmpty then l else '\t' :: l

def indentedBody (texts : List String) : List Char :=
  ['\n'].intercalate ((Text.lines ("\n\n".intercalate texts).toList).map indentLine)

def Options.namespaceText (o : Options) (texts : List String) : String :=
  o.visibility.modifier ++ "namespace " ++ o.namespaceName ++ " \x7b\n\n" ++
    String.ofList (indentedBody texts) ++ "\n\n\x7d"

def Schema.generate (s : Schema) (o : Options) : String :=
  o.namespaceText ((s.declarations o).map Declaration.text)

end SchemaTypings
