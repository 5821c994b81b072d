import SchemaTypings.Options.Basic
import SchemaTypings.TypeScript.Comment

namespace SchemaTypings.TypeScript

open Text

def callableName : String := "GQLFunction"

structure Property where
  description : Option String
  name : String
  type : String
deriving DecidableEq

inductive ArgumentsType where
  | group (name : String)
  | inline (arguments : List (String × String))
deriving DecidableEq

inductive MemberType where
  | value (type : String)
  | call (arguments : ArgumentsType) (result : String)
deriving DecidableEq

structure Member where
  description : Option String
  name : String
  type : MemberType
deriving DecidableEq

inductive Declaration where
  | typeAlias (description : Option String) (name type : String)
  | callable
  | enum (style : EnumStyle) (description : Option String) (name : String)
    (values : List EnumValue)
  | union (description : Option String) (name : String) (members : List String)
  | group (name : String) (properties : List Property)
  | container (style : ObjectStyle) (description : Option String) (name : String)
    (members : List Member)
deriving DecidableEq

def Property.text (p : Property) : String :=
  indentContinuation (docComment p.description ++ p.name ++ ": " ++ p.type)

def ArgumentsType.text : ArgumentsType → String
  | group n => n
  | inline as => "\x7b " ++ ", ".intercalate (as.map fun a => a.1 ++ ": " ++ a.2) ++ " \x7d"

def MemberType.text : MemberType → String
  | value t => t
  | call as result => callableName ++ "<" ++ as.text ++ ", " ++ result ++ ">"

def Member.text (m : Member) : String :=
  indentContinuation (docComment m.description ++ m.name ++ ": " ++ m.type.text)

def literal (n : String) : String :=
  "'" ++ n ++ "'"

def constantText (v : EnumValue) : String :=
  indentContinuation (docComment v.description ++ v.name ++ " = " ++ literal v.name)

def blockText (separator : String) (items : List String) : String :=
  "\x7b\n\t" ++ (separator ++ "\n\t").intercalate items ++ "\n\x7d"

/-- Members between braces, which stay together around no members. -/
def membersText (separator : String) (members : List Member) : String :=
  if members.isEmpty then "\x7b\x7d" else blockText separator (members.map Member.text)

namespace Declaration

def text : Declaration → String
  | typeAlias description name type =>
    docComment description ++ "export type " ++ name ++ " = " ++ type
  | callable => "interface " ++ callableName ++ "<P, R> \x7b\n\t(a: P): R\n\targs: P\n\x7d"
  | enum .type description name values =>
    docComment description ++ "export type " ++ name ++ " = " ++
      " | ".intercalate (values.map fun v => literal v.name)
  | enum .enum description name values =>
    docComment description ++ "export const enum " ++ name ++ " " ++
      blockText "," (values.map constantText)
  | union description name members =>
    docComment description ++ "export type " ++ name ++ " = " ++ " | ".intercalate members
  | group name properties =>
    "interface " ++ name ++ " " ++ blockText "" (properties.map Property.text)
  | container .interface description name members =>
    docComment description ++ "export interface " ++ name ++ " " ++ membersText "" members
  | container .type description name members =>
    docComment description ++ "export type " ++ name ++ " = " ++ membersText "," members

end Declaration

end SchemaTypings.TypeScript
