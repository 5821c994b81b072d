import SchemaTypings.Schema.Merge
import SchemaTypings.Sdl.Constant

namespace SchemaTypings.Sdl

open Number (Numeral)
open Reader (many many1 orEmpty left atEnd)

inductive Operation where
  | query | mutation | subscription
deriving DecidableEq

def Operation.keyword : Operation → String
  | query => "query"
  | mutation => "mutation"
  | subscription => "subscription"

/-- What a document says of a type. `left` is how much of the document is left where it begins. -/
structure TypeStatement where
  left : Nat
  extend : Bool
  name : String
  description : Option String
  body : Body
  numerals : List Numeral
deriving DecidableEq

inductive Statement where
  | schema (extend : Bool) (numerals : List Numeral) (roots : List (Operation × String))
  | type (type : TypeStatement)
  | directive (numerals : List Numeral)
deriving DecidableEq

abbrev Noted (α : Type) := α × List Numeral

def numeralsOf {α : Type} (l : List (Noted α)) : List Numeral :=
  l.flatMap (·.2)

def valuesOf {α : Type} (l : List (Noted α)) : List α :=
  l.map (·.1)

def block {α : Type} (opening closing : Char) (p : Reader α) : Reader (List α) := do
  symbol opening
  let as ← many1 p
  symbol closing
  return as

def argument : Reader (Noted Argument) := do
  let description ← optional text
  let name ← name
  symbol ':'
  let type ← typeRef
  let value ← orEmpty defaultValue
  let notes ← orEmpty directives
  return ({ name, type, description }, value ++ notes)

def arguments : Reader (List (Noted Argument)) :=
  block '(' ')' argument

def field : Reader (Noted Field) := do
  let description ← optional text
  let name ← name
  let arguments ← orEmpty arguments
  symbol ':'
  let type ← typeRef
  let notes ← orEmpty directives
  return ({ name, type, description, arguments := valuesOf arguments },
    numeralsOf arguments ++ notes)

def fields : Reader (List (Noted Field)) :=
  block '{' '}' field

def inputField : Reader (Noted Field) := do
  let (a, ns) ← argument
  return (⟨a.name, a.type, a.description, []⟩, ns)

def inputFields : Reader (List (Noted Field)) :=
  block '{' '}' inputField

/-- Names with a separator between them, which may also stand in front. -/
def separatedNames (separator : Char) : Reader (List String) := do
  let _ ← optional (symbol separator)
  let n ← name
  let ns ← many (symbol separator *> name)
  return n :: ns

def implemented : Reader (List String) := do
  keyword "implements"
  separatedNames '&'

def members : Reader (List String) := do
  symbol '='
  separatedNames '|'

/-- The names of enum values do not begin like the words `true`, `false` and `null`. -/
def valueName : Reader String := fun s =>
  if ["true", "false", "null"].any fun w => w.toList.isPrefixOf s then none else name s

def enumValue : Reader (Noted EnumValue) := do
  let description ← optional text
  let name ← valueName
  let notes ← orEmpty directives
  return ({ name, description }, notes)

def enumValues : Reader (List (Noted EnumValue)) :=
  block '{' '}' enumValue

def fieldsBody (category : Category) (implements : List String) (notes : List Numeral)
    (fields : List (Noted Field)) : Noted Body :=
  (.fields category implements (.ofList (valuesOf fields)), notes ++ numeralsOf fields)

def enumBody (notes : List Numeral) (values : List (Noted EnumValue)) : Noted Body :=
  (.enum (valuesOf values), notes ++ numeralsOf values)

def mayHave {α : Type} (items : Reader (List α)) : Reader (List Numeral × List α) := do
  let notes ← orEmpty directives
  let as ← orEmpty items
  return (notes, as)

/-- What an extension must have: items behind directives, or directives alone. -/
def mustHave {α : Type} (items : Reader (List α)) : Reader (List Numeral × List α) :=
  (do
    let notes ← orEmpty directives
    let as ← items
    return (notes, as)) <|>
  (do
    let notes ← directives
    return (notes, []))

def named (kind : Kind) (body : Reader (Noted Body)) : Reader (String × Noted Body) := do
  keyword kind.keyword
  let n ← name
  let b ← body
  return (n, b)

def outputBody (category : Category)
    (rest : Reader (List Numeral × List (Noted Field))) : Reader (Noted Body) := do
  let is ← orEmpty implemented
  let (notes, fs) ← rest
  return fieldsBody category is notes fs

def defined : Reader (String × Noted Body) :=
  named .scalar (do return (.scalar, ← orEmpty directives)) <|>
  named .object (outputBody .object (mayHave fields)) <|>
  named .interface (outputBody .interface (mayHave fields)) <|>
  named .union (do let (notes, ms) ← mayHave members; return (.union ms, notes)) <|>
  named .enum (do let (notes, vs) ← mayHave enumValues; return enumBody notes vs) <|>
  named .input (do let (notes, fs) ← mayHave inputFields; return fieldsBody .input [] notes fs)

/-- The extension of an object may also consist of interfaces alone. -/
def extended : Reader (String × Noted Body) :=
  named .scalar (do return (.scalar, ← directives)) <|>
  named .object (outputBody .object (mustHave fields) <|>
    (do return fieldsBody .object (← implemented) [] [])) <|>
  named .interface (outputBody .interface (mustHave fields)) <|>
  named .union (do let (notes, ms) ← mustHave members; return (.union ms, notes)) <|>
  named .enum (do let (notes, vs) ← mustHave enumValues; return enumBody notes vs) <|>
  named .input (do let (notes, fs) ← mustHave inputFields; return fieldsBody .input [] notes fs)

def typeStatement : Reader Statement := do
  let left ← left
  (do
    let description ← optional text
    let (name, body, numerals) ← defined
    return .type { left, extend := false, name, description, body, numerals }) <|>
  (do
    keyword "extend"
    let (name, body, numerals) ← extended
    return .type { left, extend := true, name, description := none, body, numerals })

def operation : Reader Operation :=
  (do keyword "query"; return .query) <|> (do keyword "mutation"; return .mutation) <|>
    (do keyword "subscription"; return .subscription)

def root : Reader (Operation × String) := do
  let o ← operation
  symbol ':'
  let n ← name
  return (o, n)

def roots : Reader (List (Operation × String)) :=
  block '{' '}' root

def schemaStatement : Reader Statement :=
  (do
    keyword "schema"
    let notes ← orEmpty directives
    let rs ← roots
    return .schema false notes rs) <|>
  (do
    keyword "extend"
    keyword "schema"
    let (notes, rs) ← mustHave roots
    return .schema true notes rs)

/-- The places for directives. Of two places of which one begins like the other, the longer one
comes first. -/
def directivePlaces : List String := [
  "QUERY", "MUTATION", "SUBSCRIPTION", "FIELD_DEFINITION", "FIELD", "FRAGMENT_DEFINITION",
  "FRAGMENT_SPREAD", "INLINE_FRAGMENT", "VARIABLE_DEFINITION", "SCHEMA", "SCALAR", "OBJECT",
  "ARGUMENT_DEFINITION", "INTERFACE", "UNION", "ENUM_VALUE", "ENUM", "INPUT_OBJECT",
  "INPUT_FIELD_DEFINITION"]

def directivePlace : Reader Unit :=
  directivePlaces.foldr (fun w p => keyword w <|> p) failure

def directiveStatement : Reader Statement := do
  let _ ← optional text
  keyword "directive"
  symbol '@'
  let _ ← name
  let arguments ← orEmpty arguments
  let _ ← optional (keyword "repeatable")
  keyword "on"
  let _ ← optional (symbol '|')
  directivePlace
  let _ ← many (symbol '|' *> directivePlace)
  return .directive (numeralsOf arguments)

def statement : Reader Statement :=
  schemaStatement <|> typeStatement <|> directiveStatement

def statements : Reader (List Statement) := do
  skip
  let ss ← many1 statement
  atEnd
  return ss

end SchemaTypings.Sdl
