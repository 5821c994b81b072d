import SchemaTypings.Sdl.Statement

namespace SchemaTypings.Sdl

open Number (Numeral)

inductive Fault where
  | grammar
  | numeral
  | missingQuery
  | repeatedRoot (operation : Operation)
deriving DecidableEq

/-- What is wrong with a document. What the grammar expected is not told. -/
def Fault.message : Fault → String
  | grammar => "<grammar>"
  | numeral => "<number>"
  | missingQuery => "schema definition is missing query root"
  | repeatedRoot o => "multiple " ++ o.keyword ++ " roots in schema definition"

def numeralFault? (ns : List Numeral) : Option Fault :=
  if ns.all fun n => n.magnitude.isSome then none else some .numeral

def repeatedRoot? (seen : List Operation) : List (Operation × String) → Option Operation
  | [] => none
  | (o, _) :: r => if seen.contains o then some o else repeatedRoot? (o :: seen) r

def rootNamed (o : Operation) (rs : List (Operation × String)) : Option String :=
  (rs.find? fun r => r.1 == o).map (·.2)

namespace Statement

/-- Numerals come before the root types in a schema statement, and only an extension may do
without a query root. -/
def fault? : Statement → Option Fault
  | schema extend ns rs =>
    (numeralFault? ns).or <| ((repeatedRoot? [] rs).map .repeatedRoot).or <|
      if extend || (rootNamed .query rs).isSome then none else some .missingQuery
  | type t => numeralFault? t.numerals
  | directive ns => numeralFault? ns

def rootTypes : Statement → RootTypes
  | schema _ _ rs => ⟨rootNamed .query rs, rootNamed .mutation rs, rootNamed .subscription rs⟩
  | _ => .undeclared

end Statement

structure Position where
  line : Nat
  column : Nat
deriving DecidableEq

/-- The position behind a character. A carriage return goes back to the first column of its line. -/
def Position.next (p : Position) (c : Char) : Position :=
  if c = '\n' then ⟨p.line + 1, 1⟩
  else if c = '\r' then ⟨p.line, 1⟩
  else ⟨p.line, p.column + 1⟩

def Position.start : Position := ⟨1, 1⟩

def positions (chars : List Char) : Array Position :=
  (chars.scanl Position.next .start).toArray

def originAt (positions : Array Position) (source : Option String) (left : Nat) : Origin :=
  let p := positions.getD (positions.size - 1 - left) .start
  { source, line := p.line, column := p.column }

def TypeStatement.definition (origin : Nat → Origin) (t : TypeStatement) : Definition where
  extend := t.extend
  type := ⟨t.name, t.description, some (origin t.left), t.body⟩

def Statement.definition? (origin : Nat → Origin) : Statement → Option Definition
  | type t => some (t.definition origin)
  | _ => none

/-- Root types that are declared later in the document take precedence. -/
def documentOf (origin : Nat → Origin) (ss : List Statement) : Document where
  roots := ss.foldl (fun r s => r.override s.rootTypes) .undeclared
  definitions := ss.filterMap (Statement.definition? origin)

/-- The definitions of a document. The first statement with a fault makes the document faulty. -/
def parse (text : String) (source : Option String) : Except Fault Document :=
  match statements text.toList with
  | none => .error .grammar
  | some (ss, _) =>
    match ss.findSome? Statement.fault? with
    | some f => .error f
    | none => .ok (documentOf (originAt (positions text.toList) source) ss)

end SchemaTypings.Sdl
