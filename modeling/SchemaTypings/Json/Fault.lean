import SchemaTypings.Text.Quoted

namespace SchemaTypings.Json

inductive Found where
  | null
  | boolean (b : Bool)
  | integer (n : Int)
  | float (text : String)
  | string (s : String)
  | sequence
  | map
deriving DecidableEq

def Found.text : Found → String
  | null => "null"
  | boolean b => "boolean `" ++ toString b ++ "`"
  | integer n => "integer `" ++ toString n ++ "`"
  | float t => "floating point `" ++ t ++ "`"
  | string s => "string " ++ Text.quoted s
  | sequence => "sequence"
  | map => "map"

inductive Mismatch where
  | type (found : Found) (wanted : String)
  | variant (found : String) (known : List String)
  | repeatedField (name : String)
deriving DecidableEq

def quotedName (n : String) : String := "`" ++ n ++ "`"

def oneOf : List String → String
  | [a, b] => quotedName a ++ " or " ++ quotedName b
  | ns => "one of " ++ ", ".intercalate (ns.map quotedName)

def Mismatch.message : Mismatch → String
  | type found wanted => "invalid type: " ++ found.text ++ ", expected " ++ wanted
  | variant found known => "unknown variant " ++ quotedName found ++ ", expected " ++ oneOf known
  | repeatedField n => "duplicate field " ++ quotedName n

inductive Fault where
  | malformed
  | ended
  | mismatch (m : Mismatch)
deriving DecidableEq

end SchemaTypings.Json
