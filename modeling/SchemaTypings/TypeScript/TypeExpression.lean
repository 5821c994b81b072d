import SchemaTypings.Options.Basic

namespace SchemaTypings

namespace NullableRenderer

def renderUnless (r : NullableRenderer) (notNull : Bool) (e : String) : String :=
  if notNull then e else r.render e

end NullableRenderer

/-- The expression of a reference; `notNull` says whether a non-null mark stands around it. Such a
mark does not reach into a list. -/
def TypeRef.expression (r : NullableRenderer) (notNull : Bool) : TypeRef → String
  | named n => r.renderUnless notNull n
  | list t => r.renderUnless notNull ("Array<" ++ t.expression r false ++ ">")
  | nonNull t => t.expression r true

end SchemaTypings
