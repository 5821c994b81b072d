import SchemaTypings.Json.Decode
import SchemaTypings.Options.Basic

namespace SchemaTypings

open Json

namespace EnumStyle

def variants : List (String × EnumStyle) := [("enum", enum), ("type", type)]

end EnumStyle

namespace ObjectStyle

def variants : List (String × ObjectStyle) := [("interface", interface), ("type", type)]

end ObjectStyle

namespace Visibility

def variants : List (String × Visibility) :=
  [("export", exported), ("declare", declared), ("none", plain)]

end Visibility

def NullableRenderer.decoder : Decoder NullableRenderer := do
  return .template (← string)

def NullableRenderers.fields : List (RecordField NullableRenderers) := [
  ⟨"input", [], fun r => do return { r with input := ← NullableRenderer.decoder }⟩,
  ⟨"interface", [], fun r => do return { r with interface := ← NullableRenderer.decoder }⟩,
  ⟨"object", [], fun r => do return { r with object := ← NullableRenderer.decoder }⟩]

/-- A repeated scalar keeps its place and takes the later expression. -/
def scalarEntry (t : Table ScalarMapping) (scalar : String) : Decoder (Table ScalarMapping) := do
  return t.insert ⟨scalar, ← string⟩

namespace Options

def fields : List (RecordField Options) := [
  ⟨"enumType", [], fun o => do return { o with enumStyle := ← variant EnumStyle.variants }⟩,
  ⟨"objectType", [], fun o => do return { o with objectStyle := ← variant ObjectStyle.variants }⟩,
  ⟨"namespaceName", [], fun o => do return { o with namespaceName := ← string }⟩,
  ⟨"outputType", [], fun o => do return { o with visibility := ← variant Visibility.variants }⟩,
  ⟨"argumentGrouping", ["argument2interface"],
    fun o => do return { o with groupArguments := ← boolean }⟩,
  ⟨"customScalarTypes", ["customscalarTypes"],
    fun o => do return { o with scalars := ← dictionary scalarEntry .empty }⟩,
  ⟨"nullableType", [],
    fun o => do return { o with
      nullable := ← record "struct NullableRenderers" NullableRenderers.fields .standard }⟩]

/-- Options that are missing in the text keep their defaults. -/
def fromJson (text : String) : Except Fault Options :=
  decode (record "struct GenerateOptions" fields default) text

end Options

end SchemaTypings
