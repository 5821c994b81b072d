import SchemaTypings.Generate
import SchemaTypings.Proofs.FirstSeen
import SchemaTypings.Proofs.Tables
import SchemaTypings.Proofs.FieldMerges
import SchemaTypings.Proofs.Merging
import SchemaTypings.Proofs.MergeRuns
import SchemaTypings.Proofs.MergeHistory
import SchemaTypings.Proofs.DocumentHistory
import SchemaTypings.Proofs.Names
import SchemaTypings.Proofs.CommentLines
import SchemaTypings.Proofs.DeclarationLines
import SchemaTypings.Proofs.NamespaceLines
import SchemaTypings.Proofs.PlainDeclarations
import SchemaTypings.Proofs.AcceptedText
import SchemaTypings.Proofs.DeclaredTypes
import SchemaTypings.Proofs.Fragments
import SchemaTypings.Proofs.CommentRemoval
import SchemaTypings.Proofs.Descriptions
import SchemaTypings.Proofs.Places
import SchemaTypings.Proofs.Concatenation
import SchemaTypings.Proofs.CutDocuments
import SchemaTypings.Proofs.Absorption
import SchemaTypings.Proofs.RepeatedDocuments
import SchemaTypings.Proofs.Compatibility
import SchemaTypings.Proofs.DocumentOrder
import SchemaTypings.Proofs.References
import SchemaTypings.Proofs.StoppedMerges
import SchemaTypings.Proofs.Growth
import SchemaTypings.Proofs.TypeIndependence
import SchemaTypings.Proofs.OptionScopes
import SchemaTypings.Proofs.EntryPoints
import SchemaTypings.Proofs.BuiltinAliases
import SchemaTypings.Proofs.RedeclaredFields
import SchemaTypings.Proofs.ArgumentGroups
import SchemaTypings.Proofs.FirstViolation
import SchemaTypings.Proofs.CommentEnds
import SchemaTypings.Proofs.Tokens
import SchemaTypings.Proofs.EnumLiterals
import SchemaTypings.Proofs.InlineArguments
import SchemaTypings.Proofs.TypeReading
import SchemaTypings.Proofs.FieldShapes
import SchemaTypings.Proofs.ScalarTable
import SchemaTypings.Proofs.FieldDescriptions
import SchemaTypings.Proofs.MergedLists
import SchemaTypings.Proofs.DistinctPaths
import SchemaTypings.Proofs.EscapedPaths
import SchemaTypings.Proofs.Discovery
import SchemaTypings.Proofs.CollapsedTypes
import SchemaTypings.Proofs.TypeTexts
import SchemaTypings.Proofs.Passages
import SchemaTypings.Proofs.WrittenDocuments
import SchemaTypings.Proofs.TypesInDocuments
import SchemaTypings.Proofs.TypesReadBack
import SchemaTypings.Proofs.Templates
import SchemaTypings.Proofs.ClosedComments
import SchemaTypings.Proofs.JsonTexts
import SchemaTypings.Proofs.JsonStrings
import SchemaTypings.Proofs.SkippedValues
import SchemaTypings.Proofs.DecodedRecords
import SchemaTypings.Proofs.RecordChoices
import SchemaTypings.Proofs.OptionsInJson
