import ProtoSchema.CommandLine.Arguments
import ProtoSchema.CommandLine.Convert
import ProtoSchema.CommandLine.Run
import ProtoSchema.Conversion
import ProtoSchema.Descriptor
import ProtoSchema.Document
import ProtoSchema.EnumSchema
import ProtoSchema.Event
import ProtoSchema.Failure
import ProtoSchema.FieldKind
import ProtoSchema.FieldSchema
import ProtoSchema.Files.Pattern
import ProtoSchema.Files.Search
import ProtoSchema.Files.Tree
import ProtoSchema.Json
import ProtoSchema.Main
import ProtoSchema.Options
import ProtoSchema.Plugin
import ProtoSchema.PropertyName
import ProtoSchema.Registry
import ProtoSchema.Registry.Lookup
import ProtoSchema.Schema
import ProtoSchema.Session
import ProtoSchema.Table
import ProtoSchema.Text.Blank
import ProtoSchema.Text.Pieces
import ProtoSchema.Text.UpperCase
import ProtoSchema.Wire.Grammar
import ProtoSchema.Wire.Request
import ProtoSchema.Wire.Response
import ProtoSchema.Wire.Token
import ProtoSchema.Wire.Varint
import ProtoSchema.Proofs.Outcome
import ProtoSchema.Proofs.Steps
import ProtoSchema.Proofs.Elements
import ProtoSchema.Proofs.References
import ProtoSchema.Proofs.Meaning
import ProtoSchema.Proofs.Nullability
import ProtoSchema.Proofs.Policies
import ProtoSchema.Proofs.Erasure
import ProtoSchema.Proofs.Alternatives
import ProtoSchema.Proofs.Registration
import ProtoSchema.Proofs.Tightening
import ProtoSchema.Proofs.Nodes
import ProtoSchema.Proofs.Shape
import ProtoSchema.Proofs.MetaSchema
import ProtoSchema.Proofs.DocumentNames
import ProtoSchema.Proofs.Places
import ProtoSchema.Proofs.Openness
import ProtoSchema.Proofs.PackageTree
import ProtoSchema.Proofs.PackageContents
import ProtoSchema.Proofs.QualifiedNames
import ProtoSchema.Proofs.Simulation
import ProtoSchema.Proofs.FileOrder
import ProtoSchema.Proofs.Targets
import ProtoSchema.Proofs.FieldOrder
import ProtoSchema.Proofs.JsonTokens
import ProtoSchema.Proofs.JsonReader
import ProtoSchema.Proofs.SchemaText
import ProtoSchema.Proofs.ResponseBytes
import ProtoSchema.Proofs.Answers
import ProtoSchema.Proofs.Embedding
import ProtoSchema.Proofs.Accounts
import ProtoSchema.Proofs.Visits
import ProtoSchema.Proofs.Log
import ProtoSchema.Proofs.FailedRuns
import ProtoSchema.Proofs.Writing
import ProtoSchema.Proofs.FrontEnds
import ProtoSchema.Proofs.LongestPackage
import ProtoSchema.Proofs.OutwardSearch
import ProtoSchema.Proofs.Chains
import ProtoSchema.Proofs.Standalone
import ProtoSchema.Proofs.EnumScope
import ProtoSchema.Proofs.Ending
import ProtoSchema.Proofs.FieldByField
import ProtoSchema.Proofs.SwitchSets
import ProtoSchema.Proofs.CamelCase
