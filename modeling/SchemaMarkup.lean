import SchemaMarkup.Main
import SchemaMarkup.Markup.Cursor
import SchemaMarkup.Proofs.Inheritance.MergedFields
import SchemaMarkup.Proofs.Inheritance.SecondResolution
import SchemaMarkup.Proofs.Inheritance.FallbackOutcome
import SchemaMarkup.Proofs.Outcome
import SchemaMarkup.Proofs.Reading.DeclaredFields
import SchemaMarkup.Proofs.Reading.Scanning
import SchemaMarkup.Proofs.Inheritance.InheritedFields
import SchemaMarkup.Proofs.Inheritance.ParentNames
import SchemaMarkup.Proofs.Inheritance.Reordering
import SchemaMarkup.Proofs.Locations.DocumentReading
import SchemaMarkup.Proofs.Reading.SilentLines
import SchemaMarkup.Proofs.Reading.Blocks
import SchemaMarkup.Proofs.Reading.BlockOrder
import SchemaMarkup.Proofs.Locations.CompiledLocations
import SchemaMarkup.Proofs.Reading.ForeignKeys
import SchemaMarkup.Proofs.ForeignKeyTargets
import SchemaMarkup.Proofs.Reading.Identifiers
import SchemaMarkup.Proofs.Reading.WellFormedness
import SchemaMarkup.Proofs.Nullability
import SchemaMarkup.Proofs.SameOutcome
import SchemaMarkup.Proofs.Text.Fronts
import SchemaMarkup.Proofs.Reading.Dialects
import SchemaMarkup.Proofs.Reading.FrameworkTokens
import SchemaMarkup.Proofs.Reading.BalancedFields
import SchemaMarkup.Proofs.Text.BracketSearch
import SchemaMarkup.Proofs.Reading.BracketGroups
import SchemaMarkup.Proofs.Text.TopLevel
import SchemaMarkup.Proofs.Text.Pieces
import SchemaMarkup.Proofs.Text.TrailingStrings
import SchemaMarkup.Proofs.Reading.BalancedHeaders
import SchemaMarkup.Proofs.Reading.CallSpelling
import SchemaMarkup.Proofs.Reading.CallLists
import SchemaMarkup.Proofs.Reading.WrittenTypes
import SchemaMarkup.Proofs.Reading.SealedLines
import SchemaMarkup.Proofs.Reading.WrittenFields
import SchemaMarkup.Proofs.Text.OuterBlanks
import SchemaMarkup.Proofs.Reading.PropertyLines
import SchemaMarkup.Proofs.Reading.AssignedTypes
import SchemaMarkup.Proofs.Reading.TypeProperties
import SchemaMarkup.Proofs.Reading.InlineOptions
import SchemaMarkup.Proofs.Reading.HeaderDescriptions
import SchemaMarkup.Proofs.Reading.RelationProperties
import SchemaMarkup.Proofs.Reading.WrittenRelations
import SchemaMarkup.Proofs.Reading.IndexProperties
import SchemaMarkup.Proofs.Reading.IndexFields
import SchemaMarkup.Proofs.Reading.ChangedBlocks
import SchemaMarkup.Proofs.Reading.UnknownSections
import SchemaMarkup.Proofs.Edits
import SchemaMarkup.Proofs.Reading.PropertyEdits
import SchemaMarkup.Proofs.Markings
import SchemaMarkup.Proofs.AttributeEdits
import SchemaMarkup.Proofs.Inheritance.FieldRoutes
import SchemaMarkup.Proofs.Reading.NameLabels
import SchemaMarkup.Proofs.Reading.InterfaceConstraints
import SchemaMarkup.Proofs.Locations.SourceSpans
import SchemaMarkup.Proofs.Locations.LocatedReading
import SchemaMarkup.Proofs.Inheritance.TraversalOrder
import SchemaMarkup.Proofs.Inheritance.CycleRepairLoop
import SchemaMarkup.Proofs.Settings.WrittenConfigurations
import SchemaMarkup.Proofs.Text.BalanceFaults
import SchemaMarkup.Proofs.Text.TopLevelDivision
import SchemaMarkup.Proofs.Text.GroupClosers
import SchemaMarkup.Proofs.Text.TakenStrings
import SchemaMarkup.Proofs.Inheritance.AncestorSearch
import SchemaMarkup.Proofs.Reading.LengthTexts
