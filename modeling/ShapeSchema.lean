import ShapeSchema.Catalog
import ShapeSchema.Proofs.BindingRuns
import ShapeSchema.Proofs.CanonicalOutcome
import ShapeSchema.Proofs.CanonicalTokens
import ShapeSchema.Proofs.CatalogHistories
import ShapeSchema.Proofs.CatalogOperations
import ShapeSchema.Proofs.CatalogReferences
import ShapeSchema.Proofs.CitedOpeners
import ShapeSchema.Proofs.CommutingDefinitions
import ShapeSchema.Proofs.CompletableSpots
import ShapeSchema.Proofs.CursorInvariants
import ShapeSchema.Proofs.DeclaredShapes
import ShapeSchema.Proofs.DecodedValues
import ShapeSchema.Proofs.DefinitionSteps
import ShapeSchema.Proofs.EarliestError
import ShapeSchema.Proofs.EndOfInput
import ShapeSchema.Proofs.EnvironmentIndependence
import ShapeSchema.Proofs.EnvironmentLookups
import ShapeSchema.Proofs.EqualShapes
import ShapeSchema.Proofs.EquivalentTypes
import ShapeSchema.Proofs.ErrorSnippets
import ShapeSchema.Proofs.ExactSpans
import ShapeSchema.Proofs.ExpectedTokens
import ShapeSchema.Proofs.FieldReplacements
import ShapeSchema.Proofs.MissingSeparators
import ShapeSchema.Proofs.NormalForms
import ShapeSchema.Proofs.OffendingTexts
import ShapeSchema.Proofs.PersistedShapes
import ShapeSchema.Proofs.ReadingBookkeeping
import ShapeSchema.Proofs.ReadingLimits
import ShapeSchema.Proofs.ShiftedTrees
import ShapeSchema.Proofs.TextExcerpts
import ShapeSchema.Proofs.TokenExtents
import ShapeSchema.Proofs.TokenLookahead
import ShapeSchema.Proofs.TokenPositions
import ShapeSchema.Proofs.TokenQueue
import ShapeSchema.Proofs.TokenSites
import ShapeSchema.Proofs.TypeNames
import ShapeSchema.Proofs.UniqueTrees
import ShapeSchema.Proofs.UnresolvedNames
import ShapeSchema.Proofs.WrittenJson
import ShapeSchema.Proofs.WrittenTypes
import ShapeSchema.Shape.Codec
import ShapeSchema.Token.Stream
