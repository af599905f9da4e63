import Literate.Main
import Literate.Proofs.Filling
import Literate.Proofs.Rendering
import Literate.Proofs.Expansion
import Literate.Proofs.Failure
import Literate.Proofs.FirstOccurrence
import Literate.Proofs.Grouping
import Literate.Proofs.ChildGraph
import Literate.Proofs.Candidates
import Literate.Proofs.Interleaving
import Literate.Proofs.LabelGrammar
import Literate.Proofs.SectionSpelling
import Literate.Proofs.FenceLines
import Literate.Proofs.Lines
import Literate.Proofs.Segmentation
import Literate.Proofs.FencedTexts
import Literate.Proofs.OutputPaths
import Literate.Proofs.Walking
import Literate.Proofs.ConfigurationSearch
import Literate.Proofs.Replacement
import Literate.Proofs.Execution
import Literate.Proofs.Obstacles
import Literate.Proofs.RelativePaths
import Literate.Proofs.Discovery
import Literate.Proofs.Repetition
import Literate.Proofs.Matching
import Literate.Proofs.PatternPieces
import Literate.Proofs.Routes
import Literate.Proofs.WatchedSources
import Literate.Proofs.Joining
import Literate.Proofs.LabelSpacing
import Literate.Proofs.Concatenation
import Literate.Proofs.RenderedFiles
import Literate.Proofs.Nesting
import Literate.Proofs.Interruption
import Literate.Proofs.Unreached
import Literate.Proofs.PathOrder
import Literate.Proofs.StoredSources
import Literate.Proofs.NamedSources
import Literate.Proofs.MalformedLabels
import Literate.Proofs.Selection
import Literate.Proofs.StoredChanges
import Literate.Proofs.NestedRendering
import Literate.Proofs.ConfigurationDocuments
import Literate.Proofs.StrictPasses
import Literate.Proofs.NearestConfiguration
