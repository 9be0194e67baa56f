import ShaderIncludes.Discovery
import ShaderIncludes.Proofs.CallMachine
import ShaderIncludes.Proofs.LoadOrder
import ShaderIncludes.Proofs.Recursion
import ShaderIncludes.Proofs.Remains
import ShaderIncludes.Proofs.Tracking
import ShaderIncludes.Store
import ShaderIncludes.Proofs.Stackless
import ShaderIncludes.Proofs.WarningLog
import ShaderIncludes.Proofs.Looks
import ShaderIncludes.Proofs.FirstMissing
import ShaderIncludes.Proofs.MissingLeaves
import ShaderIncludes.Proofs.Braces
import ShaderIncludes.Proofs.HeaderForm
import ShaderIncludes.Proofs.Composition
import ShaderIncludes.Proofs.Blame
import ShaderIncludes.Proofs.Canonical
import ShaderIncludes.Proofs.Extents
import ShaderIncludes.Proofs.LeadingSlash
import ShaderIncludes.Proofs.Again
import ShaderIncludes.Proofs.Anchored
import ShaderIncludes.Proofs.Layout
import ShaderIncludes.Proofs.Batches
import ShaderIncludes.Proofs.CallOrder
import ShaderIncludes.Proofs.FixedPoint
import ShaderIncludes.Proofs.Matching
import ShaderIncludes.Proofs.HeaderPattern
import ShaderIncludes.Proofs.BracePosition
import ShaderIncludes.Proofs.FirstMatch
import ShaderIncludes.Proofs.PieceStack
import ShaderIncludes.Proofs.RootRelative
import ShaderIncludes.Proofs.EntryPoints
import ShaderIncludes.Proofs.DirectRead
import ShaderIncludes.Proofs.MarkerSearch
import ShaderIncludes.Proofs.MarkerFolder
import ShaderIncludes.Proofs.LineEndings
