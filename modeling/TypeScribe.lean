import TypeScribe.File
import TypeScribe.Main
import TypeScribe.Proofs.BlankRows
import TypeScribe.Proofs.Braces
import TypeScribe.Proofs.Calls
import TypeScribe.Proofs.ClassMembers
import TypeScribe.Proofs.ComplaintSpans
import TypeScribe.Proofs.Composition
import TypeScribe.Proofs.Inert
import TypeScribe.Proofs.Judgement
import TypeScribe.Proofs.KeyLines
import TypeScribe.Proofs.KeyOrder
import TypeScribe.Proofs.LevelShift
import TypeScribe.Proofs.LineEnds
import TypeScribe.Proofs.ObjectReader
import TypeScribe.Proofs.Positions
import TypeScribe.Proofs.References
import TypeScribe.Proofs.RoundTrip
import TypeScribe.Proofs.Separators
import TypeScribe.Proofs.ServiceDefects
import TypeScribe.Proofs.Spacing
import TypeScribe.Proofs.UniquePlaces
import TypeScribe.Proofs.VerbatimTexts
import TypeScribe.Proofs.Views
