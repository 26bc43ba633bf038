import DeskCalculator.Screen
import DeskCalculator.Token.Reader
import DeskCalculator.Proofs.Beginning.Value
import DeskCalculator.Proofs.Plan
import DeskCalculator.Proofs.Beginning.Depth
import DeskCalculator.Proofs.Step
import DeskCalculator.Proofs.Run
import DeskCalculator.Proofs.Calls
import DeskCalculator.Proofs.Acceptance
import DeskCalculator.Proofs.FirstError
import DeskCalculator.Proofs.CorrectPrefix
import DeskCalculator.Proofs.Descent
import DeskCalculator.Proofs.Descent.Agreement
import DeskCalculator.Proofs.Nesting
import DeskCalculator.Proofs.Scanner
import DeskCalculator.Proofs.Coverage
import DeskCalculator.Proofs.Session
import DeskCalculator.Proofs.Words
import DeskCalculator.Proofs.Numerals
import DeskCalculator.Proofs.Results
import DeskCalculator.Proofs.Listing
import DeskCalculator.Proofs.Composition
import DeskCalculator.Proofs.VoidTerms
import DeskCalculator.Proofs.Coherence
import DeskCalculator.Proofs.History
import DeskCalculator.Proofs.Transcription
import DeskCalculator.Proofs.Places
import DeskCalculator.Proofs.Spacing
import DeskCalculator.Proofs.Writing
import DeskCalculator.Proofs.Erasing
import DeskCalculator.Proofs.Typing
import DeskCalculator.Proofs.Focus
import DeskCalculator.Proofs.Culprits
import DeskCalculator.Proofs.Outputs
import DeskCalculator.Proofs.LetterCase
import DeskCalculator.Proofs.Journal
import DeskCalculator.Proofs.Closing
import DeskCalculator.Proofs.Divisions
import DeskCalculator.Proofs.Idle
import DeskCalculator.Proofs.MixedReading
import DeskCalculator.Proofs.ShownPlaces
import DeskCalculator.Proofs.LastSymbol
import DeskCalculator.Proofs.TornWords
import DeskCalculator.Proofs.Nearest
import DeskCalculator.Proofs.Sums
import DeskCalculator.Proofs.Roundings
import DeskCalculator.Proofs.Quotients
import DeskCalculator.Proofs.Fractions
import DeskCalculator.Proofs.Snapping
import DeskCalculator.Proofs.Descent.Unrolling
import DeskCalculator.Proofs.Descent.Progress
