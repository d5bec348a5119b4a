import Wabun.Main
import Wabun.Proofs.Soundness
import Wabun.Proofs.FirstToken
import Wabun.Proofs.Completeness.Expression
import Wabun.Proofs.Completeness.Clause
import Wabun.Proofs.Recognition
import Wabun.Proofs.Classification
import Wabun.Proofs.Denotation
import Wabun.Proofs.Lowering
import Wabun.Proofs.Negation
import Wabun.Proofs.Rendering
import Wabun.Proofs.RoundTrip
import Wabun.Proofs.Bindings
import Wabun.Proofs.Frame
import Wabun.Proofs.Discipline
import Wabun.Proofs.Conduct
import Wabun.Proofs.Isolation
import Wabun.Proofs.Congruence
import Wabun.Proofs.DepthLimit
import Wabun.Proofs.Journal
import Wabun.Proofs.Probing
import Wabun.Proofs.Unwinding
import Wabun.Proofs.Completion
import Wabun.Proofs.Fuel
import Wabun.Proofs.Cycles
import Wabun.Proofs.Termination
import Wabun.Proofs.Bisimulation
import Wabun.Proofs.Loading
import Wabun.Proofs.Leaves
import Wabun.Proofs.Content
import Wabun.Proofs.Confinement
import Wabun.Proofs.Separation
import Wabun.Proofs.Ownership
import Wabun.Proofs.Spelling
import Wabun.Proofs.Tandem
import Wabun.Proofs.AnyOrder
import Wabun.Proofs.Placement
import Wabun.Proofs.Misplacement
import Wabun.Proofs.Brackets
import Wabun.Proofs.Trail
import Wabun.Proofs.Location
import Wabun.Proofs.Rejection
import Wabun.Proofs.Entry
import Wabun.Proofs.Unfolding
import Wabun.Proofs.Sameness
import Wabun.Proofs.Transcription
import Wabun.Proofs.Lines
import Wabun.Proofs.Effects
import Wabun.Proofs.Progression
import Wabun.Proofs.Lineage
import Wabun.Proofs.Construction
import Wabun.Proofs.Resolution
import Wabun.Proofs.FieldWrite
import Wabun.Proofs.ReadBack
import Wabun.Proofs.Visibility
import Wabun.Proofs.FirstMatch
import Wabun.Proofs.Naming
import Wabun.Proofs.Refusal
import Wabun.Proofs.Lookahead
import Wabun.Proofs.Lockstep
import Wabun.Proofs.Calls
import Wabun.Proofs.Transparency
import Wabun.Proofs.Midpoints
import Wabun.Proofs.Numerals
import Wabun.Proofs.Legibility
import Wabun.Proofs.Unambiguity
