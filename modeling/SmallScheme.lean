import SmallScheme.Main
import SmallScheme.Proofs.BigStep.Adequacy
import SmallScheme.Proofs.Confinement
import SmallScheme.Proofs.RoundTrip
import SmallScheme.Proofs.SessionBatch
import SmallScheme.Proofs.WellFormed
import SmallScheme.Proofs.Renaming
import SmallScheme.Proofs.Isolation
import SmallScheme.Proofs.Grammar
import SmallScheme.Proofs.Recovery
import SmallScheme.Proofs.SessionTrace
import SmallScheme.Proofs.Chronology
import SmallScheme.Proofs.Invariant
import SmallScheme.Proofs.History
import SmallScheme.Proofs.Finiteness
import SmallScheme.Proofs.ObjectIdentity
import SmallScheme.Proofs.SessionCount
import SmallScheme.Proofs.Blame
import SmallScheme.Proofs.Escape
import SmallScheme.Proofs.Correspondence.Driver
import SmallScheme.Proofs.Exhaustion
import SmallScheme.Proofs.FilesInOrder
import SmallScheme.Proofs.Threshold
import SmallScheme.Proofs.Sequencing
import SmallScheme.Proofs.ExactArithmetic
import SmallScheme.Proofs.Termination
import SmallScheme.Proofs.Unmentioned
import SmallScheme.Proofs.WholeText
import SmallScheme.Proofs.MaximalMunch
import SmallScheme.Proofs.AtomGrammar
import SmallScheme.Proofs.FrameLaws
import SmallScheme.Proofs.FailedBinding
import SmallScheme.Proofs.ZeroDivisor
import SmallScheme.Proofs.Containment
import SmallScheme.Proofs.ComparisonChain
import SmallScheme.Proofs.ValueEquality
import SmallScheme.Proofs.CallsInOrder
