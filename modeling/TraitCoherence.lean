import TraitCoherence.Inspect
import TraitCoherence.Main
import TraitCoherence.Parse.ReadBack
import TraitCoherence.Proofs.Coexistence
import TraitCoherence.Proofs.Rearrangement
import TraitCoherence.Proofs.Grammar
import TraitCoherence.Proofs.Reading
import TraitCoherence.Proofs.Prefixes
import TraitCoherence.Proofs.Lexemes
import TraitCoherence.Proofs.Acceptance
import TraitCoherence.Proofs.RoundTrip
import TraitCoherence.Proofs.Realization
import TraitCoherence.Proofs.ResolvedBounds
import TraitCoherence.Proofs.Circularity
import TraitCoherence.Proofs.FailureOrder
import TraitCoherence.Proofs.Acyclicity
import TraitCoherence.Proofs.Duplicates
import TraitCoherence.Proofs.Tightening
import TraitCoherence.Proofs.Viability
import TraitCoherence.Proofs.ScanLocality
import TraitCoherence.Proofs.SyntaxErrors
import TraitCoherence.Proofs.Labels
import TraitCoherence.Proofs.Tracking
import TraitCoherence.Proofs.Mirroring
import TraitCoherence.Proofs.Sweeps
import TraitCoherence.Proofs.Outcomes
import TraitCoherence.Proofs.Signatures
import TraitCoherence.Proofs.Enlargement
import TraitCoherence.Proofs.ParameterNames
import TraitCoherence.Proofs.NameUses
import TraitCoherence.Proofs.Scrutiny
import TraitCoherence.Proofs.Blame
import TraitCoherence.Proofs.Layout
import TraitCoherence.Proofs.CommandLineRuns
import TraitCoherence.Proofs.LastingAgreement
import TraitCoherence.Proofs.UnificationCalls
import TraitCoherence.Proofs.Classes
import TraitCoherence.Proofs.ClosureInstances
import TraitCoherence.Proofs.FirstFaults
import TraitCoherence.Proofs.NameTokens
import TraitCoherence.Proofs.LineBreaks
import TraitCoherence.Proofs.Illustrations
import TraitCoherence.Proofs.FreshVariables
import TraitCoherence.Proofs.JoinLaws
import TraitCoherence.Proofs.Stages
import TraitCoherence.Proofs.ExactTypes
import TraitCoherence.Proofs.SafeComparisons
