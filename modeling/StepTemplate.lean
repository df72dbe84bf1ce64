import StepTemplate.Group
import StepTemplate.Json.Decoding
import StepTemplate.Json.Encoding
import StepTemplate.Yaml.Decoding
import StepTemplate.CommandLine.Run
import StepTemplate.Main
import StepTemplate.Text.Quoted
import StepTemplate.Proofs.OrderedMap
import StepTemplate.Proofs.Argument
import StepTemplate.Proofs.Placeholder.Written
import StepTemplate.Proofs.Placeholder.Pattern
import StepTemplate.Proofs.Placeholder.Scanning
import StepTemplate.Proofs.Placeholder.Rendering
import StepTemplate.Proofs.Sequence.Chain
import StepTemplate.Proofs.Sequence.Run
import StepTemplate.Proofs.Sequence.Fixpoint
import StepTemplate.Proofs.Sequence.Blocks
import StepTemplate.Proofs.Sequence.Dangling
import StepTemplate.Proofs.Sequence.Renaming
import StepTemplate.Proofs.Sequence.Siblings
import StepTemplate.Proofs.Text.Occurrences
import StepTemplate.Proofs.Text.Words
import StepTemplate.Proofs.Text.Fragments
import StepTemplate.Proofs.Substitution.Simultaneous
import StepTemplate.Proofs.Group.Expansion
import StepTemplate.Proofs.Substitution.Joining
import StepTemplate.Proofs.Group.Separation
import StepTemplate.Proofs.Group.Suffix
import StepTemplate.Proofs.Scope
import StepTemplate.Proofs.Substitution.Marks
import StepTemplate.Proofs.Substitution.Parameters
import StepTemplate.Proofs.Substitution.Path
import StepTemplate.Proofs.Substitution.Insertion
import StepTemplate.Proofs.Substitution.Scoping
import StepTemplate.Proofs.Substitution.Relevance
import StepTemplate.Proofs.Substitution.Bare
import StepTemplate.Proofs.Substitution.Calling
import StepTemplate.Proofs.CommandLine.Grammar
import StepTemplate.Proofs.CommandLine.Stages
import StepTemplate.Proofs.CommandLine.Invocation
import StepTemplate.Proofs.CommandLine.Environment
import StepTemplate.Proofs.Json.Numeral
import StepTemplate.Proofs.Json.Quoted
import StepTemplate.Proofs.Json.Tree
import StepTemplate.Proofs.Json.Grammar
import StepTemplate.Proofs.Json.Spelling
import StepTemplate.Proofs.Json.Acceptance
import StepTemplate.Proofs.Json.Records
import StepTemplate.Proofs.Json.RoundTrip
import StepTemplate.Proofs.Json.Fields
