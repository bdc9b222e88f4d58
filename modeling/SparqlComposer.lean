import SparqlComposer.Endpoint
import SparqlComposer.Session.Call
import SparqlComposer.Proofs.Expression.Classify
import SparqlComposer.Proofs.Layout.Between
import SparqlComposer.Proofs.Prefix.Soundness
import SparqlComposer.Proofs.Session.Nesting
import SparqlComposer.Proofs.Session.Effect
import SparqlComposer.Proofs.Session.Failure
import SparqlComposer.Proofs.Usage.Mention
import SparqlComposer.Proofs.Usage.History
import SparqlComposer.Proofs.Usage.Validation
import SparqlComposer.Proofs.Usage.Definition
import SparqlComposer.Proofs.Usage.Soundness
import SparqlComposer.Proofs.Reading.Word
import SparqlComposer.Proofs.Reading.Group
import SparqlComposer.Proofs.Reading.Parse
import SparqlComposer.Proofs.Reading.Readable
import SparqlComposer.Proofs.Reading.RoundTrip
import SparqlComposer.Proofs.Reading.Plain
import SparqlComposer.Proofs.Path.Grammar
import SparqlComposer.Proofs.Path.Reading
import SparqlComposer.Proofs.Path.Names
import SparqlComposer.Proofs.Path.Term
import SparqlComposer.Proofs.Lexeme.Basic
import SparqlComposer.Proofs.Lexeme.Format
import SparqlComposer.Proofs.Lexeme.Strings
import SparqlComposer.Proofs.Literal.Part
import SparqlComposer.Proofs.Literal.Query
import SparqlComposer.Proofs.Literal.Session
import SparqlComposer.Proofs.Literal.Names
import SparqlComposer.Proofs.Literal.Escape
import SparqlComposer.Proofs.Capture.Blind
import SparqlComposer.Proofs.Capture.Scan
import SparqlComposer.Proofs.Capture.Place
import SparqlComposer.Proofs.Capture.Call
import SparqlComposer.Proofs.Usage.Rearrangement
import SparqlComposer.Proofs.Usage.Attachment
import SparqlComposer.Proofs.Triple.History
import SparqlComposer.Proofs.Prefix.Header
import SparqlComposer.Proofs.Expression.Call
import SparqlComposer.Proofs.Usage.Replacement
import SparqlComposer.Proofs.Capture.Occurrence
import SparqlComposer.Proofs.Usage.Target
import SparqlComposer.Proofs.Usage.Description
import SparqlComposer.Proofs.Expression.Bracket
import SparqlComposer.Proofs.Layout.Line
import SparqlComposer.Proofs.Layout.Indentation
import SparqlComposer.Proofs.Layout.Blank
import SparqlComposer.Proofs.Path.Classify
import SparqlComposer.Proofs.Session.Recursion
import SparqlComposer.Proofs.Capture.Reference
import SparqlComposer.Proofs.Expression.Outcome
import SparqlComposer.Proofs.Layout.Parts
