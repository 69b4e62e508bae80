import Refinement.Assertion
import Refinement.Audit
import Refinement.BinaryFloat.Arithmetic
import Refinement.BinaryFloat.Basic
import Refinement.BinaryFloat.Text
import Refinement.Client
import Refinement.Comparator
import Refinement.Condition
import Refinement.Decimal.Notation
import Refinement.Decimal.Rounding
import Refinement.Decimal.Shortest
import Refinement.Demonstration
import Refinement.Event
import Refinement.Expression.Scope
import Refinement.Expression.Term
import Refinement.Expression.Token
import Refinement.Formula
import Refinement.Json.Fault
import Refinement.Json.Lexical
import Refinement.Json.Number
import Refinement.Json.Reader
import Refinement.Json.Structure
import Refinement.Json.Writer
import Refinement.Power
import Refinement.Present
import Refinement.Proofs.Evaluation.Chain
import Refinement.Proofs.Orders.Laws
import Refinement.Proofs.Reading.Simulation
import Refinement.Proofs.RoundTrip.Texts
import Refinement.Proofs.Store.Sessions
import Refinement.Refined
import Refinement.Satisfiable
import Refinement.Scalar.Basic
import Refinement.Scalar.Integer
import Refinement.Scalar.Key
import Refinement.Scalar.Text
import Refinement.Session.Present
import Refinement.Session.Refined
import Refinement.Session.Store
import Refinement.Sorted
import Refinement.SortedMap
import Refinement.Tally
import Refinement.Text.Digits
import Refinement.Text.Outline
import Refinement.Text.Quoted
import Refinement.Text.Spec
import Refinement.Text.Unprintable
import Refinement.Ty.Basic
import Refinement.Ty.Comparison
import Refinement.Ty.Edit
import Refinement.Ty.Order
import Refinement.Ty.Text
import Refinement.TypeName
import Refinement.Vocabulary.Abbreviation
import Refinement.Vocabulary.Constant
import Refinement.Vocabulary.Marker
import Refinement.Vocabulary.Meaning
import Refinement.Vocabulary.NamedOrder
import Refinement.Proofs.Orders.Values
import Refinement.Proofs.Orders.Mirrors
import Refinement.Proofs.Negation.Formulas
import Refinement.Proofs.Negation.Predicates
import Refinement.Proofs.Naming.Quoted
import Refinement.Proofs.Naming.Spelling
import Refinement.Proofs.Naming.Vocabulary
import Refinement.Proofs.Naming.Predicates
import Refinement.Proofs.Orders.Boundaries
import Refinement.Proofs.Grammar.Basic
import Refinement.Proofs.Grammar.Reading
import Refinement.Proofs.Presence.Reading
import Refinement.Proofs.Presence.Histories
import Refinement.Proofs.Negation.Contexts
import Refinement.Proofs.Orders.Incomparable
import Refinement.Proofs.Orders.Ranges
import Refinement.Proofs.Collections.Listing
import Refinement.Proofs.Collections.Merging
import Refinement.Proofs.Store.Chains
import Refinement.Proofs.Collections.Counting
import Refinement.Proofs.Presence.Routes
import Refinement.Proofs.Presence.Taking
import Refinement.Proofs.Orders.Signs
import Refinement.Proofs.Characters.Regions
import Refinement.Proofs.Characters.Classes
import Refinement.Proofs.Collections.Texts
