import Docket.Bytes
import Docket.Calendar.Date
import Docket.Calendar.DateTime
import Docket.Causes
import Docket.Cbor.Data
import Docket.Cbor.Item
import Docket.Cbor.Reader
import Docket.Cbor.Tagged
import Docket.Cbor.Writer
import Docket.Configuration
import Docket.Content
import Docket.Detection
import Docket.Document
import Docket.Encoding
import Docket.ExceptionClass
import Docket.Failure
import Docket.FieldName
import Docket.Future.Basic
import Docket.Future.Exchange
import Docket.Future.History
import Docket.Future.Source
import Docket.Future.Step
import Docket.Json.Reader
import Docket.Json.Writer
import Docket.Key
import Docket.Log
import Docket.MessagePack.Reader
import Docket.MessagePack.Writer
import Docket.Number.Binary64
import Docket.Number.Decimal
import Docket.Number.Literal
import Docket.Number.Numeral
import Docket.Number.Power
import Docket.Number.Worth
import Docket.Payload
import Docket.Recorder
import Docket.Reference
import Docket.Scalar
import Docket.Script
import Docket.Session
import Docket.Text.Blank
import Docket.Text.Casing
import Docket.Text.Coding
import Docket.Text.Digit
import Docket.Text.Lower
import Docket.Text.Pattern
import Docket.Text.Printable
import Docket.Text.Quoted
import Docket.Text.Ranges
import Docket.Timeout
import Docket.Tree
import Docket.Value
import Docket.Yaml.Base64
import Docket.Yaml.Character
import Docket.Yaml.Composition
import Docket.Yaml.Data
import Docket.Yaml.Leaf
import Docket.Yaml.Merging
import Docket.Yaml.Node
import Docket.Yaml.Reader
import Docket.Yaml.Scalar
import Docket.Yaml.ScalarText
import Docket.Yaml.Tag
import Docket.Yaml.Token
import Docket.Yaml.Writer
import Docket.Proofs.Future.Course
import Docket.Proofs.Future.Delivery
import Docket.Proofs.Future.Gathering
import Docket.Proofs.Future.Agreement
import Docket.Proofs.Future.Pairing
import Docket.Proofs.Future.Coupling
import Docket.Proofs.Recording.Content
import Docket.Proofs.Recording.Building
import Docket.Proofs.Recording.Journal
import Docket.Proofs.Recording.Soundness
import Docket.Proofs.Recording.Statements
import Docket.Proofs.Recording.Runs
import Docket.Proofs.Recording.Data
import Docket.Proofs.Recording.Ownership
import Docket.Proofs.Number.Digits
import Docket.Proofs.Number.Rounding
import Docket.Proofs.Number.Shortest
import Docket.Proofs.Number.Layout
import Docket.Proofs.Json.Number
import Docket.Proofs.Text.Extension
import Docket.Proofs.Json.Text
import Docket.Proofs.Json.Nesting
import Docket.Proofs.Json.Extension
import Docket.Proofs.Payload.Preparation
import Docket.Proofs.Payload.Sizes
import Docket.Proofs.Json.RoundTrip
import Docket.Proofs.Cbor.Spelling
import Docket.Proofs.Cbor.Extension
import Docket.Proofs.Cbor.RoundTrip
import Docket.Proofs.MessagePack.Packing
import Docket.Proofs.MessagePack.Extension
import Docket.Proofs.MessagePack.RoundTrip
import Docket.Proofs.Payload.Truncation
import Docket.Proofs.Payload.Detection
import Docket.Proofs.Yaml.Texts
import Docket.Proofs.Yaml.DoubleQuoted
import Docket.Proofs.Yaml.Scanning
import Docket.Proofs.Yaml.Scalars
import Docket.Proofs.Yaml.Tokens
import Docket.Proofs.Yaml.Composition
import Docket.Proofs.Yaml.Graph
import Docket.Proofs.Yaml.Data
import Docket.Proofs.Yaml.Readable
import Docket.Proofs.Yaml.Numbers
import Docket.Proofs.Yaml.Trees
import Docket.Proofs.Yaml.RoundTrip
import Docket.Proofs.Recording.Meaning
import Docket.Proofs.Recording.Evaluation
import Docket.Proofs.Recording.Writing
import Docket.Proofs.Recording.Calling
import Docket.Proofs.Recording.Refinement
import Docket.Proofs.Recording.Grammar
import Docket.Proofs.Recording.Acceptance
import Docket.Proofs.Recording.Escaping
import Docket.Proofs.Recording.Forms
import Docket.Proofs.Recording.Shadowing
import Docket.Proofs.Document.Calls
import Docket.Proofs.Document.Course
import Docket.Proofs.Document.Answers
import Docket.Proofs.Document.Freezing
import Docket.Proofs.Document.FixedPoints
import Docket.Proofs.Recording.Turns
import Docket.Proofs.Recording.Ordering
import Docket.Proofs.Recording.Iterators
import Docket.Proofs.Recording.Independence
import Docket.Proofs.Recording.Keywords
import Docket.Proofs.Recording.Synonyms
import Docket.Proofs.Payload.Forms
import Docket.Proofs.Payload.Plainness
import Docket.Proofs.Calendar.Ordinal
import Docket.Proofs.Calendar.Clock
import Docket.Proofs.Calendar.Sorting
import Docket.Proofs.Payload.Failures
import Docket.Proofs.Number.Order
import Docket.Proofs.Text.Lower
import Docket.Proofs.Timeout.Forms
import Docket.Proofs.Timeout.Seconds
import Docket.Proofs.Timeout.Contract
import Docket.Proofs.Yaml.Faults
import Docket.Proofs.Yaml.TokenFaults
import Docket.Proofs.Yaml.DataFaults
import Docket.Proofs.Payload.Decoding
import Docket.Proofs.Causes.Roots
import Docket.Proofs.Causes.Wrapping
import Docket.Proofs.Future.Relay
import Docket.Proofs.Configuration.Spelling
import Docket.Proofs.Configuration.Changes
