import TypedRecord.Binary.Basic
import TypedRecord.Cbor.Head
import TypedRecord.Cbor.Reader
import TypedRecord.Cbor.Writer
import TypedRecord.Codec
import TypedRecord.Decimal.Numeral
import TypedRecord.Decimal.Shortest
import TypedRecord.Decimal.Stepwise
import TypedRecord.Declaration.Assembly
import TypedRecord.Declaration.Basic
import TypedRecord.Declaration.LetterCase
import TypedRecord.Declaration.PropertyName
import TypedRecord.Entity.Basic
import TypedRecord.Entity.Component
import TypedRecord.Entity.Content
import TypedRecord.Entity.Record
import TypedRecord.Entity.Storable
import TypedRecord.Entity.StorageConfig
import TypedRecord.Entity.Table
import TypedRecord.Entries
import TypedRecord.Error
import TypedRecord.Hydration
import TypedRecord.Json.Fields
import TypedRecord.Json.Parser
import TypedRecord.Json.Term
import TypedRecord.Json.Token
import TypedRecord.Json.Tree
import TypedRecord.Json.Writer
import TypedRecord.Kind
import TypedRecord.Progress
import TypedRecord.Registry
import TypedRecord.Renaming.Apply
import TypedRecord.Renaming.Document
import TypedRecord.Renaming.Rules
import TypedRecord.Report
import TypedRecord.Sample.Entities
import TypedRecord.Settings
import TypedRecord.Text.Digits
import TypedRecord.Text.Utf8
import TypedRecord.Time.Calendar
import TypedRecord.Time.Rfc3339
import TypedRecord.Time.Timestamp
import TypedRecord.Value.Basic
import TypedRecord.Value.Blob
import TypedRecord.Value.Coercion
import TypedRecord.Value.Path
import TypedRecord.Proofs.Columns
import TypedRecord.Proofs.Assignment
import TypedRecord.Proofs.Protection
import TypedRecord.Proofs.Binary
import TypedRecord.Proofs.Normal
import TypedRecord.Proofs.Cbor.Heads
import TypedRecord.Proofs.Cbor.RoundTrip
import TypedRecord.Proofs.Digits
import TypedRecord.Proofs.Json.Tokens
import TypedRecord.Proofs.Json.Terms
import TypedRecord.Proofs.Json.Scalars
import TypedRecord.Proofs.Json.RoundTrip
import TypedRecord.Proofs.Kinds
import TypedRecord.Proofs.Shapes
import TypedRecord.Proofs.RoundTrip
import TypedRecord.Proofs.Moves
import TypedRecord.Proofs.Unruled
import TypedRecord.Proofs.Order
import TypedRecord.Proofs.Tables
import TypedRecord.Proofs.Hydration
import TypedRecord.Proofs.Alteration
import TypedRecord.Proofs.Agreement
import TypedRecord.Proofs.Failure
import TypedRecord.Proofs.Containers
import TypedRecord.Proofs.Coercions
import TypedRecord.Proofs.TypedEntities
import TypedRecord.Proofs.Transit
import TypedRecord.Proofs.Restoration
import TypedRecord.Proofs.Changes
import TypedRecord.Proofs.Cbor.Reservations
import TypedRecord.Proofs.Decoded
import TypedRecord.Proofs.Json.Trees
import TypedRecord.Proofs.Updates
import TypedRecord.Proofs.Documents
import TypedRecord.Proofs.DeclaredNames
import TypedRecord.Proofs.Spellings
import TypedRecord.Proofs.Building
import TypedRecord.Proofs.AuditTrail
import TypedRecord.Proofs.Registrations
import TypedRecord.Proofs.Depth
import TypedRecord.Proofs.Strictness
import TypedRecord.Proofs.Diagnostics
import TypedRecord.Proofs.Processing
import TypedRecord.Proofs.Rationals
import TypedRecord.Proofs.Truncation
import TypedRecord.Proofs.Calendar
import TypedRecord.Proofs.Instants
import TypedRecord.Proofs.Insertions
import TypedRecord.Proofs.Declarations
import TypedRecord.Proofs.Sites
import TypedRecord.Proofs.Shadowing
import TypedRecord.Proofs.Reports
