import ServiceClient.Call.Context
import ServiceClient.Call.ContextJson
import ServiceClient.Call.Exchange
import ServiceClient.Call.Identifier
import ServiceClient.Call.JournalJson
import ServiceClient.Call.Session
import ServiceClient.Config
import ServiceClient.Digest.Md5
import ServiceClient.Endpoint.Metadata
import ServiceClient.Endpoint.Resolver
import ServiceClient.Endpoint.ResolverJson
import ServiceClient.Endpoint.Template
import ServiceClient.Error
import ServiceClient.ErrorJson
import ServiceClient.Http.Body
import ServiceClient.Http.Endpoint
import ServiceClient.Http.Headers
import ServiceClient.Http.MessageJson
import ServiceClient.Http.Request
import ServiceClient.Http.Response
import ServiceClient.Http.Uri
import ServiceClient.Json.Basic
import ServiceClient.Json.Decoder
import ServiceClient.Json.Document
import ServiceClient.Json.Plain
import ServiceClient.Json.Shape
import ServiceClient.Number.Binary
import ServiceClient.Number.Integer
import ServiceClient.Number.Real
import ServiceClient.Number.Shortest
import ServiceClient.Pipeline.Addressing
import ServiceClient.Pipeline.Binding
import ServiceClient.Pipeline.Drafting
import ServiceClient.Pipeline.ErrorReport
import ServiceClient.Pipeline.Finishing
import ServiceClient.Pipeline.Plan
import ServiceClient.Pipeline.PlanJson
import ServiceClient.Pipeline.Preparation
import ServiceClient.Pipeline.Probe
import ServiceClient.Pipeline.Reading
import ServiceClient.Pipeline.Retrying
import ServiceClient.Pipeline.Stack
import ServiceClient.Pipeline.Step
import ServiceClient.Pipeline.Words
import ServiceClient.Proofs.Endpoint.Template
import ServiceClient.Proofs.Http.Request
import ServiceClient.Proofs.Http.Response
import ServiceClient.Proofs.Http.Uri
import ServiceClient.Proofs.Number.Numeral
import ServiceClient.Proofs.Number.Padded
import ServiceClient.Proofs.Pipeline.Addressing
import ServiceClient.Proofs.Pipeline.Assembly
import ServiceClient.Proofs.Pipeline.Attempts
import ServiceClient.Proofs.Pipeline.Framing
import ServiceClient.Proofs.Pipeline.Onion
import ServiceClient.Proofs.Pipeline.Order
import ServiceClient.Proofs.Pipeline.Reading
import ServiceClient.Proofs.Retry.Budget
import ServiceClient.Proofs.Retry.Classify
import ServiceClient.Proofs.Retry.Delay
import ServiceClient.Proofs.Retry.Recovery
import ServiceClient.Proofs.Retry.Strategy
import ServiceClient.Proofs.Retry.Usage
import ServiceClient.Proofs.Run
import ServiceClient.Proofs.Text.Base64
import ServiceClient.Proofs.Text.Blank
import ServiceClient.Proofs.Text.Utf8
import ServiceClient.Proofs.Time.Calendar
import ServiceClient.Proofs.Time.Epoch
import ServiceClient.Proofs.Time.Scan
import ServiceClient.Proofs.Time.Shown
import ServiceClient.Proofs.Time.Written
import ServiceClient.Proofs.Wire.Scalar
import ServiceClient.Proofs.Xml.Ancestry
import ServiceClient.Proofs.Xml.Boundary
import ServiceClient.Proofs.Xml.Building
import ServiceClient.Proofs.Xml.CharacterData
import ServiceClient.Proofs.Xml.Document
import ServiceClient.Proofs.Xml.Edit
import ServiceClient.Proofs.Xml.Entity
import ServiceClient.Proofs.Xml.Flattened
import ServiceClient.Proofs.Xml.Forest
import ServiceClient.Proofs.Xml.Layout
import ServiceClient.Proofs.Xml.Normal
import ServiceClient.Proofs.Xml.Parse
import ServiceClient.Proofs.Xml.Path
import ServiceClient.Proofs.Xml.Read
import ServiceClient.Proofs.Xml.Reference
import ServiceClient.Proofs.Xml.Resolution
import ServiceClient.Proofs.Xml.Restore
import ServiceClient.Proofs.Xml.Rewriting
import ServiceClient.Proofs.Xml.RoundTrip
import ServiceClient.Proofs.Xml.Shape
import ServiceClient.Proofs.Xml.Spelling
import ServiceClient.Proofs.Xml.Spread
import ServiceClient.Proofs.Xml.Tag
import ServiceClient.Proofs.Xml.Walk
import ServiceClient.Proofs.Xml.Write
import ServiceClient.Queue.Message
import ServiceClient.Queue.Service
import ServiceClient.Queue.ServiceJson
import ServiceClient.Retry.Backoff
import ServiceClient.Retry.Bucket
import ServiceClient.Retry.Classify
import ServiceClient.Retry.Strategy
import ServiceClient.Retry.StrategyJson
import ServiceClient.Text.Base64
import ServiceClient.Text.Blank
import ServiceClient.Text.Hex
import ServiceClient.Text.Hidden
import ServiceClient.Text.Percent
import ServiceClient.Text.Quoted
import ServiceClient.Text.Search
import ServiceClient.Text.Utf8
import ServiceClient.Time.Calendar
import ServiceClient.Time.Duration
import ServiceClient.Time.Scan
import ServiceClient.Time.Timestamp
import ServiceClient.Wire.Error
import ServiceClient.Wire.Scalar
import ServiceClient.Xml.Arena
import ServiceClient.Xml.Cursor
import ServiceClient.Xml.Document
import ServiceClient.Xml.Element
import ServiceClient.Xml.Error
import ServiceClient.Xml.Event
import ServiceClient.Xml.Parse
import ServiceClient.Xml.Reference
import ServiceClient.Xml.Schema
import ServiceClient.Xml.SchemaJson
import ServiceClient.Xml.ValueJson
import ServiceClient.Proofs.Xml.Lookup
import ServiceClient.Proofs.Xml.Texts
import ServiceClient.Proofs.Xml.Root
import ServiceClient.Proofs.Xml.Absence
import ServiceClient.Proofs.Xml.Declared
import ServiceClient.Proofs.Xml.Authoring
import ServiceClient.Proofs.Endpoint.Metadata
import ServiceClient.Proofs.Http.Query
import ServiceClient.Proofs.Http.Authority
import ServiceClient.Proofs.Xml.Links
import ServiceClient.Proofs.Xml.Arena
import ServiceClient.Proofs.Xml.Output
import ServiceClient.Proofs.Xml.Agreement
import ServiceClient.Proofs.Xml.Open
import ServiceClient.Proofs.Xml.Assembly
import ServiceClient.Proofs.Xml.Trimmed
