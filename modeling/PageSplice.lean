import PageSplice.Base64
import PageSplice.Batch.Request
import PageSplice.Batch.Run
import PageSplice.Bytes
import PageSplice.Catalog
import PageSplice.Charset.Basic
import PageSplice.Charset.Utf8
import PageSplice.Delegate
import PageSplice.Digest
import PageSplice.Failure
import PageSplice.FileError
import PageSplice.FileTree
import PageSplice.Html.Attributes
import PageSplice.Html.CharRef
import PageSplice.Html.CharRefTable
import PageSplice.Html.Document
import PageSplice.Html.Position
import PageSplice.Html.Scan
import PageSplice.Html.StartTag
import PageSplice.Html.Token
import PageSplice.Json.Decimal
import PageSplice.Json.Printer
import PageSplice.Json.Reader
import PageSplice.Json.Value
import PageSplice.Main
import PageSplice.Mime.Table
import PageSplice.Mime.Type
import PageSplice.Minify.Delegates
import PageSplice.Misfit
import PageSplice.Page.Compile
import PageSplice.Page.Reference
import PageSplice.Page.Suspended
import PageSplice.Path
import PageSplice.Proofs.Batch.Isolation
import PageSplice.Proofs.Batch.Outputs
import PageSplice.Proofs.Batch.Treatment
import PageSplice.Proofs.Batch.Writing
import PageSplice.Proofs.Build
import PageSplice.Proofs.Charset
import PageSplice.Proofs.Digest
import PageSplice.Proofs.FileTree
import PageSplice.Proofs.Html.Appending
import PageSplice.Proofs.Html.AttributeText
import PageSplice.Proofs.Html.Attributes
import PageSplice.Proofs.Html.CharacterData
import PageSplice.Proofs.Html.Editing
import PageSplice.Proofs.Html.EndTags
import PageSplice.Proofs.Html.Front
import PageSplice.Proofs.Html.Lookahead
import PageSplice.Proofs.Html.Nesting
import PageSplice.Proofs.Html.Outline
import PageSplice.Proofs.Html.PlainFront
import PageSplice.Proofs.Html.PlainTag
import PageSplice.Proofs.Html.RawText
import PageSplice.Proofs.Html.Reading
import PageSplice.Proofs.Html.Relocation
import PageSplice.Proofs.Html.Rereading
import PageSplice.Proofs.Html.SetAttribute
import PageSplice.Proofs.Html.Spans
import PageSplice.Proofs.Json
import PageSplice.Proofs.Mime.Selection
import PageSplice.Proofs.Page.Anchoring
import PageSplice.Proofs.Page.Cancellation
import PageSplice.Proofs.Page.Characters
import PageSplice.Proofs.Page.Dependencies
import PageSplice.Proofs.Page.Depth
import PageSplice.Proofs.Page.Directory
import PageSplice.Proofs.Page.Dispatch
import PageSplice.Proofs.Page.Driving
import PageSplice.Proofs.Page.Elements
import PageSplice.Proofs.Page.Faults
import PageSplice.Proofs.Page.Frame
import PageSplice.Proofs.Page.Idempotence
import PageSplice.Proofs.Page.Identities
import PageSplice.Proofs.Page.Inner
import PageSplice.Proofs.Page.Maps
import PageSplice.Proofs.Page.Noninterference
import PageSplice.Proofs.Page.Origins
import PageSplice.Proofs.Page.Preparation
import PageSplice.Proofs.Page.Reading
import PageSplice.Proofs.Page.Replacing
import PageSplice.Proofs.Page.SecureLinks
import PageSplice.Proofs.Page.Settled
import PageSplice.Proofs.Page.Splicing
import PageSplice.Proofs.Page.Standard
import PageSplice.Proofs.Page.Turn
import PageSplice.Proofs.Path
import PageSplice.Proofs.Path.Climbing
import PageSplice.Proofs.Recording
import PageSplice.Proofs.Region
import PageSplice.Proofs.Registry
import PageSplice.Proofs.Server.Configuration
import PageSplice.Proofs.Server.Containment
import PageSplice.Proofs.Server.Encoding
import PageSplice.Proofs.Server.Transparency
import PageSplice.Proofs.SourceMap.Embedded
import PageSplice.Proofs.SourceMap.Lines
import PageSplice.Proofs.SourceMap.Mappings
import PageSplice.Proofs.SourceMap.Reference
import PageSplice.Proofs.Suspension
import PageSplice.Region
import PageSplice.Registry
import PageSplice.Server.Cache
import PageSplice.Server.Exchange
import PageSplice.Server.Location
import PageSplice.Server.Response
import PageSplice.Session
import PageSplice.Settings
import PageSplice.SourceMap.Embedded
import PageSplice.SourceMap.Line
import PageSplice.SourceMap.Mappings
import PageSplice.SourceMap.Reference
import PageSplice.SourceMap.Vlq
import PageSplice.Suspension
import PageSplice.Text.Basic
import PageSplice.Text.Blank
import PageSplice.Text.Case
import PageSplice.Text.CaseTable
import PageSplice.Text.Newline
import PageSplice.Text.Numeral
import PageSplice.Text.PrintableTable
import PageSplice.Text.Quoted
import PageSplice.Text.Ranges
import PageSplice.Url.Host
import PageSplice.Url.Percent
import PageSplice.Url.Split
