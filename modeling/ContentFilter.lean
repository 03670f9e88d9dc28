import ContentFilter.CommandLine.Command
import ContentFilter.CommandLine.Files
import ContentFilter.CommandLine.Option
import ContentFilter.CommandLine.Run
import ContentFilter.Config
import ContentFilter.Config.Reader
import ContentFilter.Cosmetic.Marker
import ContentFilter.Cosmetic.PageScope
import ContentFilter.Cosmetic.Reader
import ContentFilter.Cosmetic.Rule
import ContentFilter.FlagSet
import ContentFilter.Fragment
import ContentFilter.Json.Source
import ContentFilter.Json.Token
import ContentFilter.Json.Value
import ContentFilter.Modifier.Kind
import ContentFilter.Modifier.Map
import ContentFilter.Modifier.Reader
import ContentFilter.Network.Effect
import ContentFilter.Network.Reader
import ContentFilter.Network.Rule
import ContentFilter.Proofs.CommandLine.Scripts
import ContentFilter.Proofs.Cosmetic.DomainMeaning
import ContentFilter.Proofs.Cosmetic.Faults
import ContentFilter.Proofs.Cosmetic.Marker
import ContentFilter.Proofs.Cosmetic.MarkerBlanks
import ContentFilter.Proofs.Cosmetic.PageScope
import ContentFilter.Proofs.Cosmetic.RoundTrip
import ContentFilter.Proofs.Cosmetic.Shift
import ContentFilter.Proofs.Fragment.Cutting
import ContentFilter.Proofs.Fragment.Placement
import ContentFilter.Proofs.Fragment.Shift
import ContentFilter.Proofs.Json.Literal
import ContentFilter.Proofs.Modifier.Admission
import ContentFilter.Proofs.Modifier.Duplicates
import ContentFilter.Proofs.Modifier.Faults
import ContentFilter.Proofs.Modifier.Grammar
import ContentFilter.Proofs.Modifier.Map
import ContentFilter.Proofs.Modifier.Registry
import ContentFilter.Proofs.Modifier.Shift
import ContentFilter.Proofs.Modifier.Spelling
import ContentFilter.Proofs.Modifier.Validity
import ContentFilter.Proofs.Modifier.Writing
import ContentFilter.Proofs.Network.Composition
import ContentFilter.Proofs.Network.Effect
import ContentFilter.Proofs.Network.EveryType
import ContentFilter.Proofs.Network.Faults
import ContentFilter.Proofs.Network.ModifierOrder
import ContentFilter.Proofs.Network.Redirection
import ContentFilter.Proofs.Network.Shift
import ContentFilter.Proofs.Network.Steps
import ContentFilter.Proofs.Network.WellFormed
import ContentFilter.Proofs.Reading
import ContentFilter.Proofs.Request.Blocking
import ContentFilter.Proofs.Request.DecisionTable
import ContentFilter.Proofs.Request.Insertion
import ContentFilter.Proofs.Request.Precedence
import ContentFilter.Proofs.Request.RedirectRule
import ContentFilter.Proofs.Rule.Calls
import ContentFilter.Proofs.Rule.Domain
import ContentFilter.Proofs.Rule.Duplicates
import ContentFilter.Proofs.Rule.Faults
import ContentFilter.Proofs.Rule.Identity
import ContentFilter.Proofs.Rule.Shift
import ContentFilter.Proofs.Rule.Validity
import ContentFilter.Proofs.Script.Aggregation
import ContentFilter.Proofs.Script.CallGrammar
import ContentFilter.Proofs.Script.Coherence
import ContentFilter.Proofs.Script.Collecting
import ContentFilter.Proofs.Script.Materializer
import ContentFilter.Proofs.Script.Memo
import ContentFilter.Proofs.Script.Nameless
import ContentFilter.Proofs.Script.QuietReloads
import ContentFilter.Proofs.Script.Snippet
import ContentFilter.Proofs.Storage.Chunks
import ContentFilter.Proofs.Storage.FilterList
import ContentFilter.Proofs.Storage.InsertionOrder
import ContentFilter.Proofs.Storage.Lists
import ContentFilter.Proofs.Storage.Loading
import ContentFilter.Proofs.Storage.Screening
import ContentFilter.Proofs.Storage.SeveralLists
import ContentFilter.Proofs.SyntaxError.Evidence
import ContentFilter.Proofs.Text.Bytes
import ContentFilter.Proofs.Text.Cut
import ContentFilter.Proofs.Text.Trim
import ContentFilter.Proofs.ValueList.Entries
import ContentFilter.Proofs.ValueList.Faults
import ContentFilter.Proofs.ValueList.Grammar
import ContentFilter.Proofs.ValueList.RoundTrip
import ContentFilter.Proofs.ValueList.Shift
import ContentFilter.Proofs.ValueList.TrailingSeparator
import ContentFilter.Proofs.Web.Host
import ContentFilter.Proofs.Web.UserPart
import ContentFilter.Request.Action
import ContentFilter.Request.Decision
import ContentFilter.Request.Matching
import ContentFilter.Request.Report
import ContentFilter.Request.Type
import ContentFilter.Rule.Basic
import ContentFilter.Rule.Domain
import ContentFilter.Rule.Identity
import ContentFilter.Rule.Reader
import ContentFilter.Rule.Site
import ContentFilter.Rule.Validity
import ContentFilter.Script.Call
import ContentFilter.Script.Collection
import ContentFilter.Script.Materializer
import ContentFilter.Script.Resource
import ContentFilter.Script.Sharing
import ContentFilter.Storage.Basic
import ContentFilter.Storage.FilterList
import ContentFilter.Storage.Loader
import ContentFilter.SyntaxError
import ContentFilter.Text.Basic
import ContentFilter.Text.Bytes
import ContentFilter.Text.Cut
import ContentFilter.ValueList
import ContentFilter.Web.Host
import ContentFilter.Web.IpAddress
import ContentFilter.Web.PublicSuffix
import ContentFilter.Main
