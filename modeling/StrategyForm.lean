import StrategyForm.Cache
import StrategyForm.Command.Arguments
import StrategyForm.Command.Format
import StrategyForm.Command.Program
import StrategyForm.Command.Report
import StrategyForm.Command.Run
import StrategyForm.Command.Table
import StrategyForm.Decimal.Binary64
import StrategyForm.Decimal.Extended
import StrategyForm.Decimal.Layout
import StrategyForm.Decimal.Shortest
import StrategyForm.Dotenv
import StrategyForm.Fault
import StrategyForm.Field
import StrategyForm.Folder
import StrategyForm.Form.Assembly
import StrategyForm.Form.Condition
import StrategyForm.Form.InitialValues
import StrategyForm.Form.Violation
import StrategyForm.Fragment
import StrategyForm.Json.Decoder
import StrategyForm.Json.Document
import StrategyForm.Json.Number
import StrategyForm.Json.Reader
import StrategyForm.Json.Value
import StrategyForm.Json.Writer
import StrategyForm.Keyed
import StrategyForm.Log
import StrategyForm.Log.Filter
import StrategyForm.Main
import StrategyForm.Schema
import StrategyForm.Session.Binding
import StrategyForm.Session.Fetch
import StrategyForm.Session.Run
import StrategyForm.Session.State
import StrategyForm.Session.Step
import StrategyForm.SettingTree
import StrategyForm.Settings
import StrategyForm.Settings.Environment
import StrategyForm.Settings.File
import StrategyForm.Settings.Load
import StrategyForm.Store
import StrategyForm.Text.Alphanumeric
import StrategyForm.Text.Blank
import StrategyForm.Text.Fold
import StrategyForm.Text.Hex
import StrategyForm.Toml.Draft
import StrategyForm.Toml.Quoted
import StrategyForm.Toml.Reader
import StrategyForm.Toml.Scalar
import StrategyForm.Web.Client
import StrategyForm.Web.Domain
import StrategyForm.Web.Host
import StrategyForm.Web.Network
import StrategyForm.Web.Percent
import StrategyForm.Web.Punycode
import StrategyForm.Web.Resolver
import StrategyForm.Web.Status
import StrategyForm.Web.Url
import StrategyForm.Web.Url.Reader
import StrategyForm.Wire.Field
import StrategyForm.Wire.Fragment
import StrategyForm.Wire.Record
import StrategyForm.Wire.Schema
import StrategyForm.Proofs.Cache.Past
import StrategyForm.Proofs.Form.Custom
import StrategyForm.Proofs.Form.Sections
import StrategyForm.Proofs.Form.Violations
import StrategyForm.Proofs.Session.Booked
import StrategyForm.Proofs.Session.Cancelled
import StrategyForm.Proofs.Session.Coherent
import StrategyForm.Proofs.Session.Faithful
import StrategyForm.Proofs.Session.Forgotten
import StrategyForm.Proofs.Session.Foreground
import StrategyForm.Proofs.Session.Fresh
import StrategyForm.Proofs.Session.Asked
import StrategyForm.Proofs.Session.OwnId
import StrategyForm.Proofs.Web.Endpoint
import StrategyForm.Proofs.Web.Percent
import StrategyForm.Proofs.Web.Retry
import StrategyForm.Proofs.Web.Segments
import StrategyForm.Proofs.Web.Slash
import StrategyForm.Proofs.Session.Budget
import StrategyForm.Proofs.Session.Attended
import StrategyForm.Proofs.Session.Busy
import StrategyForm.Proofs.Session.Settled
import StrategyForm.Proofs.Json.Numeral
import StrategyForm.Proofs.Json.Written
import StrategyForm.Proofs.Json.Restored
import StrategyForm.Proofs.Json.Rows
import StrategyForm.Proofs.Wire.Restored
import StrategyForm.Proofs.Form.Isolated
import StrategyForm.Proofs.Session.Collected
import StrategyForm.Proofs.Command.Answered
import StrategyForm.Proofs.Decimal.Nearest
import StrategyForm.Proofs.Form.Conditions
import StrategyForm.Proofs.Form.Equality
import StrategyForm.Proofs.Form.Bounds
import StrategyForm.Proofs.Form.InitialValues
import StrategyForm.Proofs.Session.Latency
import StrategyForm.Proofs.Web.Address
import StrategyForm.Proofs.Settings.Layers
import StrategyForm.Proofs.Settings.Records
import StrategyForm.Proofs.Settings.ByLeaf
import StrategyForm.Proofs.Json.Taken
import StrategyForm.Proofs.Json.Edited
import StrategyForm.Proofs.Wire.Tolerant
import StrategyForm.Proofs.Cache.Partition
import StrategyForm.Proofs.Json.OneLine
import StrategyForm.Proofs.Command.Aligned
import StrategyForm.Proofs.Decimal.Rounded
import StrategyForm.Proofs.Settings.Given
import StrategyForm.Proofs.Settings.Spelt
import StrategyForm.Proofs.Settings.Numbers
import StrategyForm.Proofs.Web.Resolver
