import Qdrust.Library.Transition
import Qdrust.Library.Table
import Qdrust.Library.Text
import Qdrust.Library.Json
import Qdrust.Library.Checked
import Qdrust.Library.Readings
import Qdrust.Redact
import Qdrust.Store.Model
import Qdrust.Store.Runs
import Qdrust.Store.RunLifecycle
import Qdrust.Library.Window
import Qdrust.Scheduler.Due
import Qdrust.Scheduler.System
import Qdrust.Scheduler.Calls
import Qdrust.Scheduler.Steps
import Qdrust.Scheduler.Lease
import Qdrust.Scheduler.Completion
import Qdrust.Scheduler.Retries
import Qdrust.Scheduler.Occurrences
import Qdrust.Har.Model
import Qdrust.Har.Normalize
import Qdrust.Har.Program
import Qdrust.Har.Reading
import Qdrust.Template.Definition
import Qdrust.Store.Templates
import Qdrust.Har.Stored
import Qdrust.Library.Script
import Qdrust.Har.Editor
import Qdrust.Har.Saved
import Qdrust.Har.Convert
import Qdrust.Library.Overlay
import Qdrust.Store.UpdateTask
import Qdrust.Store.TemplateRows
import Qdrust.Store.UpdateLaw
import Qdrust.Executor.Address
import Qdrust.Library.Utf8
import Qdrust.Library.Form
import Qdrust.Executor.Form
import Qdrust.Library.Quoted
import Qdrust.Expression.Rewrite
import Qdrust.Expression.Template
import Qdrust.Expression.Declarations
import Qdrust.Expression.Pieces
import Qdrust.Library.Effect
import Qdrust.Executor.Context
import Qdrust.Executor.Request
import Qdrust.Executor.Program
import Qdrust.Executor.Limits
import Qdrust.Executor.Rendering
import Qdrust.Executor.NativeForm
import Qdrust.Har.Grammar
import Qdrust.Pattern.Agreement
import Qdrust.Library.FormLoss
import Qdrust.Executor.Frame
import Qdrust.Library.Concurrent
import Qdrust.Notepad.Action
import Qdrust.Notepad.Append
import Qdrust.Notepad.Slots
import Qdrust.Library.Redemption
import Qdrust.Account.Model
import Qdrust.Account.Redemption
import Qdrust.Account.SecondFactor
import Qdrust.Account.LoginTotp
import Qdrust.Account.Challenge
import Qdrust.Store.PushRequests
import Qdrust.Library.Counting
import Qdrust.Account.Login
import Qdrust.Account.LoginLimit
import Qdrust.Library.Nesting
import Qdrust.Expression.Formatting
import Qdrust.Subscriptions.CatalogueCache
import Qdrust.Account.ExternalIdentity
import Qdrust.Library.Alone
import Qdrust.Account.Session
import Qdrust.Account.Administration
import Qdrust.Account.HeaderAuth
import Qdrust.Scheduler.Traces
import Qdrust.Subscriptions.Source
import Qdrust.Subscriptions.Imports
import Qdrust.Library.Collect
import Qdrust.Expression.Variables
import Qdrust.Har.Variables
import Qdrust.Scheduler.Live
import Qdrust.Backup.Schema
import Qdrust.Backup.Restore
import Qdrust.Library.Relational
import Qdrust.Deletion.Programs
import Qdrust.Deletion.Interleaving
import Qdrust.Library.Iteration
import Qdrust.Executor.WhileLimit
import Qdrust.Executor.Assignments
import Qdrust.Executor.LoopVariables
import Qdrust.Library.UrlText
import Qdrust.Executor.ApiQuery
import Qdrust.Library.Digits
import Qdrust.Pattern.Places
import Qdrust.Pattern.Repetitions
import Qdrust.Pattern.Numbers
import Qdrust.Pattern.Conditions
import Qdrust.Executor.Endings
import Qdrust.Executor.Cookies
import Qdrust.Scheduler.Cancellation
import Qdrust.Library.Register
import Qdrust.Library.Warranted
import Qdrust.Tenancy.Statements
import Qdrust.Tenancy.Operations
import Qdrust.Tenancy.Owners
import Qdrust.Tenancy.Isolation
import Qdrust.Library.Custody
import Qdrust.Browser.Manager
import Qdrust.Library.BitStream
import Qdrust.Totp.Base32
import Qdrust.Library.Machine
import Qdrust.Library.Numeral
import Qdrust.Totp.Code
import Qdrust.Codec.Uu
import Qdrust.Codec.QuotedPrintable
import Qdrust.Library.Backtrack
import Qdrust.Pattern.Delimited
import Qdrust.Library.Paging
import Qdrust.Store.Pages
import Qdrust.Library.Words
import Qdrust.Expression.PythonSplit
import Qdrust.Library.Chunks
import Qdrust.Codec.HexSep
import Qdrust.Expression.WordWrap
import Qdrust.Library.Search
import Qdrust.Expression.Find
import Qdrust.Store.Failures
import Qdrust.Library.Substitution
import Qdrust.Delivery.Template
import Qdrust.Codec.Pem
import Qdrust.Library.Scanner
import Qdrust.Expression.Unescape
import Qdrust.Expression.FormatSpec
import Qdrust.Har.Bodies
import Qdrust.Expression.Replacement
import Qdrust.Expression.MutableSeq
import Qdrust.Library.Slices
import Qdrust.Library.Masking
import Qdrust.Redact.Bytes
import Qdrust.Redact.UrlBodies
import Qdrust.Subscriptions.Versions
import Qdrust.Template.Validation
import Qdrust.Executor.Finish
import Qdrust.Library.Double
import Qdrust.Webui.Pagination
import Qdrust.Library.Remainder
import Qdrust.Codec.Crc
import Qdrust.Library.Marked
import Qdrust.Subscriptions.PlainText
import Qdrust.Library.Calendar
import Qdrust.Webui.Calendar
import Qdrust.Expression.SpanRewrite
import Qdrust.Expression.Spans
import Qdrust.Expression.SpanRewrite
import Qdrust.Library.Sources
import Qdrust.Server.Readings
import Qdrust.Server.Config
import Qdrust.Server.Variables
import Qdrust.Server.Precedence
import Qdrust.Redact.Idempotence
import Qdrust.Browser.Tabs
import Qdrust.Account.Revocation
import Qdrust.Executor.Events
import Qdrust.Scheduler.RunSteps
import Qdrust.Account.Oidc
import Qdrust.Account.Mailed
