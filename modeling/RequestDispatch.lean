import RequestDispatch.App.Build
import RequestDispatch.App.Pipeline
import RequestDispatch.App.Serve
import RequestDispatch.Background
import RequestDispatch.Config.LogFilter
import RequestDispatch.Config.Reader
import RequestDispatch.Config.Settings
import RequestDispatch.Config.Size
import RequestDispatch.Context
import RequestDispatch.Decimal.Double
import RequestDispatch.Decimal.Layout
import RequestDispatch.Decimal.Reader
import RequestDispatch.Decimal.Shortest
import RequestDispatch.Dependency.Cache
import RequestDispatch.Dependency.Declaration
import RequestDispatch.Dependency.Graph
import RequestDispatch.Dependency.Resolver
import RequestDispatch.Error.Dispatch
import RequestDispatch.Error.Mapper
import RequestDispatch.Error.Registration
import RequestDispatch.Handler
import RequestDispatch.Http.Cookie
import RequestDispatch.Http.Headers
import RequestDispatch.Http.Request
import RequestDispatch.Http.Response
import RequestDispatch.Http.Wire
import RequestDispatch.Issue
import RequestDispatch.Journal
import RequestDispatch.Json.Basic
import RequestDispatch.Json.Parser
import RequestDispatch.Json.Printer
import RequestDispatch.Middleware.Chain
import RequestDispatch.Middleware.Standard
import RequestDispatch.Parameter.Binder
import RequestDispatch.Parameter.Check
import RequestDispatch.Parameter.Coercion
import RequestDispatch.Parameter.Declaration
import RequestDispatch.Parameter.Shape
import RequestDispatch.Parameter.Type
import RequestDispatch.Pattern.Basic
import RequestDispatch.Pattern.CharSet
import RequestDispatch.Pattern.Parser
import RequestDispatch.Pattern.Property
import RequestDispatch.Reply
import RequestDispatch.RequestId
import RequestDispatch.Route.Bind
import RequestDispatch.Route.Compile
import RequestDispatch.Route.Declaration
import RequestDispatch.Routine
import RequestDispatch.Routing.Table
import RequestDispatch.Routing.Template
import RequestDispatch.Routing.Tree
import RequestDispatch.Schema.Basic
import RequestDispatch.Schema.Format
import RequestDispatch.Schema.Metaschema
import RequestDispatch.Schema.Reader
import RequestDispatch.Schema.Validation
import RequestDispatch.Schema.Validator
import RequestDispatch.Schema.Violation
import RequestDispatch.Security.ApiKey
import RequestDispatch.Security.Base64
import RequestDispatch.Security.Bearer
import RequestDispatch.Security.Provider
import RequestDispatch.Security.Scopes
import RequestDispatch.Text.Blank
import RequestDispatch.Text.Category
import RequestDispatch.Text.Integer
import RequestDispatch.Text.Percent
import RequestDispatch.Text.Quoted
import RequestDispatch.Text.Split
import RequestDispatch.Text.Utf8
import RequestDispatch.Yaml.Basic
import RequestDispatch.Yaml.Parser
import RequestDispatch.Yaml.Scalar
import RequestDispatch.Proofs.Routing.Search
import RequestDispatch.Proofs.Routing.Contents
import RequestDispatch.Proofs.Routing.Exact
import RequestDispatch.Proofs.Dependency.Arena
import RequestDispatch.Proofs.Dependency.Authorization
import RequestDispatch.Proofs.Dependency.Branches
import RequestDispatch.Proofs.Dependency.Gates
import RequestDispatch.Proofs.Dependency.Deadlock
import RequestDispatch.Proofs.Dependency.Completion
import RequestDispatch.Proofs.Dependency.Declared
import RequestDispatch.Proofs.Dependency.Endings
import RequestDispatch.Proofs.Dependency.Enforcement
import RequestDispatch.Proofs.Dependency.Afresh
import RequestDispatch.Proofs.Dependency.Caching
import RequestDispatch.Proofs.Parameter.Binding
import RequestDispatch.Proofs.Dependency.Routes
import RequestDispatch.Proofs.Dependency.Plans
import RequestDispatch.Proofs.Dependency.Cycles
import RequestDispatch.Proofs.Parameter.Soundness
import RequestDispatch.Proofs.Dependency.Accounting
import RequestDispatch.Proofs.Dependency.Deliveries
import RequestDispatch.Proofs.Dependency.Evaluations
import RequestDispatch.Proofs.Dependency.Oversight
import RequestDispatch.Proofs.Middleware.Nesting
import RequestDispatch.Proofs.Route.PathParameters
import RequestDispatch.Proofs.App.Conduct
import RequestDispatch.Proofs.Dependency.Concurrency
import RequestDispatch.Proofs.App.Confidentiality
import RequestDispatch.Proofs.App.Delivery
import RequestDispatch.Proofs.App.Lifecycle
import RequestDispatch.Proofs.Routing.Registration
import RequestDispatch.Proofs.Route.Aggregation
import RequestDispatch.Proofs.Route.Retrieval
import RequestDispatch.Proofs.Dependency.Provision
import RequestDispatch.Proofs.Parameter.Integers
import RequestDispatch.Proofs.Text.Integer
import RequestDispatch.Proofs.Parameter.IntegerTexts
import RequestDispatch.Proofs.Parameter.Bounds
import RequestDispatch.Proofs.Reply
import RequestDispatch.Proofs.Text.Split
import RequestDispatch.Proofs.Text.Blank
import RequestDispatch.Proofs.Text.Utf8
import RequestDispatch.Proofs.Text.Percent
import RequestDispatch.Proofs.Routing.Grammar
import RequestDispatch.Proofs.Route.Encoding
import RequestDispatch.Proofs.Security.Base64
import RequestDispatch.Proofs.Security.Bearer
import RequestDispatch.Proofs.Http.Cookie
import RequestDispatch.Proofs.Security.Presentation
import RequestDispatch.Proofs.Parameter.Blame
import RequestDispatch.Proofs.Http.Headers
import RequestDispatch.Proofs.Route.Embedding
import RequestDispatch.Proofs.Http.Wire
import RequestDispatch.Proofs.RequestId
import RequestDispatch.Proofs.Middleware.Identification
import RequestDispatch.Proofs.Dependency.Preorder
