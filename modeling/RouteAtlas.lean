import RouteAtlas.Cloud.Push
import RouteAtlas.Collection.Example
import RouteAtlas.Collection.Folder
import RouteAtlas.Collection.Label
import RouteAtlas.Collection.Wording
import RouteAtlas.Convention.Basic
import RouteAtlas.Convention.Controller
import RouteAtlas.Convention.Fluent
import RouteAtlas.Convention.Middleware
import RouteAtlas.Decimal.Double
import RouteAtlas.Decimal.Numeral
import RouteAtlas.Decimal.Shortest
import RouteAtlas.Digest.Sha1
import RouteAtlas.Endpoint.Basic
import RouteAtlas.Endpoint.Framework
import RouteAtlas.Endpoint.Inventory
import RouteAtlas.Endpoint.Printer
import RouteAtlas.Endpoint.Survey
import RouteAtlas.Insomnia.Document
import RouteAtlas.Insomnia.Merge
import RouteAtlas.Insomnia.Resource
import RouteAtlas.Json.Basic
import RouteAtlas.Json.Printer
import RouteAtlas.Json.Reader
import RouteAtlas.Main
import RouteAtlas.Persisted.Fault
import RouteAtlas.Persisted.Header
import RouteAtlas.Persisted.Key
import RouteAtlas.Postman.Document
import RouteAtlas.Postman.Item
import RouteAtlas.Postman.Merge
import RouteAtlas.Project.Command
import RouteAtlas.Project.Discovery
import RouteAtlas.Project.Pattern
import RouteAtlas.Project.Snapshot
import RouteAtlas.Project.Sync
import RouteAtlas.Project.Tree
import RouteAtlas.Proofs.Collection.Conformance
import RouteAtlas.Proofs.Collection.Copies
import RouteAtlas.Proofs.Collection.Document
import RouteAtlas.Proofs.Collection.Key
import RouteAtlas.Proofs.Collection.Leaf
import RouteAtlas.Proofs.Collection.Parameter
import RouteAtlas.Proofs.Collection.Presentation
import RouteAtlas.Proofs.Collection.Reference
import RouteAtlas.Proofs.Collection.Request
import RouteAtlas.Proofs.Collection.Resync
import RouteAtlas.Proofs.Collection.ServiceUrl
import RouteAtlas.Proofs.Collection.Synthesis
import RouteAtlas.Proofs.Convention.Body
import RouteAtlas.Proofs.Convention.ChainLink
import RouteAtlas.Proofs.Convention.ChainOwner
import RouteAtlas.Proofs.Convention.ChainReplay
import RouteAtlas.Proofs.Convention.ChainRun
import RouteAtlas.Proofs.Convention.Decorators
import RouteAtlas.Proofs.Convention.HandlerOrder
import RouteAtlas.Proofs.Convention.Router
import RouteAtlas.Proofs.Decimal.Whole
import RouteAtlas.Proofs.Endpoint.Closure
import RouteAtlas.Proofs.Endpoint.Deduplication
import RouteAtlas.Proofs.Endpoint.Isolation
import RouteAtlas.Proofs.Endpoint.Linked
import RouteAtlas.Proofs.Endpoint.Reading
import RouteAtlas.Proofs.Endpoint.Receiver
import RouteAtlas.Proofs.Endpoint.Redirect
import RouteAtlas.Proofs.Insomnia.Again
import RouteAtlas.Proofs.Insomnia.Ancestry
import RouteAtlas.Proofs.Insomnia.Environment
import RouteAtlas.Proofs.Insomnia.First
import RouteAtlas.Proofs.Insomnia.FolderPath
import RouteAtlas.Proofs.Insomnia.Idempotence
import RouteAtlas.Proofs.Insomnia.Identifier
import RouteAtlas.Proofs.Insomnia.Listing
import RouteAtlas.Proofs.Insomnia.Merged
import RouteAtlas.Proofs.Insomnia.NewName
import RouteAtlas.Proofs.Insomnia.Parent
import RouteAtlas.Proofs.Insomnia.ParentChain
import RouteAtlas.Proofs.Insomnia.Place
import RouteAtlas.Proofs.Insomnia.Placement
import RouteAtlas.Proofs.Insomnia.Rename
import RouteAtlas.Proofs.Insomnia.Resource
import RouteAtlas.Proofs.Insomnia.Resync
import RouteAtlas.Proofs.Insomnia.Run
import RouteAtlas.Proofs.Insomnia.Step
import RouteAtlas.Proofs.Insomnia.TakenOver
import RouteAtlas.Proofs.Insomnia.Variable
import RouteAtlas.Proofs.Insomnia.Written
import RouteAtlas.Proofs.Json.Chunk
import RouteAtlas.Proofs.Json.Dictionary
import RouteAtlas.Proofs.Json.Index
import RouteAtlas.Proofs.Json.LastEntry
import RouteAtlas.Proofs.Json.Sameness
import RouteAtlas.Proofs.Json.Table
import RouteAtlas.Proofs.Persisted.Base
import RouteAtlas.Proofs.Persisted.Header
import RouteAtlas.Proofs.Persisted.HeaderUnion
import RouteAtlas.Proofs.Persisted.LastHeader
import RouteAtlas.Proofs.Persisted.Mark
import RouteAtlas.Proofs.Persisted.Success
import RouteAtlas.Proofs.Persisted.Url
import RouteAtlas.Proofs.Postman.Idempotence
import RouteAtlas.Proofs.Postman.Leftover
import RouteAtlas.Proofs.Postman.Refresh
import RouteAtlas.Proofs.Postman.Request
import RouteAtlas.Proofs.Postman.Resync
import RouteAtlas.Proofs.Postman.Run
import RouteAtlas.Proofs.Postman.ServiceOrder
import RouteAtlas.Proofs.Postman.Step
import RouteAtlas.Proofs.Postman.Survival
import RouteAtlas.Proofs.Postman.Synthesis
import RouteAtlas.Proofs.Postman.Tidy
import RouteAtlas.Proofs.Postman.Tree
import RouteAtlas.Proofs.Project.Brace
import RouteAtlas.Proofs.Project.Documents
import RouteAtlas.Proofs.Project.Exclusion
import RouteAtlas.Proofs.Project.Tree
import RouteAtlas.Proofs.Route.Chain
import RouteAtlas.Proofs.Route.Circle
import RouteAtlas.Proofs.Route.Composition
import RouteAtlas.Proofs.Route.Notation
import RouteAtlas.Proofs.Route.Piece
import RouteAtlas.Proofs.Route.Placeholder
import RouteAtlas.Proofs.Route.Prefix
import RouteAtlas.Proofs.Route.Search
import RouteAtlas.Proofs.Route.Segment
import RouteAtlas.Proofs.Shape.Expansion
import RouteAtlas.Proofs.Shape.History
import RouteAtlas.Proofs.Shape.Level
import RouteAtlas.Proofs.Shape.Meaning
import RouteAtlas.Proofs.Shape.Memory
import RouteAtlas.Proofs.Shape.ObjectLiteral
import RouteAtlas.Proofs.Shape.Position
import RouteAtlas.Proofs.Shape.Recipe
import RouteAtlas.Proofs.Shape.Required
import RouteAtlas.Proofs.Shape.Resolved
import RouteAtlas.Proofs.Shape.Script
import RouteAtlas.Proofs.Shape.Session
import RouteAtlas.Proofs.Shape.UnionMember
import RouteAtlas.Proofs.Source.Location
import RouteAtlas.Proofs.Source.Order
import RouteAtlas.Proofs.Syntax.Attribution
import RouteAtlas.Proofs.Syntax.DocumentOrder
import RouteAtlas.Proofs.Syntax.Walk
import RouteAtlas.Proofs.Text.Distinct
import RouteAtlas.Proofs.Text.Order
import RouteAtlas.Proofs.Text.Scan
import RouteAtlas.Proofs.Text.Split
import RouteAtlas.Route.Chain
import RouteAtlas.Route.Mount
import RouteAtlas.Route.Path
import RouteAtlas.Settings.Basic
import RouteAtlas.Settings.Reader
import RouteAtlas.Settings.Yaml
import RouteAtlas.Shape.Basic
import RouteAtlas.Shape.Builder
import RouteAtlas.Shape.Declared
import RouteAtlas.Shape.Definition
import RouteAtlas.Shape.TypeExpr
import RouteAtlas.Source.Bundle
import RouteAtlas.Source.File
import RouteAtlas.Source.Location
import RouteAtlas.Syntax.Binding
import RouteAtlas.Syntax.Decorator
import RouteAtlas.Syntax.Expression
import RouteAtlas.Syntax.Literal
import RouteAtlas.Syntax.Node
import RouteAtlas.Syntax.Site
import RouteAtlas.Text.Blank
import RouteAtlas.Text.Case
import RouteAtlas.Text.CaseTable
import RouteAtlas.Text.Decode
import RouteAtlas.Text.Quoted
import RouteAtlas.Text.Rule
