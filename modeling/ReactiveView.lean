import ReactiveView.Cli.Args
import ReactiveView.Cli.Command
import ReactiveView.Cli.Files
import ReactiveView.Cli.Log
import ReactiveView.Cli.Report
import ReactiveView.Cli.Run
import ReactiveView.Cli.Similar
import ReactiveView.Cli.Wrap
import ReactiveView.Double.Basic
import ReactiveView.Double.Read
import ReactiveView.Double.Round
import ReactiveView.Double.Shortest
import ReactiveView.Double.Text
import ReactiveView.Failure
import ReactiveView.Json.Basic
import ReactiveView.Json.Read
import ReactiveView.Json.Write
import ReactiveView.Main
import ReactiveView.Markup.Entity
import ReactiveView.Markup.Lexeme
import ReactiveView.Markup.Node
import ReactiveView.Markup.Parse
import ReactiveView.Markup.Render
import ReactiveView.Markup.Selector
import ReactiveView.Project.Config
import ReactiveView.Project.Data
import ReactiveView.Render.Compile
import ReactiveView.Render.Mount
import ReactiveView.Render.Options
import ReactiveView.Render.View
import ReactiveView.Store.Basic
import ReactiveView.Store.Convert
import ReactiveView.Store.Items
import ReactiveView.Store.Monad
import ReactiveView.Store.Object
import ReactiveView.Store.Observe
import ReactiveView.Store.Show
import ReactiveView.Template.Segment
import ReactiveView.Text.Blank
import ReactiveView.Text.Quoted
import ReactiveView.Toml.Basic
import ReactiveView.Toml.Read
import ReactiveView.Toml.Scalar
import ReactiveView.Yaml.Load
import ReactiveView.Yaml.Parse
import ReactiveView.Yaml.Scan
import ReactiveView.Yaml.Token
import ReactiveView.Proofs.Store.Cells
import ReactiveView.Proofs.Store.Run
import ReactiveView.Proofs.Store.Walk
import ReactiveView.Proofs.Store.Mutation
import ReactiveView.Proofs.Store.Accounting
import ReactiveView.Proofs.Store.Closure
import ReactiveView.Proofs.Store.Soundness
import ReactiveView.Proofs.Store.Paths
import ReactiveView.Proofs.Render.Scope
import ReactiveView.Proofs.Template.Placeholders
import ReactiveView.Proofs.Markup.Tree
import ReactiveView.Proofs.Render.Mounting
import ReactiveView.Proofs.Store.Delivery
import ReactiveView.Proofs.Markup.Escapes
import ReactiveView.Proofs.Markup.Scanning
import ReactiveView.Proofs.Markup.Reading
import ReactiveView.Proofs.Markup.Parsed
import ReactiveView.Proofs.Markup.RoundTrip
import ReactiveView.Proofs.Render.Placing
import ReactiveView.Proofs.Double.Sign
import ReactiveView.Proofs.Store.Native
import ReactiveView.Proofs.Store.Forwarding
import ReactiveView.Proofs.Render.Mirror
import ReactiveView.Proofs.Store.Order
import ReactiveView.Proofs.Template.Cuts
import ReactiveView.Proofs.Markup.Query
import ReactiveView.Proofs.Double.Exact
import ReactiveView.Proofs.Store.JsonRoundTrip
import ReactiveView.Proofs.Markup.Nesting
import ReactiveView.Proofs.Markup.Locality
import ReactiveView.Proofs.Render.Shape
import ReactiveView.Proofs.Store.Traversal
import ReactiveView.Proofs.Store.Acyclic
import ReactiveView.Proofs.Markup.Places
import ReactiveView.Proofs.Markup.Compound
import ReactiveView.Proofs.Markup.Decoding
import ReactiveView.Proofs.Store.Readback
import ReactiveView.Proofs.Cli.Assignment
