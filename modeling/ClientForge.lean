import ClientForge.Main
import ClientForge.Schema.TreeStep
import ClientForge.Proofs.Schema.Lineage
import ClientForge.Proofs.Schema.Reach
import ClientForge.Proofs.Client.Outcome
import ClientForge.Proofs.Client.ClassTree
import ClientForge.Proofs.Client.UrlMeaning
import ClientForge.Proofs.Schema.Acceptance
import ClientForge.Proofs.Naming.Words
import ClientForge.Proofs.Naming.Splitting
import ClientForge.Proofs.Naming.Identifier
import ClientForge.Proofs.Client.Collision
import ClientForge.Proofs.Client.Agreement
import ClientForge.Proofs.Check.Brackets
import ClientForge.Proofs.Text.Digit
import ClientForge.Proofs.Source.Fragment
import ClientForge.Proofs.Source.Script
import ClientForge.Proofs.Url.Slot
import ClientForge.Proofs.Schema.Names
import ClientForge.Proofs.Pipeline
import ClientForge.Proofs.Client.Linkage
import ClientForge.Proofs.Schema.BaseDefault
import ClientForge.Proofs.Client.RootDefault
import ClientForge.Proofs.Client.Routing
import ClientForge.Proofs.Document.Json
import ClientForge.Proofs.Source.Template
import ClientForge.Proofs.Document.Order
import ClientForge.Proofs.Schema.Reordering
import ClientForge.Proofs.Client.Failure
import ClientForge.Proofs.Text.Split
import ClientForge.Proofs.Expression.Grammar
import ClientForge.Proofs.Expression.Printing
import ClientForge.Proofs.ContextTree.Arena
import ClientForge.Proofs.Files.Delivery
import ClientForge.Schema.Binder
import ClientForge.Proofs.ContextTree.Mirror
import ClientForge.Proofs.Schema.Contexts
import ClientForge.Proofs.Schema.FailurePath
import ClientForge.Proofs.Schema.Truncation
import ClientForge.Proofs.Files.Route
import ClientForge.Proofs.Naming.Spelling
import ClientForge.Proofs.Client.Shadowing
import ClientForge.Proofs.Source.Decorator
import ClientForge.Proofs.Schema.NameGrammar
import ClientForge.Proofs.Expression.Position
import ClientForge.Proofs.Source.Comment
import ClientForge.Proofs.Schema.ParameterNames
import ClientForge.Proofs.Decimal.Rounding
import ClientForge.Proofs.Decimal.NumberText
import ClientForge.Proofs.TypeSpec.Grammar
import ClientForge.Proofs.ContextTree.Hops
import ClientForge.Proofs.Url.Canonical
import ClientForge.Proofs.Source.Signature
import ClientForge.Proofs.Source.PythonLayout
import ClientForge.Proofs.Check.Items
import ClientForge.Proofs.Check.Nesting
import ClientForge.Proofs.Naming.Camel
import ClientForge.Proofs.Naming.Clash
import ClientForge.Proofs.Client.Renaming
import ClientForge.Proofs.Config
