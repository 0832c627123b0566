import Avionics.CommandLine.Tool
import Avionics.Configuration
import Avionics.Exchange.Platform
import Avionics.Inversion
import Avionics.Main
import Avionics.Markup.Layout
import Avionics.Markup.Printer
import Avionics.Markup.Reader
import Avionics.Network.Registry
import Avionics.Resolution
import Avionics.Proofs.Keyed.Lookup
import Avionics.Proofs.Markup.Reference
import Avionics.Proofs.Markup.Tag
import Avionics.Proofs.Markup.RoundTrip
import Avionics.Proofs.Markup.Trimming
import Avionics.Proofs.Markup.Tree
import Avionics.Proofs.Markup.Indentation
import Avionics.Proofs.Markup.Layout
import Avionics.Proofs.Markup.Blanks
import Avionics.Proofs.Markup.Truncation
import Avionics.Proofs.Keyed.Merge
import Avionics.Proofs.Joining
import Avionics.Proofs.Keyed.Gather
import Avionics.Proofs.Exchange.Outcome
import Avionics.Proofs.Exchange.Record
import Avionics.Proofs.Exchange.Address
import Avionics.Proofs.Exchange.Folding
import Avionics.Proofs.Exchange.Meaning
import Avionics.Proofs.Exchange.RecordWriting
import Avionics.Proofs.Exchange.Writing
import Avionics.Proofs.Exchange.Staging
import Avionics.Proofs.Exchange.RoundTrip
import Avionics.Proofs.Markup.Attribute
import Avionics.Proofs.Network.Run
import Avionics.Proofs.Keyed.Agreement
import Avionics.Proofs.Network.Channel
import Avionics.Proofs.Network.Registry
import Avionics.Proofs.Network.Step
import Avionics.Proofs.Network.Accounting
import Avionics.Proofs.Network.Consistency
import Avionics.Proofs.Network.Order
import Avionics.Proofs.Network.Codec
import Avionics.Proofs.Network.Elements
import Avionics.Proofs.Network.Registration
import Avionics.Proofs.Network.Redeclaration
import Avionics.Proofs.Network.Budget
import Avionics.Proofs.Network.Rereading
import Avionics.Proofs.Network.Reading
import Avionics.Proofs.Network.Intake
import Avionics.Proofs.Network.Conservation
import Avionics.Proofs.Network.Rendering
import Avionics.Proofs.Mirrors
import Avionics.Proofs.Keyed.Mapping
import Avionics.Proofs.Markup.Retagging
import Avionics.Proofs.Exchange.Inversion
import Avionics.Proofs.Exchange.Counterpart
import Avionics.Proofs.Exchange.Order
import Avionics.Proofs.Network.Stamping
import Avionics.Proofs.Storage.Volume
import Avionics.Proofs.Resolution.Procedure
import Avionics.Proofs.Resolution.Progress
import Avionics.Proofs.Resolution.Output
import Avionics.Proofs.Resolution.Copies
import Avionics.Proofs.Exchange.Conflicts
import Avionics.Proofs.Exchange.Remerging
import Avionics.Proofs.Network.Grammar
import Avionics.Proofs.Network.Admission
import Avionics.Proofs.Exchange.Grammar
import Avionics.Proofs.Exchange.Essentials
import Avionics.Proofs.Network.Inversion
import Avionics.Proofs.Network.Counterpart
import Avionics.Proofs.Storage.Path
import Avionics.Proofs.Exchange.Canonical
import Avionics.Proofs.Muting
import Avionics.Proofs.Exchange.Muting
import Avionics.Proofs.Json.Scalar
import Avionics.Proofs.Json.Escape
import Avionics.Proofs.Json.Lexing
import Avionics.Proofs.Json.Parsing
import Avionics.Proofs.Json.Reports
import Avionics.Proofs.Keyed.Offering
