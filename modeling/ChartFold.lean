import ChartFold.Forest.Json
import ChartFold.Json.Writer
import ChartFold.Outline
import ChartFold.Rules.Files
import ChartFold.Rules.Standard
import ChartFold.Proofs.Explain.Bound
import ChartFold.Proofs.Explain.Drawn
import ChartFold.Proofs.Explain.Locality
import ChartFold.Proofs.Explain.Provenance
import ChartFold.Proofs.Explain.Rearranged
import ChartFold.Proofs.Explain.Relevant
import ChartFold.Proofs.Explain.Renumbered
import ChartFold.Proofs.Explain.Roots
import ChartFold.Proofs.Explain.Shown
import ChartFold.Proofs.Explain.Undisturbed
import ChartFold.Proofs.Forest.BottomUp
import ChartFold.Proofs.Forest.Names
import ChartFold.Proofs.Forest.Traversal
import ChartFold.Proofs.Panel.Gathered
import ChartFold.Proofs.Explain.Presentation
import ChartFold.Proofs.Explain.Fallback
import ChartFold.Proofs.Json.Text
import ChartFold.Proofs.Rules.Tables
import ChartFold.Proofs.Json.RoundTrip
import ChartFold.Proofs.Panel.Foremost
import ChartFold.Proofs.Forest.Records
import ChartFold.Proofs.Panel.Arrival
import ChartFold.Proofs.Panel.Extension
import ChartFold.Proofs.Encodings.History
import ChartFold.Proofs.Rules.Canonical
import ChartFold.Proofs.Explain.Log
import ChartFold.Proofs.Panel.Overlay
