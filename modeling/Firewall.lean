import Firewall.Value.Text
import Firewall.Value.Access
import Firewall.Value.Merge
import Firewall.Json.Reader
import Firewall.Json.Writer
import Firewall.Address.Network
import Firewall.Rule.Template
import Firewall.Rule.Expand
import Firewall.Rule.Line
import Firewall.Config.Basic
import Firewall.Rule.Chains
import Firewall.Zone.Chains
import Firewall.Restore.Script
import Firewall.Ipset.Script
import Firewall.Config.Defaults
import Firewall.Text.Lines
import Firewall.Diff.Matching
import Firewall.Diff.Unified
import Firewall.Ruleset.Basic
import Firewall.Ruleset.Compare
import Firewall.Ipset.Swap
import Firewall.Host.Files
import Firewall.Host.Kernel
import Firewall.Host.World
import Firewall.Text.Integer
import Firewall.Archive
import Firewall.Text.Shell
import Firewall.Deploy
import Firewall.Decimal.Read
import Firewall.Yaml.Load
import Firewall.Cli.Grammar
import Firewall.Cli.Help
import Firewall.Cli.Parse
import Firewall.Cli.Commands
import Firewall.Host.ConfigDir
import Firewall.Cli.Run
import Firewall.Main
import Firewall.Proofs.Text.Words
import Firewall.Proofs.Text.Order
import Firewall.Proofs.Text.Numeral
import Firewall.Proofs.Text.Path
import Firewall.Proofs.Host.Files
import Firewall.Proofs.Ipset.Kernel
import Firewall.Proofs.Ipset.Staging
import Firewall.Proofs.Ipset.Swap
import Firewall.Proofs.Host.World
import Firewall.Proofs.Deploy.Apply
import Firewall.Proofs.Deploy.Rollback
import Firewall.Proofs.Zone.Basic
import Firewall.Proofs.Zone.Dispatch
import Firewall.Proofs.Rule.Order
import Firewall.Proofs.Zone.Keys
import Firewall.Proofs.Zone.Order
import Firewall.Proofs.Zone.Default
import Firewall.Proofs.Restore.Rules
import Firewall.Proofs.Restore.Chains
import Firewall.Proofs.Diff.Blocks
import Firewall.Proofs.Diff.Unified
import Firewall.Proofs.Ruleset.Compare
import Firewall.Proofs.Ruleset.Entries
import Firewall.Proofs.Archive.Listing
import Firewall.Proofs.Archive.Retention
import Firewall.Proofs.Rule.Objects
import Firewall.Proofs.Rule.Zones
import Firewall.Proofs.Rule.Scan
import Firewall.Proofs.Rule.Termination
import Firewall.Proofs.Rule.Family
import Firewall.Proofs.Ipset.Listing
import Firewall.Proofs.Value.Tree
import Firewall.Proofs.Value.Layering
import Firewall.Proofs.Store.Holds
import Firewall.Proofs.Store.Merge
import Firewall.Proofs.Json.Trees
import Firewall.Proofs.Config.Layers
