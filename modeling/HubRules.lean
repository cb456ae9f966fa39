import HubRules.Main
import HubRules.Proofs.Api.PredictionPaths
import HubRules.Proofs.Catalog.Allowed
import HubRules.Proofs.Catalog.Carried
import HubRules.Proofs.Catalog.Kept
import HubRules.Proofs.Command.Overrides
import HubRules.Proofs.Command.Parts
import HubRules.Proofs.Helper.PathResult
import HubRules.Proofs.Helper.ReferencePath
import HubRules.Proofs.Helper.UrlKeys
import HubRules.Proofs.Helper.UrlResult
import HubRules.Proofs.LookupMap.Agreement
import HubRules.Proofs.LookupMap.Reading
import HubRules.Proofs.LookupMap.Writing
import HubRules.Proofs.Pattern.NamedGroups
import HubRules.Proofs.Placeholder.Pieces
import HubRules.Proofs.Placeholder.Resolved
import HubRules.Proofs.Placeholder.Snapshot
import HubRules.Proofs.Reference.Settled
import HubRules.Proofs.RenderContext.Requirements
import HubRules.Proofs.Resolution.ArtifactServer
import HubRules.Proofs.Resolution.Fixpoint
import HubRules.Proofs.Resolution.Organization
import HubRules.Proofs.Resolution.TestAddress
import HubRules.Proofs.Routing.ArtifactPath
import HubRules.Proofs.Routing.ArtifactRoute
import HubRules.Proofs.Routing.ArtifactRule
import HubRules.Proofs.Routing.Groups
import HubRules.Proofs.Routing.JobPath
import HubRules.Proofs.Routing.ProxyRule
import HubRules.Proofs.Routing.RuleFlags
import HubRules.Proofs.Template.HelperSections
import HubRules.Proofs.Text.Entities
