import Vizra.Audit.Proofs.IpPrefixProofs
import Vizra.Authz.Proofs.HideExistenceProofs
import Vizra.Authz.Proofs.MatrixProofs
import Vizra.Authz.Proofs.MonotoneProofs
import Vizra.Cache.Proofs.MemoryProofs
import Vizra.CiGuard.Proofs.MakeLineProofs
import Vizra.CiGuard.Proofs.RequiredProofs
import Vizra.CiGuard.Proofs.ShadowProofs
import Vizra.Config.Proofs.CorsProofs
import Vizra.Config.Proofs.DurationProofs
import Vizra.Credential.Proofs.DecodeProofs
import Vizra.Fixtures.Proofs.HostileProofs
import Vizra.Fixtures.Proofs.ManifestProofs
import Vizra.Fixtures.Proofs.RasterProofs
import Vizra.Fixtures.Proofs.Vp8lProofs
import Vizra.HttpApi.Proofs.ClaimBodyProofs
import Vizra.HttpApi.Proofs.FreshnessProofs
import Vizra.HttpApi.Proofs.OriginCheckProofs
import Vizra.HttpApi.Proofs.ReadinessProofs
import Vizra.HttpApi.Proofs.SchemaProofs
import Vizra.HttpApi.Proofs.SetupLimitsProofs
import Vizra.Jobs.Proofs.FencingProofs
import Vizra.Jobs.Proofs.HealthProofs
import Vizra.Jobs.Proofs.KeyedEnqueueProofs
import Vizra.Jobs.Proofs.OutcomeProofs
import Vizra.Jobs.Proofs.PayloadProofs
import Vizra.Jobs.Proofs.TruncateProofs
import Vizra.Lanes.Proofs.ImageScanProofs
import Vizra.Lanes.Proofs.TestReportProofs
import Vizra.Makefile.Proofs.DatabaseProofs
import Vizra.Makefile.Proofs.DbRecipesProofs
import Vizra.Makefile.Proofs.DollarProofs
import Vizra.Makefile.Proofs.GateProofs
import Vizra.Makefile.Proofs.MakeflagsProofs
import Vizra.Makefile.Proofs.NoninterferenceProofs
import Vizra.Makefile.Proofs.PinProofs
import Vizra.Migrate.Proofs.EmbeddedProofs
import Vizra.Migrate.Proofs.LintProofs
import Vizra.Obs.Proofs.IdempotentProofs
import Vizra.Obs.Proofs.LogProofs
import Vizra.OwnerClaim.Proofs.MintProofs
import Vizra.OwnerClaim.Proofs.RaceProofs
import Vizra.OwnerClaim.Proofs.TokenProofs
import Vizra.Search.Proofs.HmacProofs
import Vizra.Search.Proofs.ServiceProofs
