import H2agent.StepRunProofs
import H2agent.CppTextProofs
import H2agent.KeyProofs
import H2agent.MockStoreProofs
import H2agent.InterleavingProofs
import H2agent.InterleavedLoadsProofs
import H2agent.InterleavedRemovalsProofs
import H2agent.TriggeringProofs
import H2agent.JsonValueProofs
import H2agent.JsonTreeProofs
import H2agent.JsonPointerProofs
import H2agent.JsonAssignProofs
import H2agent.TypeConverterProofs
import H2agent.HexStringProofs
import H2agent.FallbackListProofs
import H2agent.TransformationProofs
import H2agent.MultipartProofs
import H2agent.DataPartProofs
import H2agent.RegexProofs
import H2agent.TransformationLoadProofs
import H2agent.TransformationGrammarProofs
import H2agent.TargetGrammarProofs
import H2agent.SchemaAgreementProofs
import H2agent.TextReplaceProofs
import H2agent.SubstitutionProofs
import H2agent.FilterProofs
import H2agent.NumberFilterProofs
import H2agent.DateFilterProofs
import H2agent.RandomSourceProofs
import H2agent.BaseConvertProofs
import H2agent.SplitProofs
import H2agent.ServerProvisionProofs
import H2agent.BreakProofs
import H2agent.InlinedFallbackProofs
import H2agent.TrafficServerProofs
import H2agent.QueryParametersProofs
import H2agent.ProvisionStoreProofs
import H2agent.SkippedItemProofs
import H2agent.BodySourceProofs
import H2agent.LookupKeyProofs
import H2agent.OwnProvisionProofs
import H2agent.KeyIsolationProofs
import H2agent.ClientEndpointProofs
import H2agent.SchemaCacheProofs
import H2agent.KeyedListProofs
import H2agent.MatchingSwitchProofs
import H2agent.VaultWaitProofs
import H2agent.WaitAdmissionProofs
import H2agent.SafeFileProofs
import H2agent.SafeFileWritesProofs
import H2agent.FileRoundTripProofs
import H2agent.EventStreamProofs
import H2agent.PendingEventsProofs
import H2agent.ClientFlowProofs
import H2agent.ChainEndpointProofs
import H2agent.ClientStoreProofs
import H2agent.SendSequenceProofs
import H2agent.ChainPurgeProofs
import H2agent.SequenceFidelityProofs
import H2agent.ReservedVariableProofs
import H2agent.VerdictProofs
import H2agent.JsonConstraintProofs
import H2agent.ConstraintOrderProofs
import H2agent.EventNeedProofs
import H2agent.ForeignStateProofs
import H2agent.UnprovisionedProofs
import H2agent.EventQueryProofs
import H2agent.EventSequenceProofs
import H2agent.StoreSummaryProofs
import H2agent.VaultPathProofs
import H2agent.VaultKeyProofs
import H2agent.NodeEraserProofs
import H2agent.BaseConvertProofs
import H2agent.HexRoundTripProofs
import H2agent.AggregatedKeyProofs
import H2agent.QueryParsingProofs
import H2agent.ConverterGetterProofs
import H2agent.SearchReplaceProofs
import H2agent.SignedNumberProofs
import H2agent.AtomicMaxProofs
import H2agent.DispatchPoolProofs
import H2agent.EventDeliveryProofs
import H2agent.EndpointConnectionProofs
import H2agent.DocumentLoadProofs
import H2agent.MapListingProofs
import H2agent.ProvisionDocumentProofs
import H2agent.ClientDocumentProofs
import H2agent.AdminServerProofs
import H2agent.LinearizationProofs
import H2agent.ProvisionSharingProofs
import H2agent.ClientSharingProofs
import H2agent.SocketProofs
import H2agent.UdpRequestProofs
import H2agent.UdpTriggerProofs
import H2agent.UdpClientProofs
