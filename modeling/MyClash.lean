import MyClash.Library.StableSort
import MyClash.Library.Pairing
import MyClash.Swiss.MatchingLaw
import MyClash.Library.Buckets
import MyClash.Swiss.Engine
import MyClash.Library.Run
import MyClash.MatchStatus
import MyClash.Swiss.Phase
import MyClash.Swiss.PhaseRun
import MyClash.Swiss.Rematch
import MyClash.Swiss.Withdrawal
import MyClash.Swiss.DrawOrder
import MyClash.Swiss.Records
import MyClash.Swiss.HeadToHead
import MyClash.Swiss.RankingChain
import MyClash.Swiss.SwapLaw
import MyClash.League.ScoringLaw
import MyClash.Bracket.DoubleElim
import MyClash.Bracket.DoubleElimLaw
import MyClash.Bracket.SingleElimLaw
import MyClash.FinalRanking.Double
import MyClash.FinalRanking.StoredWinner
import MyClash.Clock
import MyClash.MatchFormat.RoundEnd
import MyClash.Standings.Readers
import MyClash.Rules.ForfeitDiff
import MyClash.Rules.ScoringDiff
import MyClash.Rules.Lineage
import MyClash.Rules.StableText
import MyClash.Rules.OrderFree
import MyClash.Formula.RenderLaw
import MyClash.Exports.Csv
import MyClash.Bracket.R1Seeding
import MyClash.Bracket.SeedSeparation
import MyClash.Schedule.SchedulerLaw
import MyClash.Schedule.Berger
import MyClash.Schedule.LocalSearch
import MyClash.Referees.AssignerLaw
import MyClash.Referees.CapacityLaw
import MyClash.Programme.BlockMovePlanLaw
import MyClash.Schedule.RoundCodeLaw
import MyClash.Pad.PadClockLaw
import MyClash.Pad.PadScore
import MyClash.Pad.SeriesMemoryLaw
import MyClash.Schedule.BranchOrder
import MyClash.Scoring.Series
import MyClash.Scoring.SheetAgreement
import MyClash.Scoring.CorrectionOutcome
import MyClash.Offline.Sequence
import MyClash.Offline.SendOrder
import MyClash.Offline.Delivery
import MyClash.Bracket.AdvanceRun
import MyClash.Fighters.MergeRun
import MyClash.Fighters.StatusCause
import MyClash.Fighters.TakeOutCut
import MyClash.Fighters.FollowRulesChangeLaw
import MyClash.Photos.JpegStripLaw
import MyClash.Photos.PhotoCleanupLaw
import MyClash.Timeline.RoundAdvanceCut
import MyClash.Timeline.PressRaceLaw
import MyClash.Timeline.SavedPressLaw
import MyClash.Penalties.BlackCardReviewLaw
import MyClash.Penalties.RulesetVersionsLaw
import MyClash.Penalties.CardPricingLaw
import MyClash.Zip.StoredZipLaw
import MyClash.Bracket.UncompleteCut
import MyClash.Bracket.Dependents
import MyClash.Penalties.CardPricingLaw
import MyClash.Schedule.ScheduleBlocksLaw
import MyClash.Photos.ModerationQueue
import MyClash.Exports.ArchiveRead
import MyClash.Exports.ArchiveFighterStatus
import MyClash.Exports.ArchiveFighterStatusLaw
import MyClash.Fighters.CareerLaw
import MyClash.Registrations.WaitlistLaw
