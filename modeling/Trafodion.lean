import Trafodion.Agreement
import Trafodion.BigNumDivision
import Trafodion.CommitRetry
import Trafodion.CrashRecovery
import Trafodion.DelimitedIdentifiers
import Trafodion.DtmDecision
import Trafodion.DtmRecovery
import Trafodion.DtmReplies
import Trafodion.HashAggregate
import Trafodion.HashDistinct
import Trafodion.HashNotIn
import Trafodion.HeapSort
import Trafodion.HistoryTrimming
import Trafodion.Int64ToAscii
import Trafodion.InterRuns
import Trafodion.KeyEncoding
import Trafodion.LikePattern
import Trafodion.MdamNetwork
import Trafodion.MergeJoinAnswer
import Trafodion.MergePlan
import Trafodion.NestedJoinResult
import Trafodion.Participants
import Trafodion.PhaseTwoReplies
import Trafodion.RegionAddressing
import Trafodion.RescueThreads
import Trafodion.ScratchReads
import Trafodion.SequenceCycles
import Trafodion.SortQuota
import Trafodion.SortReceive
import Trafodion.TlogAgeing
import Trafodion.Validation
import Trafodion.ViewPrivileges
import Trafodion.VoteAggregation
import Trafodion.WriteExclusion
import Trafodion.XaSubordinate
import Trafodion.Datetimes
import Trafodion.MdamRefLists
import Trafodion.XidMap
import Trafodion.DoomRace
import Trafodion.ExQueue
import Trafodion.VarInt
