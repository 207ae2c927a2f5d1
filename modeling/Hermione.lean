import Hermione.AListRetain
import Hermione.EventRuns
import Hermione.Student
import Hermione.Highlight
import Hermione.LineMarking
import Hermione.EditScripts
import Hermione.Intraline
import Hermione.Report
import Hermione.IntralineRanges
import Hermione.Diff
import Hermione.DiffRows
import Hermione.FaithfulDiff
import Hermione.Compare
import Hermione.ComparisonPatch
import Hermione.Snapshot
import Hermione.SnapshotStore
import Hermione.StoreRefinement
import Hermione.StoreHistory
import Hermione.StoreNumbers
import Hermione.StoreAccount
import Hermione.CaretBasis
import Hermione.BasisAcrossRestarts
import Hermione.Broadcast
import Hermione.Hub
import Hermione.Text
import Hermione.SessionIngest
import Hermione.SessionEndings
import Hermione.Paging
import Hermione.SessionWatch
import Hermione.Recording
import Hermione.WatchOnce
import Hermione.WatchFrames
import Hermione.Gates
import Hermione.Messages
import Hermione.MessageWorld
import Hermione.MessageRouting
import Hermione.MessageNumbers
import Hermione.MessageSocket
import Hermione.MessageDelivery
import Hermione.MessagesOnce
import Hermione.SlotAgreement
import Hermione.Lessons
import Hermione.Solutions
import Hermione.SingleFlight
import Hermione.EventQueue
import Hermione.Reporter
import Hermione.StopsClean
import Hermione.Tallies
import Hermione.TimeOnTask
import Hermione.Assessment
import Hermione.Overview
import Hermione.RecapBuild
import Hermione.TimeAgreement
import Hermione.JudgedAlike
import Hermione.Slugs
import Hermione.Utf16
import Hermione.CourseFile
import Hermione.ExerciseNames
import Hermione.OpenFile
import Hermione.SnapshotKeys
import Hermione.JsonStrings
import Hermione.JsonText
import Hermione.ReportText
import Hermione.AcceptedReports
import Hermione.RepoPath
import Hermione.GitHubRepo
import Hermione.SolutionUrls
import Hermione.PercentEncoding
import Hermione.SolutionAnswers
import Hermione.FairLock
import Hermione.TokenCache
import Hermione.TokenMinting
import Hermione.Programs
import Hermione.GitHubReads
import Hermione.GitHubCredentials
import Hermione.HubTasks
import Hermione.HubDelivery
import Hermione.RecordingPrefix
import Hermione.SessionTasks
import Hermione.SessionHubLive
import Hermione.SessionAccess
import Hermione.LossyText
import Hermione.PasswordPrompts
import Hermione.StudentIds
import Hermione.ShareableFiles
import Hermione.RowLocks
import Hermione.Membership
import Hermione.CourseMembers
import Hermione.Exercises
import Hermione.Replacements
import Hermione.NewCourse
import Hermione.BaselineLoads
import Hermione.EditorSettings
import Hermione.MessageLink
import Hermione.OneSocket
import Hermione.ReloadsConverge
import Hermione.StableSorts
import Hermione.LessonRecap
import Hermione.RecapOrders
import Hermione.RecapRanks
import Hermione.RecapSettled
import Hermione.SplitRuns
import Hermione.LessonSpans
import Hermione.LessonTimeline
import Hermione.Interpolation
import Hermione.StruggleFences
import Hermione.StruggleLevels
import Hermione.RecapCounts
import Hermione.RowNumbers
import Hermione.SolutionComparison
import Hermione.ShownLines
import Hermione.JoinedRuns
import Hermione.TokenPieces
import Hermione.MarkedRuns
import Hermione.UnmarkedText
import Hermione.MarkedEnds
import Hermione.Attention
import Hermione.AttentionRuns
import Hermione.Utf8Chunks
import Hermione.AssistantTurns
import Hermione.Transcripts
import Hermione.RefUrls
import Hermione.SlugTitles
import Hermione.StoredSettings
import Hermione.DefinedExercises
import Hermione.AssistantHistory
import Hermione.SseReader
import Hermione.SseChunks
import Hermione.SseGrammar
import Hermione.LanguageProducts
import Hermione.ExerciseGlobs
import Hermione.BoardTallies
import Hermione.OptionTraversal
import Hermione.LineBytes
import Hermione.HighlightedLines
import Hermione.Rings
import Hermione.FlaggedRing
import Hermione.Recency
import Hermione.BaselineRequests
import Hermione.CommonSubsequences
import Hermione.SinceScript
import Hermione.LeastChanges
import Hermione.ContextWindows
import Hermione.SinceHunks
import Hermione.SincePatch
import Hermione.RememberedLooks
import Hermione.StandingLooks
import Hermione.FolderRules
