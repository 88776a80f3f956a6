import Cmsc421.Mutex
import Cmsc421.Layout
import Cmsc421.Linear
import Cmsc421.Mastermind.Winnable
import Cmsc421.Mastermind.Mapped
import Cmsc421.Mastermind.Lifecycle
import Cmsc421.Mastermind.Releases
import Cmsc421.Mastermind.Atomic
import Cmsc421.Mastermind.Provenance
import Cmsc421.Mastermind.Solo
import Cmsc421.Mastermind.SoloDriver
import Cmsc421.Mastermind.Versions
import Cmsc421.Mastermind.Grammar
import Cmsc421.Mastermind.ReadBack
import Cmsc421.Mastermind.Admission
import Cmsc421.Mastermind.Pieces
import Cmsc421.Mastermind.Stats
import Cmsc421.Net.Lifetime
import Cmsc421.Net.Unload
import Cmsc421.Net.Client
import Cmsc421.Alloc.Lock
import Cmsc421.Alloc.Resize
import Cmsc421.Alloc.Refusal
import Cmsc421.Alloc.Threads
import Cmsc421.Alloc.Contents
import Cmsc421.Alloc.Validity
import Cmsc421.Alloc.Stats
import Cmsc421.Alloc.Callers
import Cmsc421.Quiz.MidtermScores
import Cmsc421.Quiz.FinalScores
import Cmsc421.Reach
import Cmsc421.Quiz.MidtermTranscript
import Cmsc421.Quiz.FinalTranscript
import Cmsc421.Quiz.MidtermEnd
import Cmsc421.Quiz.FinalEnd
import Cmsc421.Quiz.Points
import Cmsc421.Guarded
import Cmsc421.Trick.Candy
import Cmsc421.Trick.Exclusion
import Cmsc421.Trick.Ending
import Cmsc421.Trick.Report
import Cmsc421.Trick.ReportSums
import Cmsc421.Trick.Locks
import Cmsc421.Trick.Bounds
import Cmsc421.Trick.Travel
import Cmsc421.Devices.Listing
