import Drac.File.Tree
import Drac.Log.Sink
import Drac.Main
import Drac.Proofs.Ebnf
import Drac.Proofs.Phrases
import Drac.Proofs.Lookahead
import Drac.Proofs.Unfolding
import Drac.Proofs.Settle
import Drac.Proofs.Stream
import Drac.Proofs.Recognition
import Drac.Proofs.ViablePrefix
import Drac.Proofs.Runs
import Drac.Proofs.Brackets
import Drac.Proofs.NestingLimit
import Drac.Proofs.Expectation
import Drac.Proofs.Appending
import Drac.Proofs.OnDemand
import Drac.Proofs.Restart
import Drac.Proofs.Matching
import Drac.Proofs.Scanning
import Drac.Proofs.Requests
import Drac.Proofs.Positions
import Drac.Proofs.Locality
import Drac.Proofs.TokensOfText
import Drac.Proofs.Counters
import Drac.Proofs.Accounting
import Drac.Proofs.SinglePass
import Drac.Proofs.EventTrace
import Drac.Proofs.Noninterference
import Drac.Proofs.Respacing
import Drac.Proofs.Concatenation
import Drac.Proofs.Retention
import Drac.Proofs.Delivery
import Drac.Proofs.EndOfInput
import Drac.Proofs.Reading
import Drac.Proofs.NestingReport
import Drac.Proofs.LongestMatch
import Drac.Proofs.Delimiters
import Drac.Proofs.Relexing
import Drac.Proofs.Descent
import Drac.Proofs.FlatScan
import Drac.Proofs.FileScopes
import Drac.Proofs.IllegalReports
import Drac.Proofs.TextMeasures
import Drac.Proofs.FileTrees
import Drac.Proofs.Admission
import Drac.Proofs.LineCounts
import Drac.Proofs.CategorySets
import Drac.Proofs.TokenRecords
import Drac.Proofs.Progress
import Drac.Proofs.Numerals
import Drac.Proofs.TokenLines
import Drac.Proofs.Declarations
