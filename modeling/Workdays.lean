import Workdays.Main
import Workdays.Time.WallClock
import Workdays.Proofs.Selector.Year
import Workdays.Proofs.Selector.Grammar
import Workdays.Proofs.Selector.Single
import Workdays.Proofs.Rule.Reading
import Workdays.Proofs.Rule.RoundTrip
import Workdays.Proofs.Rule.Guard
import Workdays.Proofs.Rule.Surroundings
import Workdays.Proofs.Rule.Reasons
import Workdays.Proofs.Calendar.Reading
import Workdays.Proofs.Calendar.Join
import Workdays.Proofs.Calendar.RoundTrip
import Workdays.Proofs.Calendar.Span
import Workdays.Proofs.Calendar.Logging
import Workdays.Proofs.Rule.Distinct
import Workdays.Proofs.Calendar.Override
import Workdays.Proofs.Time.Canonical
import Workdays.Proofs.Schedule.Search
import Workdays.Proofs.Json.Printer
import Workdays.Proofs.Date.Text
import Workdays.Proofs.Schedule.Export
import Workdays.Proofs.Command
import Workdays.Proofs.Schedule.WorkingTime
import Workdays.Proofs.Selector.Soundness
