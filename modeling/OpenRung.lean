import OpenRung.Theorems.Racing
import OpenRung.Theorems.Access
import OpenRung.Theorems.Punch
import OpenRung.Theorems.SystemProxy
import OpenRung.Theorems.PostgresDirectory
import OpenRung.Theorems.ReplayIndex
import OpenRung.Theorems.Ladder
import OpenRung.Theorems.Registration
import OpenRung.Theorems.StatusMachine
import OpenRung.Theorems.Hub
import OpenRung.Theorems.Credentials
import OpenRung.Theorems.Requests
import OpenRung.Theorems.Enrollment
import OpenRung.Theorems.SourceClass
import OpenRung.Theorems.Hello
import OpenRung.Theorems.FakeIP
import OpenRung.Theorems.RollupBackfill
import OpenRung.Theorems.DirectoryCache
import OpenRung.Theorems.PunchBreaker
import OpenRung.Theorems.RelayScore
import OpenRung.Theorems.RelayPage
import OpenRung.Theorems.Ranker
import OpenRung.Theorems.Eviction
import OpenRung.Theorems.PostgresMetrics
import OpenRung.Theorems.RateLimit
import OpenRung.Theorems.LeaseRenewal
import OpenRung.Theorems.Ticket
import OpenRung.Theorems.ClientSeen
import OpenRung.Theorems.Probe
import OpenRung.Theorems.AccessToken
import OpenRung.Theorems.IdleGuard
import OpenRung.Theorems.TelemetryBudget
import OpenRung.Theorems.Ports
import OpenRung.Theorems.Family
import OpenRung.Theorems.Front
import OpenRung.Theorems.AppRollup
import OpenRung.Theorems.UserAuth
import OpenRung.Theorems.Attempt
import OpenRung.Theorems.Bridge
import OpenRung.Theorems.UserAccess
