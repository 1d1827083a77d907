import Nexara.Proxmox.CrsKeys
import Nexara.Proxmox.ClientCache
import Nexara.Rolling.HaRuns
import Nexara.Rolling.Held
import Nexara.Rolling.Finished
import Nexara.Rolling.Stamps
import Nexara.Rolling.DeadJob
import Nexara.Rolling.Confirm
import Nexara.Rolling.Balancers
import Nexara.Drs.Collapsed
import Nexara.Inventory.Search
import Nexara.Jobs.OneActive
import Nexara.Sessions.SignOut
import Nexara.Lockout.Agree
import Nexara.Lockout.Ceiling
import Nexara.Lockout.HandBack
import Nexara.Observer.Paced
import Nexara.Observer.Lossless
import Nexara.Alerts.Notices
import Nexara.Alerts.UpsVerdict
import Nexara.Alerts.RateLimit
import Nexara.Alerts.CounterRates
import Nexara.Rbac.Revoked
import Nexara.Schedule.Slots
import Nexara.Migration.Watch
import Nexara.Migration.OneExecution
import Nexara.Ws.Limits
import Nexara.Collector.Watermark
import Nexara.Collector.Prune
import Nexara.Apischema.Requests
import Nexara.GuestTools.Hardware
import Nexara.GuestTools.InFlight
import Nexara.Syslog.RecordLength
import Nexara.Scanner.DebianOrder
import Nexara.Directory.SignIn
import Nexara.Directory.Sync
import Nexara.Totp.Changes
import Nexara.Totp.SingleUse
import Nexara.Totp.Ceiling
import Nexara.WebClient.Epochs
import Nexara.Rolling.Passthrough
import Nexara.Rolling.DrainMap
import Nexara.Drs.HaImport
import Nexara.Virtiowin.Version
