import Outreach.Asset.Category
import Outreach.Asset.Error
import Outreach.Asset.Flow
import Outreach.Asset.Record
import Outreach.Asset.Set
import Outreach.Asset.Snapshot
import Outreach.Asset.Store
import Outreach.Asset.View
import Outreach.Cache
import Outreach.Cache.Flow
import Outreach.Cache.SingleFlight
import Outreach.Campaign.Contact
import Outreach.Campaign.Event
import Outreach.Campaign.FireTime
import Outreach.Chunks
import Outreach.Contacts.Store
import Outreach.Database
import Outreach.Database.Connection
import Outreach.Database.Edit
import Outreach.Database.Unreadable
import Outreach.Fire
import Outreach.Fire.Store
import Outreach.Index
import Outreach.Proofs.Asset.Flow
import Outreach.Proofs.Asset.Lookup
import Outreach.Proofs.Asset.Set
import Outreach.Proofs.Asset.View
import Outreach.Proofs.Cache
import Outreach.Proofs.Cache.Alike
import Outreach.Proofs.Cache.Alone
import Outreach.Proofs.Cache.Builds
import Outreach.Proofs.Cache.Edits
import Outreach.Proofs.Cache.Failure
import Outreach.Proofs.Cache.Lineage
import Outreach.Proofs.Cache.Lookups
import Outreach.Proofs.Cache.Rebuilds
import Outreach.Proofs.Cache.Registrations
import Outreach.Proofs.Cache.Reload
import Outreach.Proofs.Cache.Simulation
import Outreach.Proofs.Cache.SingleFlight
import Outreach.Proofs.Cache.Staleness
import Outreach.Proofs.Cache.Tenants
import Outreach.Proofs.Cache.Turns
import Outreach.Proofs.Cache.Unseen
import Outreach.Proofs.Cache.Use
import Outreach.Proofs.Campaign.DeliveryHour
import Outreach.Proofs.Campaign.FireTime
import Outreach.Proofs.Campaign.Offset
import Outreach.Proofs.Campaign.Range
import Outreach.Proofs.Contacts
import Outreach.Proofs.Database.Edit
import Outreach.Proofs.Database.Reads
import Outreach.Proofs.Fire.Course
import Outreach.Proofs.Fire.Dropped
import Outreach.Proofs.Fire.Due
import Outreach.Proofs.Fire.Integrity
import Outreach.Proofs.Fire.Once
import Outreach.Proofs.Fire.Plan
import Outreach.Proofs.Fire.Reuse
import Outreach.Proofs.Fire.Rows
import Outreach.Proofs.Fire.Statements
import Outreach.Proofs.Fire.Steps
import Outreach.Proofs.Fire.Store
import Outreach.Proofs.Fire.Tenants
import Outreach.Proofs.Fire.Tended
import Outreach.Proofs.Reconcile
import Outreach.Proofs.Reconcile.Agreement
import Outreach.Proofs.Reconcile.Batches
import Outreach.Proofs.Reconcile.Effect
import Outreach.Proofs.Reconcile.Exact
import Outreach.Proofs.Reconcile.Failure
import Outreach.Proofs.Reconcile.Incremental
import Outreach.Proofs.Reconcile.Repeat
import Outreach.Proofs.Reconcile.Replaced
import Outreach.Proofs.Reconcile.Success
import Outreach.Proofs.Reconcile.Synced
import Outreach.Proofs.Schedule
import Outreach.Proofs.Schedule.Missing
import Outreach.Proofs.Schedule.Next
import Outreach.Proofs.Scheduler
import Outreach.Proofs.Time.Bytes
import Outreach.Proofs.Time.Calendar
import Outreach.Proofs.Time.Localize
import Outreach.Proofs.Time.Month
import Outreach.Proofs.Time.SetBack
import Outreach.Proofs.Time.Stored
import Outreach.Proofs.Time.Zone
import Outreach.Reconcile
import Outreach.Schedule
import Outreach.Scheduler
import Outreach.Session
import Outreach.Session.Answer
import Outreach.Session.State
import Outreach.Session.Step
import Outreach.Settings
import Outreach.Settings.Document
import Outreach.Settings.Variable
import Outreach.Text.Blank
import Outreach.Text.Double
import Outreach.Text.Double.Shortest
import Outreach.Text.Json
import Outreach.Text.Json.Printer
import Outreach.Text.Numeral
import Outreach.Text.Quoted
import Outreach.Text.Unprintable
import Outreach.Text.Uuid
import Outreach.Time.Calendar
import Outreach.Time.Clock
import Outreach.Time.Moment
import Outreach.Time.Timestamp
import Outreach.Time.Zone
import Outreach.Time.ZoneRule
import Outreach.Time.ZoneTable
import Outreach.Proofs.Settings.Layer
import Outreach.Proofs.Time.Resolve
import Outreach.Proofs.Settings.Overlay
import Outreach.Proofs.Settings
import Outreach.Proofs.Fire.Marks
import Outreach.Proofs.Cache.Views
