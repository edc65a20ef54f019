import SentryPos.Pos.OwnBranch
import SentryPos.Pos.Oversell
import SentryPos.Pos.RestoredOnce
import SentryPos.Pos.ZFigures
import SentryPos.Pos.Reconciliation
import SentryPos.Auth.Guessing
import SentryPos.Auth.Concurrent
import SentryPos.Auth.Rotation
import SentryPos.Auth.SecondFactor
import SentryPos.Pos.LineMoney
import SentryPos.Auth.OneTime
import SentryPos.Pos.ReceiptSeq
import SentryPos.Pos.OwnReferences
import SentryPos.Pos.AdmissionBounds
import SentryPos.Platform.Codes
import SentryPos.Platform.Cap
import SentryPos.Platform.Status
import SentryPos.Catalog.Products
import SentryPos.Catalog.Identifiers
import SentryPos.Gate.Drain
import SentryPos.Analytics.Csv
import SentryPos.Calendar
import SentryPos.Js.Date
import SentryPos.Analytics.BusinessDay
import SentryPos.Analytics.Schema
import SentryPos.Analytics.Scope
import SentryPos.Analytics.RangeAdmission
import SentryPos.Analytics.Movements
import SentryPos.Pos.ReplayFlag
import SentryPos.Scoped.Args
import SentryPos.Scoped.Models
import SentryPos.Scoped.NestedWrites
import SentryPos.Totals.Bounds
import SentryPos.Catalog.ChildSets
import SentryPos.Catalog.ModifierGroups
import SentryPos.Catalog.SubmittedChildren
import SentryPos.Catalog.GroupLinks
import SentryPos.Catalog.Indexes
import SentryPos.Catalog.FreeIdentifiers
import SentryPos.Analytics.Sql
import SentryPos.Analytics.Reports
import SentryPos.Scoped.NestedReads
import SentryPos.Js.Canonical
import SentryPos.Pos.TotalsCheck
import SentryPos.Catalog.Pull
import SentryPos.Catalog.PullClosed
import SentryPos.Pos.Overflow
import SentryPos.Analytics.Archive
import SentryPos.Scoped.HardDeletes
import SentryPos.Scoped.ChokePoint
import SentryPos.Scoped.FrozenRows
import SentryPos.Analytics.Leaks
import SentryPos.Analytics.Explained
import SentryPos.Analytics.ProductsReport
import SentryPos.Analytics.Dashboard
import SentryPos.Analytics.Isolation
import SentryPos.Analytics.Agreement
import SentryPos.Analytics.Partition
import SentryPos.ReadCommitted.Journal
import SentryPos.Scoped.Hook
import SentryPos.Scoped.Ownership
import SentryPos.Scoped.Policing
import SentryPos.Scoped.Tenancy
import SentryPos.Scoped.Trail
