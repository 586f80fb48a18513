import SecureStore.Inventory.Audit
import SecureStore.Inventory.Serializable
import SecureStore.Inventory.Volumes
import SecureStore.Inventory.Numbering
import SecureStore.Inventory.Succession
import SecureStore.Inventory.Splits
import SecureStore.Custody.Dispatch
import SecureStore.Custody.Billing
import SecureStore.Custody.Statements
import SecureStore.Services.FeeLaws
import SecureStore.Races.Loans
import SecureStore.Races.Recovery
import SecureStore.Races.Terms
import SecureStore.Races.LoanRuns
import SecureStore.Races.Withdrawals
import SecureStore.Races.Relationships
import SecureStore.Races.Reservations
import SecureStore.Collateral.Counterparty
import SecureStore.Collateral.Orderly
import SecureStore.Collateral.Awaiting
import SecureStore.Collateral.AllOrNothing
import SecureStore.Collateral.Retry
import SecureStore.Collateral.Rounding
import SecureStore.Collateral.Encumbrance
import SecureStore.Collateral.Pledging
import SecureStore.Collateral.ForceRelease
import SecureStore.Services.Receipts
import SecureStore.Custody.Transactions
import SecureStore.Custody.Endings
import SecureStore.Custody.Redeeming
import SecureStore.Custody.Quotes
import SecureStore.Receipts.Holders
import SecureStore.Receipts.TransactionDetail
import SecureStore.Access.OnBehalf
import SecureStore.Access.Suspension
import SecureStore.Access.SingleUse
import SecureStore.Access.TransactionPin
import SecureStore.Access.Inheritance
import SecureStore.Access.Identifiers
import SecureStore.Access.ResetLinks
import SecureStore.Access.Slugs
import SecureStore.Access.LookupLimit
import SecureStore.Backfill.Gate
import SecureStore.Deposits.Freeze
import SecureStore.Deposits.Graded
import SecureStore.Deposits.GradeOrder
import SecureStore.Deposits.Repeated
import SecureStore.Deposits.Configuration
import SecureStore.Deposits.Served
import SecureStore.Transactions.Export
import SecureStore.Transactions.Own
import SecureStore.Transactions.Recent
import SecureStore.Valuation.Exposure
import SecureStore.Valuation.Portfolio
import SecureStore.Valuation.Network
import SecureStore.Custody.Holdings
import SecureStore.Reference.Banks
import SecureStore.Reports.Movement
import SecureStore.Storage.OwnedUrls
import SecureStore.Receipts.Offered
