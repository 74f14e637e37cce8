import SessionGrid.Bindings
import SessionGrid.Capabilities.Pair
import SessionGrid.CommandLine.Program
import SessionGrid.Config.File
import SessionGrid.Config.Json
import SessionGrid.Hub.Basic
import SessionGrid.Hub.RollCall
import SessionGrid.Json.Reader
import SessionGrid.Main
import SessionGrid.Simulation.Report
import SessionGrid.Toml.Printer
import SessionGrid.Toml.Reader
import SessionGrid.Proofs.Bindings
import SessionGrid.Proofs.Binary64
import SessionGrid.Proofs.Counting
import SessionGrid.Proofs.Lists
import SessionGrid.Proofs.Text.Blank
import SessionGrid.Proofs.Text.ByteOrder
import SessionGrid.Proofs.Decimal.Digits
import SessionGrid.Proofs.Json.Tree
import SessionGrid.Proofs.Json.Number
import SessionGrid.Proofs.Json.Quoted
import SessionGrid.Proofs.Json.Layout
import SessionGrid.Proofs.Json.Reading
import SessionGrid.Proofs.Toml.Quoted
import SessionGrid.Proofs.Toml.Key
import SessionGrid.Proofs.Toml.Token
import SessionGrid.Proofs.Toml.Value
import SessionGrid.Proofs.Toml.Statement
import SessionGrid.Proofs.Toml.Layout
import SessionGrid.Proofs.Toml.Assembly
import SessionGrid.Proofs.Config.Validity
import SessionGrid.Proofs.Config.Conversion
import SessionGrid.Proofs.Config.RoundTrip
import SessionGrid.Proofs.Config.JsonRoundTrip
import SessionGrid.Proofs.Hub.Calls
import SessionGrid.Proofs.Hub.Identity
import SessionGrid.Proofs.Hub.Membership
import SessionGrid.Proofs.Hub.SlotNode
import SessionGrid.Proofs.Hub.SessionId
import SessionGrid.Proofs.Hub.History
import SessionGrid.Proofs.Hub.Policy
import SessionGrid.Proofs.Hub.Scheduling
import SessionGrid.Proofs.Hub.NewSession
import SessionGrid.Proofs.Hub.Teardown
import SessionGrid.Proofs.Hub.NodeHistory
import SessionGrid.Proofs.Hub.NodeCounts
import SessionGrid.Proofs.Hub.IssuedSessions
import SessionGrid.Proofs.Hub.RoundRobin
import SessionGrid.Proofs.Hub.Rotation
import SessionGrid.Proofs.Simulation.Grid
import SessionGrid.Proofs.Simulation.Listed
import SessionGrid.Proofs.Simulation.Moves
import SessionGrid.Proofs.Simulation.Completion
import SessionGrid.Proofs.Simulation.Ledger
import SessionGrid.Proofs.Simulation.Sessions
import SessionGrid.Proofs.Simulation.Accounts
import SessionGrid.Proofs.Simulation.Overlap
import SessionGrid.Proofs.Simulation.Supply
import SessionGrid.Proofs.Simulation.Contention
import SessionGrid.Proofs.Simulation.Solo
import SessionGrid.Proofs.Simulation.Turns
import SessionGrid.Proofs.Simulation.Diary
import SessionGrid.Proofs.Simulation.Attempts
import SessionGrid.Proofs.Simulation.Budget
import SessionGrid.Proofs.Capabilities.Pairs
import SessionGrid.Proofs.Capabilities.Text
import SessionGrid.Proofs.Capabilities.Matching
import SessionGrid.Proofs.Capabilities.NormalForm
import SessionGrid.Proofs.Hub.Capability
import SessionGrid.Proofs.Config.Enlisting
import SessionGrid.Proofs.Hub.Listing
import SessionGrid.Proofs.Hub.NodeStep
import SessionGrid.Proofs.Hub.Fleet
import SessionGrid.Proofs.Hub.Verification
import SessionGrid.Proofs.Hub.Views
import SessionGrid.Proofs.Hub.Shutdown
import SessionGrid.Proofs.Hub.LoadTies
import SessionGrid.Proofs.Hub.LoadOrder
import SessionGrid.Proofs.Hub.Queue
import SessionGrid.Proofs.Hub.Spread
import SessionGrid.Proofs.Simulation.AllOrNothing
import SessionGrid.Proofs.Files.Walk
import SessionGrid.Proofs.CommandLine.Runs
import SessionGrid.Proofs.Literals.Number
import SessionGrid.Proofs.Literals.Quoted
import SessionGrid.Proofs.Toml.Reading
import SessionGrid.Proofs.Literals.Value
import SessionGrid.Proofs.Literals.Offer
import SessionGrid.Proofs.Toml.Document
import SessionGrid.Proofs.Config.Advertised
import SessionGrid.Proofs.Literals.Short
