import Noticeboard.Board.Basic
import Noticeboard.Car
import Noticeboard.Card.Basic
import Noticeboard.Center.Basic
import Noticeboard.Center.Event
import Noticeboard.Center.Loop
import Noticeboard.Command
import Noticeboard.Config
import Noticeboard.Edit.Alignment
import Noticeboard.Edit.Basic
import Noticeboard.Edit.Difference
import Noticeboard.HeadsUp
import Noticeboard.Instant.Basic
import Noticeboard.Instant.Calendar
import Noticeboard.Instant.Text
import Noticeboard.Json.Basic
import Noticeboard.Json.Number
import Noticeboard.Json.Parser
import Noticeboard.Json.Reader
import Noticeboard.Log
import Noticeboard.Main
import Noticeboard.Proofs.Alignment.Longest
import Noticeboard.Proofs.Alignment.Path
import Noticeboard.Proofs.Alignment.Round
import Noticeboard.Proofs.Alignment.Search
import Noticeboard.Proofs.Board.Arrivals
import Noticeboard.Proofs.Board.Children
import Noticeboard.Proofs.Board.Places
import Noticeboard.Proofs.Board.Rules
import Noticeboard.Proofs.Card.Conflicts
import Noticeboard.Proofs.Card.Grouping
import Noticeboard.Proofs.Card.Identity
import Noticeboard.Proofs.Card.Members
import Noticeboard.Proofs.Card.Offers
import Noticeboard.Proofs.Card.Regrouping
import Noticeboard.Proofs.Card.Sameness
import Noticeboard.Proofs.Center.Backing
import Noticeboard.Proofs.Center.Calls
import Noticeboard.Proofs.Center.PopUp
import Noticeboard.Proofs.Center.Renewal
import Noticeboard.Proofs.Center.Reports
import Noticeboard.Proofs.Center.Responses
import Noticeboard.Proofs.Center.Schedules
import Noticeboard.Proofs.Center.Viewer
import Noticeboard.Proofs.Center.Written
import Noticeboard.Proofs.Difference.Length
import Noticeboard.Proofs.Difference.Matching
import Noticeboard.Proofs.Difference.Moves
import Noticeboard.Proofs.Difference.Partners
import Noticeboard.Proofs.Difference.Replay
import Noticeboard.Proofs.Difference.Script
import Noticeboard.Proofs.Difference.Shortest
import Noticeboard.Proofs.Difference.Trail
import Noticeboard.Proofs.HeadsUp.Changes
import Noticeboard.Proofs.HeadsUp.Later
import Noticeboard.Proofs.HeadsUp.Operations
import Noticeboard.Proofs.HeadsUp.Outstanding
import Noticeboard.Proofs.HeadsUp.Scene
import Noticeboard.Proofs.HeadsUp.Stale
import Noticeboard.Proofs.Instant.Calendar
import Noticeboard.Proofs.Instant.Stamp
import Noticeboard.Proofs.Json.Shape
import Noticeboard.Proofs.Json.Text
import Noticeboard.Proofs.Json.Token
import Noticeboard.Proofs.Order
import Noticeboard.Proofs.Record.Written
import Noticeboard.Proofs.Session.Mutes
import Noticeboard.Proofs.Session.Operations
import Noticeboard.Proofs.Session.Roster
import Noticeboard.Proofs.Session.Runs
import Noticeboard.Proofs.Session.Store
import Noticeboard.Proofs.Session.Toggles
import Noticeboard.Proofs.Session.Unseen
import Noticeboard.Proofs.Session.Withdrawal
import Noticeboard.Ranking
import Noticeboard.Record.Basic
import Noticeboard.Record.Codec
import Noticeboard.Session.Basic
import Noticeboard.Session.Mutes
import Noticeboard.Session.Store
import Noticeboard.Session.Unseen
import Noticeboard.Text
