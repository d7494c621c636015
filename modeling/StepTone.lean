import StepTone.Arithmetic
import StepTone.Binary64
import StepTone.Chart
import StepTone.Chart.Html
import StepTone.Command.Flags
import StepTone.Command.Run
import StepTone.Command.Surroundings
import StepTone.Datum
import StepTone.Decimal.Digits
import StepTone.Decimal.Notation
import StepTone.Fault
import StepTone.FileTree
import StepTone.Firmware.Bounds
import StepTone.Firmware.Constants
import StepTone.Journal.Clock
import StepTone.Journal.Family
import StepTone.Journal.Fields
import StepTone.Journal.Level
import StepTone.Journal.Logger
import StepTone.JsonValue
import StepTone.Listing.Format
import StepTone.Listing.Render
import StepTone.Listing.Rows
import StepTone.Listing.Symbol
import StepTone.Listing.Write
import StepTone.Main
import StepTone.Message.Fill
import StepTone.Message.Template
import StepTone.Message.Verb
import StepTone.Numeral.Basic
import StepTone.Numeral.Integer
import StepTone.Numeral.Real
import StepTone.Profile
import StepTone.Settings.Basic
import StepTone.Settings.Ini
import StepTone.Settings.Kind
import StepTone.Settings.OfToml
import StepTone.Settings.Section
import StepTone.Song
import StepTone.Table.Basic
import StepTone.Table.Check
import StepTone.Table.Generate
import StepTone.Table.Register
import StepTone.Text.Blank
import StepTone.Text.Letter
import StepTone.Text.Printable
import StepTone.Text.Quoted
import StepTone.Text.Split
import StepTone.Toml.Document
import StepTone.Toml.Lexeme
import StepTone.Toml.Moment
import StepTone.Toml.Statement
import StepTone.Toml.Value
import StepTone.Proofs.DoubleArithmetic
import StepTone.Proofs.PositiveDoubles
import StepTone.Proofs.FirmwareBounds
import StepTone.Proofs.BoundsFaults
import StepTone.Proofs.ConfigurationFaults
import StepTone.Proofs.Diagnostics
import StepTone.Proofs.JournalRuns
import StepTone.Proofs.RunEffects
import StepTone.Proofs.DecimalText
import StepTone.Proofs.JsonReading
import StepTone.Proofs.NamedValues
import StepTone.Proofs.ListingDocument
import StepTone.Proofs.ListingValues
import StepTone.Proofs.SongBlock
import StepTone.Proofs.IniMeaning
import StepTone.Proofs.AccessTracking
import StepTone.Proofs.ProfileReading
import StepTone.Proofs.ReadingRules
import StepTone.Proofs.AlikeSettings
import StepTone.Proofs.NotationAgreement
import StepTone.Proofs.RegisterStorage
import StepTone.Proofs.FlagOverrides
import StepTone.Proofs.ListingSucceeds
import StepTone.Proofs.NearestDouble
import StepTone.Proofs.ShortestDigits
import StepTone.Proofs.RealReading
import StepTone.Proofs.ListText
import StepTone.Proofs.TomlValues
import StepTone.Proofs.OuterLoop
import StepTone.Proofs.CamelSymbol
import StepTone.Proofs.IniAcceptance
import StepTone.Proofs.PeriodRoundTrip
import StepTone.Proofs.ListingFaults
import StepTone.Proofs.NoteByNote
import StepTone.Proofs.WrappedCodes
import StepTone.Proofs.SongReading
import StepTone.Proofs.SongListing
import StepTone.Proofs.FirstBreach
import StepTone.Proofs.StoredValues
import StepTone.Proofs.PitchOrder
import StepTone.Proofs.TomlOrder
import StepTone.Proofs.RepeatedReading
import StepTone.Proofs.RecordFields
import StepTone.Proofs.RowLayout
