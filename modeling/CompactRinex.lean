import CompactRinex.Body
import CompactRinex.Clock
import CompactRinex.Column
import CompactRinex.Command
import CompactRinex.Conversion
import CompactRinex.DataLine
import CompactRinex.Difference.Field
import CompactRinex.Difference.Kernel
import CompactRinex.Difference.Row
import CompactRinex.Difference.Saturating
import CompactRinex.Directory
import CompactRinex.Epoch.Description
import CompactRinex.Epoch.Flag
import CompactRinex.Fault
import CompactRinex.FilePath
import CompactRinex.Gzip
import CompactRinex.Gzip.Deflate
import CompactRinex.Header
import CompactRinex.Header.Compression
import CompactRinex.Header.Date
import CompactRinex.Header.Error
import CompactRinex.Layout
import CompactRinex.Main
import CompactRinex.Numeral
import CompactRinex.Outcome
import CompactRinex.Overlay
import CompactRinex.Proofs.Body.Alphabet
import CompactRinex.Proofs.Body.ClockLines
import CompactRinex.Proofs.Body.Epochs
import CompactRinex.Proofs.Body.Exit
import CompactRinex.Proofs.Body.Forms
import CompactRinex.Proofs.Body.Framing
import CompactRinex.Proofs.Body.History
import CompactRinex.Proofs.Body.Invariant
import CompactRinex.Proofs.Body.Orders
import CompactRinex.Proofs.Body.Output
import CompactRinex.Proofs.Body.Records
import CompactRinex.Proofs.Body.Rejection
import CompactRinex.Proofs.Body.Reports
import CompactRinex.Proofs.Body.Run
import CompactRinex.Proofs.Body.Synchronisation
import CompactRinex.Proofs.Body.TrailingSpaces
import CompactRinex.Proofs.Body.Updates
import CompactRinex.Proofs.Column.Reading
import CompactRinex.Proofs.Column.Shortest
import CompactRinex.Proofs.Compressor.Epochs
import CompactRinex.Proofs.Compressor.Mirror
import CompactRinex.Proofs.Compressor.Range
import CompactRinex.Proofs.Compressor.RoundTrip
import CompactRinex.Proofs.Compressor.Satellite
import CompactRinex.Proofs.Conversion.Names
import CompactRinex.Proofs.Conversion.Places
import CompactRinex.Proofs.DataLine.Writing
import CompactRinex.Proofs.Difference.Blanks
import CompactRinex.Proofs.Difference.Encoder
import CompactRinex.Proofs.Difference.Exact
import CompactRinex.Proofs.Difference.Lines
import CompactRinex.Proofs.Difference.Reading
import CompactRinex.Proofs.Difference.Sequences
import CompactRinex.Proofs.Epoch.Line
import CompactRinex.Proofs.Epoch.Reading
import CompactRinex.Proofs.Epoch.Writing
import CompactRinex.Proofs.Fault
import CompactRinex.Proofs.Header.Compression
import CompactRinex.Proofs.Header.Dates
import CompactRinex.Proofs.Header.Definitions
import CompactRinex.Proofs.Header.Observables
import CompactRinex.Proofs.Header.Reading
import CompactRinex.Proofs.Header.Written
import CompactRinex.Proofs.InPlace.Kernels
import CompactRinex.Proofs.InPlace.Programs
import CompactRinex.Proofs.Machine.Invariant
import CompactRinex.Proofs.Machine.Program
import CompactRinex.Proofs.Machine.Rejection
import CompactRinex.Proofs.Machine.Simulation
import CompactRinex.Proofs.Machine.Synchronisation
import CompactRinex.Proofs.Outcome
import CompactRinex.Proofs.Overlay.Columns
import CompactRinex.Proofs.Overlay.Difference
import CompactRinex.Proofs.Overlay.Sequences
import CompactRinex.Proofs.Positions.Cuts
import CompactRinex.Proofs.Positions.Header
import CompactRinex.Proofs.Positions.Memory
import CompactRinex.Proofs.Positions.Slots
import CompactRinex.Proofs.Positions.Tracks
import CompactRinex.Proofs.Stream.Ending
import CompactRinex.Proofs.Stream.Items
import CompactRinex.Proofs.Stream.Records
import CompactRinex.Proofs.Text.Endings
import CompactRinex.Proofs.Text.Lines
import CompactRinex.Proofs.Text.Pieces
import CompactRinex.Proofs.Text.Rows
import CompactRinex.Proofs.Text.Words
import CompactRinex.Proofs.Tracking.Cells
import CompactRinex.Proofs.Tracking.Isolated
import CompactRinex.Proofs.Tracking.Operations
import CompactRinex.Proofs.Tracking.Rejection
import CompactRinex.Proofs.Tracking.Tables
import CompactRinex.Proofs.Tracking.TrailingSpaces
import CompactRinex.Satellite
import CompactRinex.Source
import CompactRinex.Stream
import CompactRinex.Table
import CompactRinex.Text
import CompactRinex.Text.Blank
import CompactRinex.Text.Lines
import CompactRinex.Text.Utf8
import CompactRinex.Track
import CompactRinex.Tracking
import CompactRinex.Version
