import Cadence.Archive.BitOrder
import Cadence.Archive.Block
import Cadence.Archive.Checksum
import Cadence.Archive.Codes
import Cadence.Archive.Deflate
import Cadence.Archive.Gzip
import Cadence.Archive.Inflate
import Cadence.Archive.PrefixCode
import Cadence.Archive.Repetition
import Cadence.Archive.WordLengths
import Cadence.Bits.Basic
import Cadence.Bits.Golomb
import Cadence.Bits.Lemmas
import Cadence.Bits.Overwrite
import Cadence.Bits.Reader
import Cadence.Bits.Writer
import Cadence.Bits.Written
import Cadence.Codec
import Cadence.Config
import Cadence.ConfigRecord
import Cadence.Date
import Cadence.Directory
import Cadence.Directory.Place
import Cadence.Event
import Cadence.Failure
import Cadence.Fault
import Cadence.Filter.Basic
import Cadence.Filter.Create
import Cadence.Filter.Run
import Cadence.FrameNum
import Cadence.Json.Basic
import Cadence.Json.Number
import Cadence.Json.Quoted
import Cadence.Json.Record
import Cadence.Json.Skip
import Cadence.Log.Content
import Cadence.Log.Daily
import Cadence.Log.Directive
import Cadence.Log.FileName
import Cadence.Log.Retention
import Cadence.Log.Setup
import Cadence.Meter.AudioLevel
import Cadence.Meter.Bitrate
import Cadence.Meter.TickRate
import Cadence.Nal.Escape
import Cadence.Nal.Framing
import Cadence.Nal.Scan
import Cadence.Nal.StartCode
import Cadence.Nal.Unit
import Cadence.Nal.UnitType
import Cadence.Outcome
import Cadence.Packet
import Cadence.ParameterSets
import Cadence.Path
import Cadence.Pattern.Atom
import Cadence.Pattern.CharSet
import Cadence.Pattern.Check
import Cadence.Pattern.Group
import Cadence.Pattern.Reader
import Cadence.Pps
import Cadence.Proofs.Bits.Canonical
import Cadence.Proofs.Bits.CodeWords
import Cadence.Proofs.Bits.CutWords
import Cadence.Proofs.Bits.Elements
import Cadence.Proofs.Bits.Field
import Cadence.Proofs.Bits.Overwriting
import Cadence.Proofs.Bits.Reading
import Cadence.Proofs.Bits.SingleBits
import Cadence.Proofs.Bits.Steps
import Cadence.Proofs.ConfigRecord
import Cadence.Proofs.Date
import Cadence.Proofs.Filter.Accounting
import Cadence.Proofs.Filter.Admitted
import Cadence.Proofs.Filter.Bounded
import Cadence.Proofs.Filter.Calls
import Cadence.Proofs.Filter.ColourPlanes
import Cadence.Proofs.Filter.Continuity
import Cadence.Proofs.Filter.Created
import Cadence.Proofs.Filter.Delivery
import Cadence.Proofs.Filter.Drain
import Cadence.Proofs.Filter.FaultCategories
import Cadence.Proofs.Filter.Filling
import Cadence.Proofs.Filter.Jitter
import Cadence.Proofs.Filter.Pending
import Cadence.Proofs.Filter.Refresh
import Cadence.Proofs.Filter.SingleUnit
import Cadence.Proofs.Filter.SkipNumbers
import Cadence.Proofs.Filter.Spacing
import Cadence.Proofs.FrameNum.CutHeaders
import Cadence.Proofs.FrameNum.Escapes
import Cadence.Proofs.FrameNum.Faults
import Cadence.Proofs.FrameNum.Moved
import Cadence.Proofs.FrameNum.Payloads
import Cadence.Proofs.FrameNum.Place
import Cadence.Proofs.FrameNum.Renumbered
import Cadence.Proofs.FrameNum.Reread
import Cadence.Proofs.FrameNum.Unescaped
import Cadence.Proofs.Log.FileNames
import Cadence.Proofs.Log.Housekeeping
import Cadence.Proofs.Log.Prefixes
import Cadence.Proofs.Log.Retained
import Cadence.Proofs.Log.Tidied
import Cadence.Proofs.Machine.AudioLevel
import Cadence.Proofs.Machine.Bitrate
import Cadence.Proofs.Machine.Builds
import Cadence.Proofs.Machine.Cursor
import Cadence.Proofs.Machine.Filter
import Cadence.Proofs.Machine.InPlace
import Cadence.Proofs.Machine.ParameterSets
import Cadence.Proofs.Machine.Reader
import Cadence.Proofs.Machine.Rescale
import Cadence.Proofs.Machine.SkipFrame
import Cadence.Proofs.Machine.SliceHeader
import Cadence.Proofs.Machine.StartCodes
import Cadence.Proofs.Machine.TickRate
import Cadence.Proofs.Machine.Units
import Cadence.Proofs.Machine.WordSearch
import Cadence.Proofs.Machine.Words
import Cadence.Proofs.Machine.Writer
import Cadence.Proofs.Meter.Channels
import Cadence.Proofs.Meter.CoveredTime
import Cadence.Proofs.Meter.Seconds
import Cadence.Proofs.Meter.TickRate
import Cadence.Proofs.Meter.Window
import Cadence.Proofs.Nal.Blocks
import Cadence.Proofs.Nal.CodePlaces
import Cadence.Proofs.Nal.EscapePlaces
import Cadence.Proofs.Nal.EscapedForm
import Cadence.Proofs.Nal.Escaping
import Cadence.Proofs.Nal.Extents
import Cadence.Proofs.Nal.FullPackets
import Cadence.Proofs.Nal.LengthFields
import Cadence.Proofs.Nal.Selected
import Cadence.Proofs.Nal.StartCodes
import Cadence.Proofs.Nal.Transport
import Cadence.Proofs.Nal.ZeroBytes
import Cadence.Proofs.Nal.ZeroRuns
import Cadence.Proofs.Outcome
import Cadence.Proofs.ParameterSets.ColourPlanes
import Cadence.Proofs.ParameterSets.Origin
import Cadence.Proofs.ParameterSets.PictureTree
import Cadence.Proofs.ParameterSets.Ranges
import Cadence.Proofs.ParameterSets.SequenceTree
import Cadence.Proofs.ParameterSets.Stored
import Cadence.Proofs.Path
import Cadence.Proofs.Rational.Rounding
import Cadence.Proofs.Rational.Text
import Cadence.Proofs.RingBuffer
import Cadence.Proofs.RingBuffer.Calls
import Cadence.Proofs.SkipFrame
import Cadence.Proofs.SkipFrame.Elements
import Cadence.Proofs.SkipFrame.Emulation
import Cadence.Proofs.SkipFrame.Reading
import Cadence.Proofs.SkipFrame.Size
import Cadence.Proofs.TemplateTable
import Cadence.Proofs.Text.Blank
import Cadence.Proofs.Text.Bytes
import Cadence.Proofs.Text.Decimal
import Cadence.Proofs.Ticks
import Cadence.Rational
import Cadence.Rational.Rescale
import Cadence.Rational.Text
import Cadence.RingBuffer
import Cadence.SkipFrame
import Cadence.Sps
import Cadence.Table
import Cadence.Template
import Cadence.Text.Alphanumeric
import Cadence.Text.Blank
import Cadence.Text.Bytes
import Cadence.Text.Decimal
import Cadence.Text.Fixed
import Cadence.Text.Real
import Cadence.Ticks
import Cadence.Timestamp
