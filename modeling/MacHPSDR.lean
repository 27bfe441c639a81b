import MacHPSDR.Acars.Framing
import MacHPSDR.Acars.Repair
import MacHPSDR.Core.RingBuffer
import MacHPSDR.Cw.Iambic
import MacHPSDR.Cw.Ownership
import MacHPSDR.Cw.Release
import MacHPSDR.Cw.Segments
import MacHPSDR.DxCluster.Spots
import MacHPSDR.DxCluster.Stream
import MacHPSDR.Foundations.Cursor
import MacHPSDR.Foundations.Framing
import MacHPSDR.Foundations.JsonValue
import MacHPSDR.Foundations.PrefixMap
import MacHPSDR.Foundations.Radix
import MacHPSDR.Foundations.ShiftRegister
import MacHPSDR.Ft8.HashTable
import MacHPSDR.Ft8.Pskreporter
import MacHPSDR.Ft8.Publish
import MacHPSDR.Ft8.Sequence
import MacHPSDR.Ft8.Transmit
import MacHPSDR.Ft8.Window
import MacHPSDR.Ftx.Callsign
import MacHPSDR.Ftx.Message
import MacHPSDR.Ftx.Symbols
import MacHPSDR.Hfdl.AcarsDecode
import MacHPSDR.Hfdl.Arinc
import MacHPSDR.Hfdl.Base85
import MacHPSDR.Hfdl.MiamFile
import MacHPSDR.Hfdl.MpduWalk
import MacHPSDR.Hfdl.OhmaReader
import MacHPSDR.Hfdl.OhmaReassembly
import MacHPSDR.Hfdl.OhmaValue
import MacHPSDR.Hfdl.Polarity
import MacHPSDR.Hfdl.SymbolAccounting
import MacHPSDR.Hfdl.SysTableParts
import MacHPSDR.Hl2.Clock
import MacHPSDR.Midi.Dispatch
import MacHPSDR.Property.Ranges
import MacHPSDR.Property.Restore
import MacHPSDR.Property.Save
import MacHPSDR.Property.Sessions
import MacHPSDR.Protocol1.CommandCycle
import MacHPSDR.Protocol1.ControlWord
import MacHPSDR.Protocol1.Demux
import MacHPSDR.Protocol1.Sync
import MacHPSDR.Protocol2.HighPriority
import MacHPSDR.Protocol2.Receive
import MacHPSDR.Qo100.Transponder
import MacHPSDR.Radio.KeyLines
import MacHPSDR.Radio.Keybind
import MacHPSDR.Radio.KeybindTable
import MacHPSDR.Radio.Tune
import MacHPSDR.Radio.Vox
import MacHPSDR.Receiver.BandStack
import MacHPSDR.Receiver.Diversity
import MacHPSDR.Receiver.Exchange
import MacHPSDR.Receiver.Feed
import MacHPSDR.Receiver.Landing
import MacHPSDR.Receiver.ModeMemory
import MacHPSDR.Receiver.Satellite
import MacHPSDR.Receiver.Span
import MacHPSDR.Receiver.Subrx
import MacHPSDR.Reconnect.Backoff
import MacHPSDR.Reconnect.Watchdog
import MacHPSDR.Recorder.Accounting
import MacHPSDR.Recorder.Isolation
import MacHPSDR.Recorder.Writer
import MacHPSDR.Rigctl.Client
import MacHPSDR.Rigctl.Information
import MacHPSDR.Rigctl.Reply
import MacHPSDR.Soapy.Fifo
import MacHPSDR.Soapy.Parking
import MacHPSDR.Soapy.Reconnect
import MacHPSDR.Soapy.TxGain
import MacHPSDR.Tci.AudioMask
import MacHPSDR.Tci.ChronoPace
import MacHPSDR.Tci.CwMsg
import MacHPSDR.Tci.Keying
import MacHPSDR.Tci.Resample
import MacHPSDR.Tci.SubscriberCount
import MacHPSDR.Tci.TxChrono
import MacHPSDR.Tci.TxRing
import MacHPSDR.TciWs.Reassembly
import MacHPSDR.TciWs.Send
import MacHPSDR.WebServer.AudioRate
import MacHPSDR.WebServer.Containment
import MacHPSDR.WebServer.Escape
import MacHPSDR.WebServer.Grammar
import MacHPSDR.WebServer.Integers
import MacHPSDR.WebServer.Ladder
import MacHPSDR.WebServer.Lockout
import MacHPSDR.WebServer.Outcome
import MacHPSDR.WebServer.Quantize
import MacHPSDR.WebServer.Safety
