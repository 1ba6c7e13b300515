import OsmoTrx.Lib.Run
import OsmoTrx.Lib.Mem
import OsmoTrx.Lib.Word
import OsmoTrx.Lib.Rounding
import OsmoTrx.GSM.Time
import OsmoTrx.GSM.Order
import OsmoTrx.Lib.PriorityQueue
import OsmoTrx.Lib.CText
import OsmoTrx.Device.SmplBuf
import OsmoTrx.Device.SmplBufErrors
import OsmoTrx.Trx.VectorQueue
import OsmoTrx.Trx.Downlink
import OsmoTrx.Trx.Schedule
import OsmoTrx.Radio.Interface
import OsmoTrx.Radio.Receive
import OsmoTrx.Radio.Transmit
import OsmoTrx.Dsp.Convolve
import OsmoTrx.Dsp.ConvolveSse
import OsmoTrx.Dsp.Convert
import OsmoTrx.Lib.Resample
import OsmoTrx.Lib.Filter
import OsmoTrx.Dsp.Resampler
import OsmoTrx.Dsp.Fft
import OsmoTrx.Dsp.Filterbank
import OsmoTrx.Radio.Multi
import OsmoTrx.Trx.Control
import OsmoTrx.Trx.CorrType
import OsmoTrx.Trx.Isolation
import OsmoTrx.Trx.DelayLimit
import OsmoTrx.Trx.Protocol
import OsmoTrx.Radio.Fifo
import OsmoTrx.Trx.Refusal
import OsmoTrx.Radio.Threads
import OsmoTrx.Radio.Underrun
import OsmoTrx.Radio.Upsampled
import OsmoTrx.Radio.Timestamps
import OsmoTrx.Trx.Filler
import OsmoTrx.Lib.Heap
import OsmoTrx.Trx.Ownership
import OsmoTrx.Lib.Bytes
import OsmoTrx.Trx.TransmitData
import OsmoTrx.Trx.ReceiveData
import OsmoTrx.Trx.Clock
import OsmoTrx.Trx.Pacing
import OsmoTrx.GSM.Slots
import OsmoTrx.Vty.Config
import OsmoTrx.Vty.Invariants
import OsmoTrx.Vty.Write
import OsmoTrx.GSM.Sequences
import OsmoTrx.Dsp.SignalVector
import OsmoTrx.Dsp.SpanConvolve
import OsmoTrx.Dsp.ResamplerLengths
import OsmoTrx.Trx.SigProcLib
import OsmoTrx.Trx.ModulatorBounds
import OsmoTrx.Vty.Options
import OsmoTrx.Trx.FillerTable
import OsmoTrx.Trx.BurstLength
import OsmoTrx.CommonLibs.LinkedLists
import OsmoTrx.Lib.Monitor
import OsmoTrx.CommonLibs.InterthreadMap
import OsmoTrx.CommonLibs.InterthreadQueue
import OsmoTrx.Lib.Linked
import OsmoTrx.Radio.Downsampled
import OsmoTrx.Radio.History
import OsmoTrx.Radio.ResampTransmit
import OsmoTrx.Radio.MultiTransmit
import OsmoTrx.Dsp.DelayVector
import OsmoTrx.Device.UhdAlignment
import OsmoTrx.CommonLibs.Timeval
import OsmoTrx.Device.Usrp1Transmit
import OsmoTrx.Lib.StreamRing
import OsmoTrx.Device.Usrp1Receive
import OsmoTrx.Device.Usrp1Ring
import OsmoTrx.Trx.Lifecycle
import OsmoTrx.CommonLibs.TimevalNormal
import OsmoTrx.GSM.FrameSteps
import OsmoTrx.Dsp.Complex
import OsmoTrx.Lib.Window
import OsmoTrx.Trx.NoiseVector
import OsmoTrx.CommonLibs.BitVector
import OsmoTrx.CommonLibs.BitVectorPack
import OsmoTrx.CommonLibs.BitVectorHex
import OsmoTrx.CommonLibs.Utils
import OsmoTrx.Device.InfoList
import OsmoTrx.Lib.Blocks
import OsmoTrx.Dsp.VectorMemory
import OsmoTrx.Lib.ShiftRegister
import OsmoTrx.Lib.Orbit
import OsmoTrx.CommonLibs.PRBS
import OsmoTrx.Lib.Search
import OsmoTrx.Dsp.PeakDetect
import OsmoTrx.Trx.SyncSequences
import OsmoTrx.Trx.Detection
import OsmoTrx.Lib.EightPhases
import OsmoTrx.Trx.Demodulation
import OsmoTrx.Trx.TrainingSearch
import OsmoTrx.Trx.Uplink
import OsmoTrx.Trx.Transmitter
import OsmoTrx.Device.UhdReceive
