import Bluecross.Lib.Transition
import Bluecross.Config
import Bluecross.Parsing
import Bluecross.Wire
import Bluecross.Clipboard
import Bluecross.Server
import Bluecross.ServerControl
import Bluecross.Forwarding
import Bluecross.Client
import Bluecross.Lib.Stamps
import Bluecross.MotionOrder
import Bluecross.System
import Bluecross.SystemSteps
import Bluecross.Wiring
import Bluecross.Holder
import Bluecross.ControlLoss
import Bluecross.Registration
import Bluecross.Presses
import Bluecross.HeldKeys
import Bluecross.Confidentiality
import Bluecross.InputRouting
import Bluecross.PointerTracking
import Bluecross.SessionDiscipline
import Bluecross.StaleConnections
import Bluecross.ClipboardRelay
import Bluecross.ClipboardWire
import Bluecross.ClipboardNode
import Bluecross.ClipboardEcho
import Bluecross.ClipboardSync
import Bluecross.Admission
import Bluecross.Lib.HoldTimer
import Bluecross.ExitTimer
import Bluecross.BufferBound
import Bluecross.StreamEnd
import Bluecross.FieldAgreement
import Bluecross.MotionConservation
import Bluecross.Lib.CheckedArith
import Bluecross.ConfigLoading
import Bluecross.EdgeArithmetic
import Bluecross.Bounce
import Bluecross.HandshakeSizes
import Bluecross.ClipboardWatch
import Bluecross.Daemon
import Bluecross.Lib.FirstMatch
import Bluecross.MapOrder
import Bluecross.Lib.Settling
import Bluecross.Quiescence
import Bluecross.Agreement
import Bluecross.PushingBack
import Bluecross.Recovery
import Bluecross.InputCapture
import Bluecross.InputFidelity
import Bluecross.Handshake
import Bluecross.Lib.Simulation
import Bluecross.ClientProgram
import Bluecross.ClientProgress
import Bluecross.Deployed
import Bluecross.SecureChannel
import Bluecross.Networked
import Bluecross.Baton
import Bluecross.DaemonControl
