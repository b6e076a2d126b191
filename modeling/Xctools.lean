import Xctools.Machine.Run
import Xctools.Machine.LastMatch
import Xctools.Machine.Stream
import Xctools.Machine.Refresh
import Xctools.Broker.PolicyLoad
import Xctools.Broker.Filter
import Xctools.Broker.Mediation
import Xctools.Broker.UuidCache
import Xctools.Broker.Websockets
import Xctools.Broker.RequestSafety
import Xctools.Broker.Matching
import Xctools.Broker.PropertyRequests
import Xctools.Broker.RuleSyntax
import Xctools.Broker.FinalNewline
import Xctools.Broker.CallArgs
import Xctools.Broker.TableBounds
import Xctools.Xcpmd.Activation
import Xctools.Xcpmd.Standing
import Xctools.Xcpmd.Acceptance
import Xctools.Xcpmd.Literals
import Xctools.Xcpmd.Coherence
import Xctools.Xcpmd.RuleJson
import Xctools.Xcpmd.Typing
import Xctools.Xcpmd.RuleLines
import Xctools.Xcpmd.VmActions
import Xctools.Xcpmd.AcpiEvents
import Xctools.Xcpmd.Arguments
import Xctools.Xcpmd.VarStrings
import Xctools.Xcpmd.Rejection
import Xctools.Xcpmd.ConfigFile
import Xctools.Xcpmd.Prototypes
import Xctools.Xcpmd.ShutdownTargets
import Xctools.Xcpmd.Smbios
import Xctools.Xcpmd.BatteryEvents
import Xctools.Xcpmd.ChargeTimes
import Xctools.Dmbus.Progress
import Xctools.Audio.Commands
import Xctools.Atapi.OpenFailures
import Xctools.Xcpmd.Strsplit
import Xctools.Xcpmd.Gathering
import Xctools.Audio.Backlog
import Xctools.Atapi.SgIo
import Xctools.AudioHelper.Volume
import Xctools.Dmbus.ClientList
import Xctools.Compleat.CommandLine
import Xctools.Xcpmd.ListHeads
import Xctools.Audio.Capture
import Xctools.Audio.Responses
import Xctools.Broker.RawSessions
import Xctools.Dmbus.Conversation
import Xctools.Xcpmd.Momentary
import Xctools.Xcpmd.RuleMemory
import Xctools.Qmp.Relay
