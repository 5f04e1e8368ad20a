import DriverBus.Foundations.Runs
import DriverBus.Foundations.Simulation
import DriverBus.Foundations.JsonText
import DriverBus.Foundations.JsonValue
import DriverBus.Foundations.LittleEndian
import DriverBus.Foundations.Copies
import DriverBus.Foundations.Outcomes
import DriverBus.Models.Commands
import DriverBus.Services.CommandExecutor
import DriverBus.Services.CommandTransitions
import DriverBus.Services.PendingTable
import DriverBus.Services.WaitingCalls
import DriverBus.Services.CallFailures
import DriverBus.Services.Correlation
import DriverBus.Services.AcceptedReplies
import DriverBus.Services.Isolation
import DriverBus.Pipe.Message
import DriverBus.Pipe.StreamReader
import DriverBus.Pipe.ReadAsync
import DriverBus.Pipe.Fragments
import DriverBus.Pipe.Framing
import DriverBus.Pipe.Reconnect
import DriverBus.Pipe.ReconnectTransitions
import DriverBus.Pipe.StreamField
import DriverBus.Pipe.FailedReconnects
import DriverBus.Pipe.DeadStream
import DriverBus.Pipe.WriteAsync
import DriverBus.Pipe.WriteRetries
import DriverBus.Handlers.BaseDriverRequestHandler
import DriverBus.Handlers.SendEventsBatchHandler
import DriverBus.Handlers.EventMark
import DriverBus.Services.RequestExecutor
import DriverBus.Nlohmann.Lexer
import DriverBus.Nlohmann.Parser
import DriverBus.Nlohmann.RoundTrip
import DriverBus.Client.CommandResult
import DriverBus.Client.ReadPipe
import DriverBus.Models.Serialization
import DriverBus.Client.Decoding
import DriverBus.Client.Threads
import DriverBus.Client.Responses
import DriverBus.Services.CommandLoop
import DriverBus.Foundations.Sha256
import DriverBus.Handlers.GetEncryptionKeyHandler
import DriverBus.Services.BusJson
import DriverBus.Foundations.Matching
import DriverBus.Services.RequestLoop
import DriverBus.Services.HandledRequests
import DriverBus.Client.Main
