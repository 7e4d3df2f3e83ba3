import MqttCodec.Channel
import MqttCodec.ClientPacket.WireFormat
import MqttCodec.ServerPacket.Decoding
import MqttCodec.Settings.Loading
import MqttCodec.Settings.Saving
import MqttCodec.Transport.Async
import MqttCodec.Transport.Script
import MqttCodec.Proofs.Channel.FixedHeader
import MqttCodec.Proofs.Channel.Reencoding
import MqttCodec.Proofs.Channel.Session
import MqttCodec.Proofs.Channel.Truncation
import MqttCodec.Proofs.ClientPacket.ExactSize
import MqttCodec.Proofs.ClientPacket.Refusal
import MqttCodec.Proofs.Frame.Arrivals
import MqttCodec.Proofs.ServerPacket.Grammar
import MqttCodec.Proofs.ServerPacket.Verdicts
import MqttCodec.Proofs.Json.Reader
import MqttCodec.Proofs.Json.Skipping
import MqttCodec.Proofs.Json.Stability
import MqttCodec.Proofs.Settings.Loading
import MqttCodec.Proofs.Settings.Truncation
import MqttCodec.Proofs.Json.Rendering
import MqttCodec.Proofs.Settings.Rendering
import MqttCodec.Proofs.Settings.Saving
import MqttCodec.Proofs.ClientPacket.PublishHeader
import MqttCodec.Proofs.Settings.Packets
import MqttCodec.Proofs.Json.Quotes
import MqttCodec.Proofs.Settings.Strings
import MqttCodec.Proofs.Json.Faults
import MqttCodec.Proofs.Settings.Faults
import MqttCodec.Proofs.Frame.Transports
import MqttCodec.Proofs.RemainingLength.Feeding
import MqttCodec.Proofs.ServerPacket.Refusals
import MqttCodec.Proofs.OutputCursor.Log
