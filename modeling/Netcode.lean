import Netcode.Error
import Netcode.Wire.Stream
import Netcode.Wire.Message
import Netcode.Wire.Coord
import Netcode.Float.Single
import Netcode.Float.Decimal
import Netcode.Text.Utf8
import Netcode.Text.Hex
import Netcode.Channel.Cipher
import Netcode.Protocol
import Netcode.Delta.Field
import Netcode.Delta.Entity
import Netcode.Delta.Player
import Netcode.Input.Command
import Netcode.Delta.Sound
import Netcode.Text.Tokens
import Netcode.Text.Info
import Netcode.State.ConfigString
import Netcode.Opcode
import Netcode.State.GameState
import Netcode.State.Snapshot
import Netcode.Channel.Reliable
import Netcode.Channel.Netchan
import Netcode.Channel.Link
import Netcode.OutOfBand
import Netcode.Console.Cvar
import Netcode.Client.Settings
import Netcode.Client.Error
import Netcode.Client.Clock
import Netcode.Client.Download
import Netcode.Client.Session.Basic
import Netcode.Client.Session.Outgoing
import Netcode.Client.Session.Incoming
import Netcode.Server.Endpoint
import Netcode.Loopback
import Netcode.Proofs.Wire.Bits
import Netcode.Proofs.Wire.Packing
import Netcode.Proofs.Wire.Codec
import Netcode.Proofs.Delta.FieldDelta
import Netcode.Proofs.Delta.Counters
import Netcode.Proofs.Delta.Tables
import Netcode.Proofs.Delta.Fixed
import Netcode.Proofs.Wire.Stateful
import Netcode.Proofs.Snapshot.Ring
import Netcode.Proofs.Snapshot.Merge
import Netcode.Proofs.Snapshot.Sounds
import Netcode.Proofs.Snapshot.Message
import Netcode.Proofs.Snapshot.History
import Netcode.Proofs.Snapshot.Parse
import Netcode.Proofs.Snapshot.Run
import Netcode.Proofs.Snapshot.Ledger
import Netcode.Proofs.Snapshot.Lockstep
import Netcode.Proofs.Channel.CommandRing
import Netcode.Proofs.Channel.Commands
import Netcode.Proofs.Channel.ReliableRing
import Netcode.Proofs.Channel.Keystream
import Netcode.Proofs.Wire.Bytes
import Netcode.Proofs.Channel.Fragments
import Netcode.Proofs.Channel.Delivery
import Netcode.Proofs.Text.Utf8
import Netcode.Proofs.Text.Tokens
import Netcode.Proofs.Text.Packets
import Netcode.Proofs.Wire.Layout
import Netcode.Proofs.Wire.Values
import Netcode.Proofs.Wire.Script
import Netcode.Proofs.Session.Moves
import Netcode.Proofs.Session.Steps
import Netcode.Proofs.Session.Handshake
import Netcode.Proofs.State.Tables
import Netcode.Proofs.State.Message
import Netcode.Proofs.Session.Sending
import Netcode.Proofs.Input.Deltas
import Netcode.Proofs.State.Budget
import Netcode.Proofs.Wire.Tape
import Netcode.Proofs.Session.ConfigSlots
import Netcode.Proofs.Session.Downloads
import Netcode.Proofs.Wire.Overflow
import Netcode.Proofs.Text.Info
import Netcode.Proofs.Console.Userinfo
import Netcode.Proofs.State.Slots
import Netcode.Proofs.Wire.Packed
import Netcode.Proofs.Text.Arguments
import Netcode.Proofs.Channel.Lookup
