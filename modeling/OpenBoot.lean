import OpenBoot.App.Companion
import OpenBoot.Coding.Framing
import OpenBoot.Coding.Hexadecimal
import OpenBoot.Coding.Lfsr
import OpenBoot.Coding.Numeral
import OpenBoot.Core.BootDecision
import OpenBoot.Core.Checksum
import OpenBoot.Core.Crc32
import OpenBoot.Core.Engine
import OpenBoot.Core.Loop
import OpenBoot.Core.Main
import OpenBoot.Core.Outcomes
import OpenBoot.Core.Protocol
import OpenBoot.Core.Reading
import OpenBoot.Core.Records
import OpenBoot.Core.Requests
import OpenBoot.Core.Selection
import OpenBoot.Core.State
import OpenBoot.Core.Words
import OpenBoot.Driver.Controller
import OpenBoot.Driver.Discipline
import OpenBoot.Driver.Flash
import OpenBoot.Driver.Programming
import OpenBoot.Driver.Triples
import OpenBoot.Driver.Verification
import OpenBoot.Factory.Blessing
import OpenBoot.Factory.Compose
import OpenBoot.Factory.FirstUpdate
import OpenBoot.Generator.Agreement
import OpenBoot.Generator.Header
import OpenBoot.Generator.Macros
import OpenBoot.Host.Acceptance
import OpenBoot.Host.Bundle
import OpenBoot.Host.Calls
import OpenBoot.Host.Client
import OpenBoot.Host.Damage
import OpenBoot.Host.Demultiplexing
import OpenBoot.Host.DeviceInfo
import OpenBoot.Host.Flows
import OpenBoot.Host.Frame
import OpenBoot.Host.Framing
import OpenBoot.Host.Guarded
import OpenBoot.Host.HexGrammar
import OpenBoot.Host.HexRecord
import OpenBoot.Host.Image
import OpenBoot.Host.IntelHex
import OpenBoot.Host.IntelImage
import OpenBoot.Host.Maintenance
import OpenBoot.Host.Planning
import OpenBoot.Host.Releasing
import OpenBoot.Host.Rereading
import OpenBoot.Host.Tunnel
import OpenBoot.Host.Variants
import OpenBoot.Host.Verifying
import OpenBoot.Memory.Filling
import OpenBoot.Memory.Nor
import OpenBoot.Memory.Tiling
import OpenBoot.Port.Device
import OpenBoot.Port.Effects
import OpenBoot.Port.Flash
import OpenBoot.Semantics.Duplex
import OpenBoot.Semantics.Failure
import OpenBoot.Semantics.Interference
import OpenBoot.Semantics.Loop
import OpenBoot.Semantics.Program
import OpenBoot.Semantics.Transition
import OpenBoot.Transport.Control
import OpenBoot.Transport.Enumeration
import OpenBoot.Transport.Reports
import OpenBoot.Transport.Sie
import OpenBoot.Transport.Uart
import OpenBoot.Transport.Usb
import OpenBoot.Update.Attestation
import OpenBoot.Update.Availability
import OpenBoot.Update.Bench
import OpenBoot.Update.Discipline
import OpenBoot.Update.Erasure
import OpenBoot.Update.Generations
import OpenBoot.Update.Handlers
import OpenBoot.Update.Idle
import OpenBoot.Update.Interruption
import OpenBoot.Update.Ledger
import OpenBoot.Update.PortContract
import OpenBoot.Update.Rearming
import OpenBoot.Update.Representation
import OpenBoot.Update.Retry
import OpenBoot.Update.Serving
import OpenBoot.Update.Soundness
import OpenBoot.Update.Staleness
import OpenBoot.Update.Updater
import OpenBoot.Wire.Attesting
import OpenBoot.Wire.Burst
import OpenBoot.Wire.Codec
import OpenBoot.Wire.Deframing
import OpenBoot.Wire.Duplicates
import OpenBoot.Wire.Erasing
import OpenBoot.Wire.Flashing
import OpenBoot.Wire.Link
import OpenBoot.Wire.Phases
import OpenBoot.Wire.Receiver
import OpenBoot.Wire.Report
import OpenBoot.Wire.Rollout
import OpenBoot.Wire.Sparing
import OpenBoot.Wire.Verifying
