import D20Tempest.Characters.RoundTrip
import D20Tempest.Characters.ValueChecks
import D20Tempest.Characters.Format
import D20Tempest.Server.HeloGate
import D20Tempest.Server.Confinement
import D20Tempest.Server.Leaving
import D20Tempest.Server.Registry
import D20Tempest.Server.Durability
import D20Tempest.Server.Segmentation
import D20Tempest.Server.Robustness
import D20Tempest.Server.Routing
import D20Tempest.Server.Copies
import D20Tempest.Server.Departure
import D20Tempest.Server.TcpServer
import D20Tempest.Server.ErrorReplies
import D20Tempest.Server.Sending
import D20Tempest.Server.Saving
import D20Tempest.Server.PartialLoads
import D20Tempest.Components.ExactModifier
import D20Tempest.Characters.Replacement
import D20Tempest.Characters.Fidelity
import D20Tempest.Characters.AbilitySets
import D20Tempest.Server.Dispatch
import D20Tempest.Server.DumpAll
import D20Tempest.Server.SilentSaves
import D20Tempest.Server.WholeDump
import D20Tempest.Server.Connections
import D20Tempest.Characters.SavedText
import D20Tempest.Server.Requests
import D20Tempest.Server.Restarts
import D20Tempest.Server.FirstCharacter
import D20Tempest.Server.Answers
import D20Tempest.Server.Bystanders
import D20Tempest.Characters.LuaFiles
import D20Tempest.Components.OwnModifier
