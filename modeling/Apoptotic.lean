import Apoptotic.Lib.PackedBits
import Apoptotic.Lib.Outcome
import Apoptotic.Lib.BestFirst
import Apoptotic.Lib.Bytes
import Apoptotic.Lib.Rounding
import Apoptotic.Lib.SelfDelimiting
import Apoptotic.Lib.Takers
import Apoptotic.Lib.Slices
import Apoptotic.Lib.Reached
import Apoptotic.Lib.Totals
import Apoptotic.Lib.GridIndex
import Apoptotic.Lib.Guards
import Apoptotic.Lib.Loops
import Apoptotic.Lib.Floats
import Apoptotic.Lib.Expansions
import Apoptotic.Lib.ExtendedRationals
import Apoptotic.Lib.FirstFit
import Apoptotic.Protocol.VarInt
import Apoptotic.Protocol.Codec
import Apoptotic.Protocol.Packets
import Apoptotic.Protocol.PacketPanics
import Apoptotic.Protocol.Positions
import Apoptotic.Protocol.FieldOffsets
import Apoptotic.World.NoiseBounds
import Apoptotic.World.Packed
import Apoptotic.World.Paletted
import Apoptotic.World.PalettedCodec
import Apoptotic.World.Chunk
import Apoptotic.World.Redstone
import Apoptotic.World.ChunkBinary
import Apoptotic.World.AnvilNbt
import Apoptotic.World.Region
import Apoptotic.World.ChunkStore
import Apoptotic.World.ChunkStoreSafety
import Apoptotic.World.ChunkLoading
import Apoptotic.World.ChunkLoadingSafety
import Apoptotic.Lib.Calls
import Apoptotic.Lib.Text
import Apoptotic.Command.Server
import Apoptotic.Command.Selectors
import Apoptotic.Command.WorldCommands
import Apoptotic.Command.PlayerCommands
import Apoptotic.Command.Dispatch
import Apoptotic.Command.Privileges
import Apoptotic.Command.Effects
import Apoptotic.Command.Escalation
import Apoptotic.Network.ChunkPackets
import Apoptotic.Network.ChunkStreaming
import Apoptotic.Player.SpatialIndex
import Apoptotic.Mob.ChunkIndex
import Apoptotic.Entity.Ids
import Apoptotic.Player.Items
import Apoptotic.Player.Recipes
import Apoptotic.Player.RecipeGrids
import Apoptotic.Plugin.Datapack
import Apoptotic.Plugin.Manager
import Apoptotic.Player.ContainerClick
import Apoptotic.Player.Containers
import Apoptotic.Server.Hoppers
import Apoptotic.Player.Crafting
import Apoptotic.Entity.Drops
import Apoptotic.Persistence.Saving
import Apoptotic.Player.TableGuards
import Apoptotic.Server.ChunkGuards
import Apoptotic.Lib.JsonText
import Apoptotic.Lib.Ladder
import Apoptotic.Player.Experience
import Apoptotic.Player.Enchant
import Apoptotic.Player.EnchantRolls
import Apoptotic.Player.ClientText
import Apoptotic.Protocol.DeclareCommands
import Apoptotic.Lib.Feedback
import Apoptotic.Network.Encryption
import Apoptotic.Network.PacketDispatch
import Apoptotic.Lib.Flood
import Apoptotic.Lib.FloodField
import Apoptotic.Lib.Search
import Apoptotic.Lib.Formulas
import Apoptotic.World.Lighting
import Apoptotic.World.SafeCalls
import Apoptotic.World.SkyLight
import Apoptotic.World.LightBorders
import Apoptotic.World.Relighting
import Apoptotic.Network.ChunkCache
import Apoptotic.Network.BlockBroadcast
import Apoptotic.World.RedstoneSettling
import Apoptotic.Lib.TwoWay
import Apoptotic.Command.TargetFilters
import Apoptotic.Command.Targets
import Apoptotic.Command.Teams
import Apoptotic.Player.Raids
import Apoptotic.Lib.Rows
import Apoptotic.Persistence.PlayerRows
import Apoptotic.Lib.Windows
import Apoptotic.Network.RateLimiter
import Apoptotic.World.ChunkCounter
import Apoptotic.Mob.Projectiles
import Apoptotic.Player.SlotBytes
import Apoptotic.Player.InventoryBytes
import Apoptotic.Player.ContainerBytes
import Apoptotic.Player.ContainerLimit
import Apoptotic.World.CorruptContainers
import Apoptotic.Lib.LastWrite
import Apoptotic.World.CorruptChunks
import Apoptotic.Network.TextComponents
import Apoptotic.Network.Visibility
import Apoptotic.Persistence.ChunkFile
import Apoptotic.Persistence.CorruptFiles
import Apoptotic.Admin.Rcon
import Apoptotic.Network.Joining
import Apoptotic.Network.OfflineLogin
import Apoptotic.Network.OnlineSet
import Apoptotic.Persistence.Rejoining
import Apoptotic.Persistence.SavedEdits
import Apoptotic.Network.LoadedViews
import Apoptotic.Lib.Draws
import Apoptotic.World.Biomes
import Apoptotic.World.Placers
import Apoptotic.World.Structures
import Apoptotic.World.Generators
import Apoptotic.Network.Movement
import Apoptotic.World.ChunkGrids
import Apoptotic.World.Reproducible
import Apoptotic.World.TerrainDraws
import Apoptotic.Lib.Rounds
import Apoptotic.World.Fluids
import Apoptotic.Player.Durability
import Apoptotic.Player.Furnace
import Apoptotic.Player.Brewing
import Apoptotic.Player.AddRemove
import Apoptotic.Player.Pathfinding
import Apoptotic.Player.PathCache
import Apoptotic.Player.Payments
import Apoptotic.Player.Effects
import Apoptotic.Player.Hunger
import Apoptotic.Player.EffectRules
import Apoptotic.Player.Protection
import Apoptotic.World.Sites
import Apoptotic.World.RedstoneRuns
import Apoptotic.World.RedstoneBudget
import Apoptotic.World.Observers
import Apoptotic.Lib.Census
import Apoptotic.World.Pistons
import Apoptotic.Lib.Cascade
import Apoptotic.World.Containment
import Apoptotic.World.Copper
import Apoptotic.Lib.Copies
import Apoptotic.Lib.OnePass
import Apoptotic.Player.Advancements
import Apoptotic.Command.Clone
import Apoptotic.World.Crops
import Apoptotic.World.Physics
import Apoptotic.World.BlockLight
import Apoptotic.World.Canvases
import Apoptotic.World.Growth
import Apoptotic.World.WriteBounds
import Apoptotic.World.SetCalls
import Apoptotic.World.Layers
import Apoptotic.World.Compositions
import Apoptotic.World.SpawnPreload
import Apoptotic.Player.Villages
import Apoptotic.Player.Beacons
import Apoptotic.Player.Gossip
import Apoptotic.Player.HurtImmunity
import Apoptotic.World.Addressing
import Apoptotic.Command.Fill
import Apoptotic.Command.Relative
