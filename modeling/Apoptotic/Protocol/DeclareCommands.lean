import Apoptotic.Lib.Takers
import Apoptotic.Player.ClientText
import Mathlib.Logic.Relation

/-!
# The command tree

`DeclareCommands` of `mc-protocol/src/packets/play.rs`: the tree of the commands with their known
subcommands, and its bytes.  A taker that follows the flags says what a client reads in these.

Principal results: `fromCommandNames_refers`, `fromCommandNames_reachable`, `consumed_iff` — the indices of
the tree and its bytes, for all commands; `commandTree_wellFormed_iff` — every node carries its name too exactly
when no command of the list has subcommands.
-/

namespace Apoptotic.CommandTree

open Bytes Takers Enchant

structure CommandNode where
  flags : Byte
  children : List (BitVec 32)
  redirectNode : Option (BitVec 32)
  name : String
  parserId : Option String
  suggestionsType : Option String

structure DeclareCommands where
  nodes : List CommandNode
  rootIndex : BitVec 32

/-! ## The tree -/

def rootNode : CommandNode := ⟨0, [], none, "", none, none⟩

/-- The nodes and the children of the root so far. -/
structure Builder where
  nodes : List CommandNode
  rootChildren : List (BitVec 32)

/-- Subcommands that all take a string. -/
def strings (names : List String) : List (String × String) := names.map fun n => (n, "brigadier:string")

/-- `subcommands` -/
def subcommands : List (String × List (String × String)) := [
  ("gamemode", strings ["survival", "creative", "adventure", "spectator"]),
  ("time", [("set", "brigadier:string"), ("add", "brigadier:integer"),
    ("query", "brigadier:string")]),
  ("weather", strings ["clear", "rain", "thunder"]),
  ("difficulty", strings ["peaceful", "easy", "normal", "hard"]),
  ("effect", strings ["give", "clear"]),
  ("scoreboard", strings ["objectives", "players"]),
  ("bossbar", strings ["add", "remove", "set", "list"]),
  ("team", strings ["add", "remove", "join", "leave", "list"]),
  ("tick", [("freeze", "brigadier:string"), ("unfreeze", "brigadier:string"),
    ("sprint", "brigadier:integer"), ("query", "brigadier:string")]),
  ("execute", strings ["as", "at", "run", "if", "unless", "store", "align", "rotated",
    "anchored", "facing", "positioned"]),
  ("whitelist", strings ["add", "remove", "list", "on", "off", "reload"]),
  ("worldborder", [("set", "brigadier:double"), ("center", "brigadier:string"),
    ("add", "brigadier:double"), ("get", "brigadier:string"), ("damage", "brigadier:string"),
    ("warning", "brigadier:string")]),
  ("data", strings ["get", "merge", "remove", "modify"]),
  ("attribute", strings ["get", "set", "list"]),
  ("recipe", strings ["give", "take"]),
  ("forceload", strings ["add", "remove", "query"]),
  ("item", strings ["replace", "modify"]),
  ("xp", [("add", "brigadier:integer"), ("set", "brigadier:integer"),
    ("query", "brigadier:string")]),
  ("title", strings ["title", "subtitle", "actionbar", "clear", "reset"]),
  ("tag", strings ["add", "remove", "list"]),
  ("ride", strings ["mount", "dismount"]),
  ("debug", strings ["start", "stop"]),
  ("banlist", strings ["ips", "players"]),
  ("gamerule", [("doMobSpawning", "brigadier:bool"), ("doWeatherCycle", "brigadier:bool"),
    ("doDaylightCycle", "brigadier:bool"), ("keepInventory", "brigadier:bool"),
    ("doFireTick", "brigadier:bool")]),
  ("spectate", strings ["entity"]),
  ("defaultgamemode", strings ["survival", "creative", "adventure", "spectator"]),
  ("fillbiome", strings ["from", "to"]),
  ("trigger", [("add", "brigadier:integer"), ("set", "brigadier:integer")]),
  ("ban", strings ["target", "reason"]),
  ("kick", strings ["target", "reason"]),
  ("pardon", strings ["target"]),
  ("msg", strings ["target", "message"]),
  ("say", strings ["message"]),
  ("stop", []),
  ("save-all", strings ["flush"]),
  ("list", strings ["uuids"]),
  ("seed", []),
  ("locate", strings ["structure", "biome", "poi"]),
  ("clone", strings ["begin", "end", "destination"]),
  ("fill", strings ["from", "to", "block"]),
  ("setblock", strings ["pos", "block"]),
  ("kill", strings ["target"]),
  ("clear", strings ["target", "item"]),
  ("playsound", strings ["sound", "target", "pos"]),
  ("stopsound", strings ["target"]),
  ("spreadplayers", [("center", "brigadier:string"), ("distance", "brigadier:float"),
    ("range", "brigadier:float"), ("targets", "brigadier:string")]),
  ("damage", [("target", "brigadier:string"), ("amount", "brigadier:float")]),
  ("enchant", [("target", "brigadier:string"), ("enchantment", "brigadier:string"),
    ("level", "brigadier:integer")]),
  ("publish", [("port", "brigadier:integer")]),
  ("save-on", []),
  ("save-off", []),
  ("spawnpoint", strings ["target", "pos"]),
  ("setworldspawn", strings ["pos"]),
  ("reload", strings ["difficulty"]),
  ("transfer", [("player", "brigadier:string"), ("host", "brigadier:string"),
    ("port", "brigadier:integer")]),
  ("me", strings ["action"]),
  ("status", []),
  ("help", [])]

/-- `subcommands.get(name)`, with nothing for an unknown name. -/
def subcommandsOf (name : String) : List (String × String) := (subcommands.lookup name).getD []

def subNode (sub : String × String) : CommandNode where
  flags := 1
  children := []
  redirectNode := none
  name := sub.1
  parserId := some sub.2
  suggestionsType := some "ask_server"

/-- One iteration of the inner loop: the nodes and `cmd_children`. -/
def addSub (s : List CommandNode × List (BitVec 32)) (sub : String × String) :
    List CommandNode × List (BitVec 32) :=
  (s.1 ++ [subNode sub], s.2 ++ [BitVec.ofNat 32 s.1.length])

def commandNode (name : String) (cmdChildren : List (BitVec 32)) : CommandNode where
  flags := if cmdChildren.isEmpty then 1 else 0
  children := cmdChildren
  redirectNode := none
  name := name
  parserId := some "brigadier:string"
  suggestionsType := some "ask_server"

namespace Builder

def new : Builder := ⟨[rootNode], []⟩

/-- One iteration of the loop over the names. -/
def addCommand (b : Builder) (name : String) : Builder :=
  let (nodes, cmdChildren) := (subcommandsOf name).foldl addSub (b.nodes, [])
  { nodes := nodes ++ [commandNode name cmdChildren]
    rootChildren := b.rootChildren ++ [BitVec.ofNat 32 nodes.length] }

/-- `nodes[0].children = root_children` -/
def finish (b : Builder) : DeclareCommands where
  nodes := b.nodes.modify 0 fun root => { root with children := b.rootChildren }
  rootIndex := 0

end Builder

def fromCommandNames (names : List String) : DeclareCommands :=
  (names.foldl Builder.addCommand Builder.new).finish

/-! ## Its bytes -/

def writeString (s : String) : List Byte :=
  writeVarint (BitVec.ofNat 32 (utf8Bytes s).length) ++ utf8Bytes s

/-- `has_redirect` -/
def hasRedirect (flags : Byte) : Bool := flags &&& 0x02 ≠ 0

def hasName (flags : Byte) : Bool := flags ≠ 0

def hasParser (flags : Byte) : Bool := flags &&& 0x01 = 0 ∧ flags &&& 0x04 ≠ 0

/-- `has_suggestions` -/
def hasSuggestions (flags : Byte) : Bool := flags &&& 0x04 ≠ 0

def CommandNode.encode (node : CommandNode) : List Byte :=
  node.flags :: (writeVarint (BitVec.ofNat 32 node.children.length) ++
    node.children.flatMap writeVarint ++
    (if hasRedirect node.flags then writeVarint (node.redirectNode.getD 0) else []) ++
    (if hasName node.flags then writeString node.name else []) ++
    (if hasParser node.flags then writeString (node.parserId.getD "brigadier:string") else []) ++
    (if hasSuggestions node.flags then writeString (node.suggestionsType.getD "ask_server") else []))

def DeclareCommands.encoder (d : DeclareCommands) : PacketEncoder where
  packetId := 0x10
  encodePayload := writeVarint (BitVec.ofNat 32 d.nodes.length) ++
    d.nodes.flatMap CommandNode.encode ++ writeVarint d.rootIndex

/-! ## What a client reads -/

def takeByte : Taker Byte Byte
  | [] => none
  | b :: rest => some (b, rest)

def takeVarint : Taker Byte (BitVec 32) := fun data =>
  match readVarint data with
  | .ok (v, n) => some (v, data.drop n)
  | _ => none

/-- A length is not negative. -/
def takeLength : Taker Byte Nat := mapped takeVarint fun v => if 0 ≤ v.toInt then some v.toNat else none

def takeString : Taker Byte String := mapped (counted takeLength takeByte) fun bytes =>
  String.fromUTF8? (bytes.map UInt8.ofBitVec).toByteArray

/-- A node as it is written: the fields its flags ask for. -/
structure WireNode where
  flags : Byte
  children : List (BitVec 32)
  redirect : Option (BitVec 32)
  name : Option String
  parser : Option String
  suggestions : Option String

/-- The fields, nested as they are read. -/
abbrev Fields :=
  Byte × List (BitVec 32) × Option (BitVec 32) × Option String × Option String × Option String

def WireNode.fields (w : WireNode) : Fields :=
  (w.flags, w.children, w.redirect, w.name, w.parser, w.suggestions)

def WireNode.ofFields (f : Fields) : WireNode := ⟨f.1, f.2.1, f.2.2.1, f.2.2.2.1, f.2.2.2.2.1, f.2.2.2.2.2⟩

def takeFields : Taker Byte Fields :=
  pair takeByte fun flags => pair (counted takeLength takeVarint) fun _ =>
    pair (optional (hasRedirect flags) takeVarint) fun _ =>
      pair (optional (hasName flags) takeString) fun _ =>
        pair (optional (hasParser flags) takeString) fun _ =>
          optional (hasSuggestions flags) takeString

def takeNode : Taker Byte WireNode := mapped takeFields fun f => some (.ofFields f)

/-- The nodes and the root index. -/
def takeTree : Taker Byte (List WireNode × BitVec 32) := pair (counted takeLength takeNode) fun _ => takeVarint

/-- What the encoder writes of a node. -/
def CommandNode.written (node : CommandNode) : WireNode where
  flags := node.flags
  children := node.children
  redirect := if hasRedirect node.flags then some (node.redirectNode.getD 0) else none
  name := if hasName node.flags then some node.name else none
  parser := if hasParser node.flags then some (node.parserId.getD "brigadier:string") else none
  suggestions := if hasSuggestions node.flags then some (node.suggestionsType.getD "ask_server") else none

/-! ## Well-formed trees -/

namespace DeclareCommands

variable (d : DeclareCommands)

/-- The index is that of a node. -/
def Refers (c : BitVec 32) : Prop := 0 ≤ c.toInt ∧ c.toInt < d.nodes.length

/-- The node at `j` is a child of the one at `i`. -/
def Points (i j : Nat) : Prop := ∃ node, d.nodes[i]? = some node ∧ ∃ c ∈ node.children, c.toInt = j

def Reachable (i : Nat) : Prop := Relation.ReflTransGen d.Points d.rootIndex.toNat i

/-- All nodes but the root are literals or arguments, and these are written with their name. -/
def Named : Prop := ∀ i node, d.nodes[i]? = some node →
  node.written.name = if i = d.rootIndex.toNat then none else some node.name

/-- **The bytes are read to their end, as the nodes that were written.** -/
def Consumed : Prop :=
  takeTree d.encoder.encodePayload = some ((d.nodes.map CommandNode.written, d.rootIndex), [])

structure WellFormed : Prop where
  children : ∀ node ∈ d.nodes, ∀ c ∈ node.children, d.Refers c
  root : d.Refers d.rootIndex
  reachable : ∀ i < d.nodes.length, d.Reachable i
  named : d.Named
  consumed : d.Consumed

end DeclareCommands

/-! ## The takers -/

theorem reads_takeByte : Reads takeByte (fun b => [b]) fun _ => True where
  back := fun _ _ _ => rfl
  sound := fun _ => trivial

theorem reads_takeVarint : Reads takeVarint writeVarint fun _ => True where
  back := by
    intro v rest _
    rw [takeVarint, readVarint_writeVarint]
    simp
  sound := fun _ => trivial

theorem toNat_ofNat_of_lt {n : Nat} (h : n < 2 ^ 31) : (BitVec.ofNat 32 n).toNat = n := by
  rw [BitVec.toNat_ofNat, Nat.mod_eq_of_lt (by omega)]

theorem toInt_ofNat_of_lt {n : Nat} (h : n < 2 ^ 31) : (BitVec.ofNat 32 n).toInt = n := by
  rw [BitVec.toInt_eq_toNat_cond, toNat_ofNat_of_lt h, if_pos (by omega)]

theorem reads_takeLength :
    Reads takeLength (fun n => writeVarint (BitVec.ofNat 32 n)) fun n => n < 2 ^ 31 := by
  refine reads_takeVarint.mapped (BitVec.ofNat 32) ?_ ?_
  · intro n hn
    refine ⟨trivial, ?_⟩
    rw [toInt_ofNat_of_lt hn, if_pos (by omega), toNat_ofNat_of_lt hn]
  · intro v n _ hv
    have hint := BitVec.toInt_eq_toNat_cond v
    split at hv
    · cases hv
      split at hint <;> omega
    · cases hv

theorem toUTF8_of_fromUTF8? {bytes : ByteArray} {s : String} (h : String.fromUTF8? bytes = some s) :
    s.toUTF8 = bytes := by
  unfold String.fromUTF8? at h
  split at h
  · cases h
    rfl
  · cases h

theorem fromUTF8?_utf8Bytes (s : String) :
    String.fromUTF8? ((utf8Bytes s).map UInt8.ofBitVec).toByteArray = some s := by
  have h := fromUtf8_utf8Bytes s
  unfold fromUtf8 at h
  split at h
  · rename_i s' hs
    cases h
    exact hs
  · cases h

theorem reads_takeString : Reads takeString writeString fun s => s.utf8ByteSize < 2 ^ 31 := by
  have henc : (fun s => writeVarint (BitVec.ofNat 32 (utf8Bytes s).length) ++
      (utf8Bytes s).flatMap fun b => [b]) = writeString :=
    funext fun s => by rw [writeString, List.flatMap_singleton']
  rw [← henc]
  refine (reads_takeLength.counted reads_takeByte).mapped utf8Bytes ?_ ?_
  · intro s hs
    rw [length_utf8Bytes]
    exact ⟨⟨hs, fun _ _ => trivial⟩, fromUTF8?_utf8Bytes s⟩
  · rintro bytes s ⟨hlen, -⟩ hs
    have hsize := congrArg ByteArray.size (toUTF8_of_fromUTF8? hs)
    simp only [String.toUTF8, List.size_toByteArray, List.length_map] at hsize
    change s.toByteArray.size < 2 ^ 31
    omega

/-- The lengths of what is written of a node fit. -/
structure WireNode.Fits (w : WireNode) : Prop where
  children : w.children.length < 2 ^ 31
  redirect : w.redirect.isSome = hasRedirect w.flags
  name : w.name.isSome = hasName w.flags ∧ ∀ s, w.name = some s → s.utf8ByteSize < 2 ^ 31
  parser : w.parser.isSome = hasParser w.flags ∧ ∀ s, w.parser = some s → s.utf8ByteSize < 2 ^ 31
  suggestions : w.suggestions.isSome = hasSuggestions w.flags ∧
    ∀ s, w.suggestions = some s → s.utf8ByteSize < 2 ^ 31

def WireNode.encode (w : WireNode) : List Byte :=
  [w.flags] ++ ((writeVarint (BitVec.ofNat 32 w.children.length) ++ w.children.flatMap writeVarint) ++
    (encOption writeVarint w.redirect ++ (encOption writeString w.name ++
      (encOption writeString w.parser ++ encOption writeString w.suggestions))))

theorem reads_takeNode : Reads takeNode WireNode.encode WireNode.Fits := by
  have hfields := reads_takeByte.pair fun flags =>
    (reads_takeLength.counted reads_takeVarint).pair fun _ =>
      (reads_takeVarint.optional (hasRedirect flags)).pair fun _ =>
        (reads_takeString.optional (hasName flags)).pair fun _ =>
          (reads_takeString.optional (hasParser flags)).pair fun _ =>
            reads_takeString.optional (hasSuggestions flags)
  refine hfields.mapped WireNode.fields ?_ ?_
  · intro w hw
    exact ⟨⟨trivial, ⟨hw.children, fun _ _ => trivial⟩, ⟨hw.redirect, fun _ _ => trivial⟩, hw.name,
      hw.parser, hw.suggestions⟩, rfl⟩
  · rintro f w ⟨-, ⟨hchildren, -⟩, ⟨hredirect, -⟩, hname, hparser, hsuggestions⟩ heq
    cases heq
    exact ⟨hchildren, hredirect, hname, hparser, hsuggestions⟩

theorem reads_takeTree : Reads takeTree
    (fun t => (writeVarint (BitVec.ofNat 32 t.1.length) ++ t.1.flatMap WireNode.encode) ++
      writeVarint t.2) fun t => (t.1.length < 2 ^ 31 ∧ ∀ w ∈ t.1, w.Fits) ∧ True :=
  (reads_takeLength.counted reads_takeNode).pair fun _ => reads_takeVarint

theorem encode_written (node : CommandNode) : node.written.encode = node.encode := by
  have henc : ∀ (there : Bool) {α : Type} (enc : α → List Byte) (a : α),
      encOption enc (if there then some a else none) = if there then enc a else [] := by
    intro there α enc a
    cases there <;> rfl
  unfold WireNode.encode CommandNode.written CommandNode.encode
  simp only [henc, List.append_assoc, List.singleton_append]

/-- **The bytes are read to their end exactly when the nodes can be counted and all that is written of
each fits.** -/
theorem consumed_iff_fits (d : DeclareCommands) :
    d.Consumed ↔ d.nodes.length < 2 ^ 31 ∧ ∀ node ∈ d.nodes, node.written.Fits := by
  have hwhole := reads_takeTree.whole_iff (d.nodes.map CommandNode.written, d.rootIndex)
  have hbytes : (d.nodes.map CommandNode.written).flatMap WireNode.encode =
      d.nodes.flatMap CommandNode.encode := by
    rw [List.flatMap_map]
    exact congrArg d.nodes.flatMap (funext encode_written)
  simp only [hbytes, List.length_map, List.forall_mem_map, and_true] at hwhole
  exact hwhole

/-! ## Indices -/

theorem foldl_addSub (subs : List (String × String)) (nodes : List CommandNode)
    (children : List (BitVec 32)) :
    subs.foldl addSub (nodes, children) = (nodes ++ subs.map subNode,
      children ++ (List.range' nodes.length subs.length).map (BitVec.ofNat 32)) := by
  induction subs generalizing nodes children with
  | nil => simp
  | cons sub subs ih =>
      rw [List.foldl_cons, addSub, ih]
      simp [List.range'_succ]

namespace Builder

/-- The children of a command whose first subcommand is the node at `n`. -/
def childrenFrom (n : Nat) (name : String) : List (BitVec 32) :=
  (List.range' n (subcommandsOf name).length).map (BitVec.ofNat 32)

theorem addCommand_eq (b : Builder) (name : String) : b.addCommand name =
    ⟨b.nodes ++ ((subcommandsOf name).map subNode ++
        [commandNode name (childrenFrom b.nodes.length name)]),
      b.rootChildren ++ [BitVec.ofNat 32 (b.nodes.length + (subcommandsOf name).length)]⟩ := by
  rw [addCommand, foldl_addSub]
  simp [childrenFrom]

/-- Children are nodes, and every node but the root is a command, listed for the root, or the child of
one. -/
structure Linked (b : Builder) : Prop where
  root : ∃ rest, b.nodes = rootNode :: rest
  counts : ∀ node ∈ b.nodes, node.children.length < b.nodes.length
  rootCount : b.rootChildren.length < b.nodes.length
  children : ∀ node ∈ b.nodes, ∀ c ∈ node.children, ∃ i < b.nodes.length, c = BitVec.ofNat 32 i
  commands : ∀ c ∈ b.rootChildren, ∃ i < b.nodes.length, c = BitVec.ofNat 32 i
  reached : ∀ i, 0 < i → i < b.nodes.length → BitVec.ofNat 32 i ∈ b.rootChildren ∨
    ∃ j node, 0 < j ∧ BitVec.ofNat 32 j ∈ b.rootChildren ∧ b.nodes[j]? = some node ∧
      BitVec.ofNat 32 i ∈ node.children

theorem linked_new : Linked new where
  root := ⟨[], rfl⟩
  counts := by
    intro node hnode
    rw [List.mem_singleton.1 hnode]
    exact Nat.one_pos
  rootCount := Nat.one_pos
  children := by
    intro node hnode c hc
    rw [List.mem_singleton.1 hnode] at hc
    cases hc
  commands := List.forall_mem_nil _
  reached := by
    intro i hpos hlt
    exact absurd hlt (by simp [new]; omega)

/-- A command keeps the tree linked. -/
theorem Linked.addCommand {b : Builder} (h : b.Linked) (name : String) : (b.addCommand name).Linked := by
  rw [addCommand_eq]
  generalize hn : b.nodes.length = n
  generalize hm : (subcommandsOf name).length = m
  have hlen : (b.nodes ++ ((subcommandsOf name).map subNode ++
      [commandNode name (childrenFrom n name)])).length = n + m + 1 := by
    simp [hn, hm]
    omega
  have hmono : ∀ {c : BitVec 32}, (∃ i < b.nodes.length, c = BitVec.ofNat 32 i) →
      ∃ i < n + m + 1, c = BitVec.ofNat 32 i := by
    rintro c ⟨i, hi, hc⟩
    exact ⟨i, by omega, hc⟩
  refine ⟨?_, ?_, ?_, ?_, ?_, ?_⟩
  · obtain ⟨rest, hrest⟩ := h.root
    exact ⟨_, by rw [hrest, List.cons_append]⟩
  · intro node hnode
    rw [hlen]
    simp only [List.mem_append, List.mem_map, List.mem_singleton] at hnode
    rcases hnode with hnode | ⟨sub, -, rfl⟩ | rfl
    · have hold := h.counts node hnode
      omega
    · simp [subNode]
    · simp only [commandNode, childrenFrom, List.length_map, List.length_range', hm]
      omega
  · have hold := h.rootCount
    rw [hlen, List.length_append, List.length_singleton]
    omega
  · intro node hnode c hc
    rw [hlen]
    simp only [List.mem_append, List.mem_map, List.mem_singleton] at hnode
    rcases hnode with hnode | ⟨sub, -, rfl⟩ | rfl
    · exact hmono (h.children node hnode c hc)
    · cases hc
    · obtain ⟨i, hi, rfl⟩ := List.mem_map.1 hc
      rw [List.mem_range'_1, hm] at hi
      exact ⟨i, by omega, rfl⟩
  · intro c hc
    rw [hlen]
    rcases List.mem_append.1 hc with hc | hc
    · exact hmono (h.commands c hc)
    · exact ⟨n + m, by omega, List.mem_singleton.1 hc⟩
  · intro i hpos hi
    rw [hlen] at hi
    rcases Nat.lt_or_ge i n with hold | hnew
    · rcases h.reached i hpos (hn ▸ hold) with hc | ⟨j, node, hj, hjc, hnode, hi'⟩
      · exact .inl (List.mem_append_left _ hc)
      · refine .inr ⟨j, node, hj, List.mem_append_left _ hjc, ?_, hi'⟩
        obtain ⟨hlt, -⟩ := List.getElem?_eq_some_iff.1 hnode
        rw [List.getElem?_append_left hlt, hnode]
    · rcases Nat.lt_or_ge i (n + m) with hsub | hcmd
      · -- a subcommand: a child of the command behind it
        refine .inr ⟨n + m, commandNode name (childrenFrom n name), by omega,
          List.mem_append_right _ (List.mem_singleton.2 rfl), ?_, ?_⟩
        · rw [List.getElem?_append_right (by omega), List.getElem?_append_right (by simp; omega)]
          simp [hn, hm]
        · exact List.mem_map_of_mem (List.mem_range'_1.2 (by omega))
      · obtain rfl : i = n + m := by omega
        exact .inl (List.mem_append_right _ (List.mem_singleton.2 rfl))

theorem linked_foldl (names : List String) {b : Builder} (h : b.Linked) :
    (names.foldl addCommand b).Linked := by
  induction names generalizing b with
  | nil => exact h
  | cons name names ih => exact ih (h.addCommand name)

theorem finish_nodes {b : Builder} {rest : List CommandNode} (h : b.nodes = rootNode :: rest) :
    b.finish.nodes = { rootNode with children := b.rootChildren } :: rest := by
  rw [finish, h]
  rfl

end Builder

/-- The builder behind the tree, and its nodes but the root. -/
theorem fromCommandNames_cases (names : List String) : ∃ (b : Builder) (rest : List CommandNode),
    b = names.foldl Builder.addCommand Builder.new ∧ b.Linked ∧ b.nodes = rootNode :: rest ∧
      (fromCommandNames names).nodes = { rootNode with children := b.rootChildren } :: rest := by
  have hlinked := Builder.linked_foldl names Builder.linked_new
  obtain ⟨rest, hrest⟩ := hlinked.root
  exact ⟨_, rest, rfl, hlinked, hrest, Builder.finish_nodes hrest⟩

/-- **Every child and root index of the tree is that of a node.** -/
theorem fromCommandNames_refers {names : List String}
    (h : (fromCommandNames names).nodes.length ≤ 2 ^ 31) :
    (∀ node ∈ (fromCommandNames names).nodes, ∀ c ∈ node.children,
      (fromCommandNames names).Refers c) ∧
      (fromCommandNames names).Refers (fromCommandNames names).rootIndex := by
  obtain ⟨b, rest, -, hlinked, hrest, hnodes⟩ := fromCommandNames_cases names
  have hlen : (fromCommandNames names).nodes.length = b.nodes.length := by
    rw [hnodes, hrest, List.length_cons, List.length_cons]
  have hrefers : ∀ c, (∃ i < b.nodes.length, c = BitVec.ofNat 32 i) →
      (fromCommandNames names).Refers c := by
    rintro c ⟨i, hi, rfl⟩
    rw [DeclareCommands.Refers, toInt_ofNat_of_lt (by omega)]
    omega
  constructor
  · intro node hnode c hc
    rw [hnodes] at hnode
    rcases List.mem_cons.1 hnode with rfl | hnode
    · exact hrefers c (hlinked.commands c hc)
    · exact hrefers c (hlinked.children node (hrest ▸ List.mem_cons_of_mem _ hnode) c hc)
  · exact hrefers 0 ⟨0, by simp [hrest], rfl⟩

/-- **Every node of the tree is reachable from the root.** -/
theorem fromCommandNames_reachable {names : List String}
    (h : (fromCommandNames names).nodes.length ≤ 2 ^ 31) :
    ∀ i < (fromCommandNames names).nodes.length, (fromCommandNames names).Reachable i := by
  obtain ⟨b, rest, -, hlinked, hrest, hnodes⟩ := fromCommandNames_cases names
  have hlen : (fromCommandNames names).nodes.length = b.nodes.length := by
    rw [hnodes, hrest, List.length_cons, List.length_cons]
  have hcommand : ∀ j < b.nodes.length, BitVec.ofNat 32 j ∈ b.rootChildren →
      (fromCommandNames names).Points 0 j := by
    intro j hj hjc
    refine ⟨_, by rw [hnodes]; rfl, _, hjc, toInt_ofNat_of_lt (by omega)⟩
  intro i hi
  rcases Nat.eq_zero_or_pos i with rfl | hpos
  · exact Relation.ReflTransGen.refl
  · rcases hlinked.reached i hpos (hlen ▸ hi) with hc | ⟨j, node, hj, hjc, hnode, hi'⟩
    · exact .single (hcommand i (hlen ▸ hi) hc)
    · obtain ⟨hlt, -⟩ := List.getElem?_eq_some_iff.1 hnode
      refine .tail (.single (hcommand j hlt hjc)) ⟨node, ?_, _, hi', toInt_ofNat_of_lt (by omega)⟩
      obtain ⟨k, rfl⟩ := Nat.exists_eq_succ_of_ne_zero (Nat.pos_iff_ne_zero.1 hj)
      rw [hrest] at hnode
      rw [hnodes]
      exact hnode

/-! ## Names -/

/-- The flags and the name of a node. -/
def CommandNode.label (node : CommandNode) : Byte × String := (node.flags, node.name)

/-- The labels that one command adds. -/
def labels (name : String) : List (Byte × String) :=
  (subcommandsOf name).map (fun sub => (1, sub.1)) ++
    [(if subcommandsOf name = [] then 1 else 0, name)]

theorem map_label_addCommand (b : Builder) (name : String) :
    (b.addCommand name).nodes.map CommandNode.label = b.nodes.map CommandNode.label ++ labels name := by
  rw [Builder.addCommand_eq]
  have hempty : (Builder.childrenFrom b.nodes.length name).isEmpty = true ↔ subcommandsOf name = [] := by
    simp [Builder.childrenFrom]
  simp only [List.map_append, List.map_map, labels, List.map_cons, List.map_nil]
  simp only [CommandNode.label, commandNode, hempty]
  rfl

theorem map_label_foldl (names : List String) (b : Builder) :
    (names.foldl Builder.addCommand b).nodes.map CommandNode.label =
      b.nodes.map CommandNode.label ++ names.flatMap labels := by
  induction names generalizing b with
  | nil => simp
  | cons name names ih =>
      rw [List.foldl_cons, ih, map_label_addCommand, List.flatMap_cons, List.append_assoc]

/-- The labels of all nodes but the root. -/
theorem map_label_rest {names : List String} {b : Builder} {rest : List CommandNode}
    (hb : b = names.foldl Builder.addCommand Builder.new) (hrest : b.nodes = rootNode :: rest) :
    rest.map CommandNode.label = names.flatMap labels := by
  have hmap := map_label_foldl names Builder.new
  rw [← hb, hrest] at hmap
  exact List.tail_eq_of_cons_eq hmap

theorem mem_flatMap_labels {names : List String} {l : Byte × String} :
    l ∈ names.flatMap labels ↔ ∃ name ∈ names, (∃ sub ∈ subcommandsOf name, l = (1, sub.1)) ∨
      l = (if subcommandsOf name = [] then 1 else 0, name) := by
  simp only [labels, List.mem_flatMap, List.mem_append, List.mem_map, List.mem_singleton, eq_comm]

/-- **All nodes but the root are written with their name exactly when no command has subcommands.** -/
theorem named_iff (names : List String) :
    (fromCommandNames names).Named ↔ ∀ name ∈ names, subcommandsOf name = [] := by
  obtain ⟨b, rest, hb, -, hrest, hnodes⟩ := fromCommandNames_cases names
  have hlabels := map_label_rest hb hrest
  have hflags : (fromCommandNames names).Named ↔ ∀ l ∈ names.flatMap labels, l.1 ≠ 0 := by
    rw [← hlabels, List.forall_mem_map]
    constructor
    · intro h node hnode h0
      obtain ⟨i, hi⟩ := List.getElem?_of_mem hnode
      have hname := h (i + 1) node (by rw [hnodes]; exact hi)
      have hroot : i + 1 ≠ (fromCommandNames names).rootIndex.toNat := Nat.succ_ne_zero i
      rw [if_neg hroot, CommandNode.written] at hname
      simp only [CommandNode.label] at h0
      simp [h0, hasName] at hname
    · intro h i node hi
      rw [hnodes] at hi
      cases i with
      | zero =>
          cases hi
          rfl
      | succ i =>
          have hne : node.flags ≠ 0 := h node (List.mem_of_getElem? hi)
          have hroot : i + 1 ≠ (fromCommandNames names).rootIndex.toNat := Nat.succ_ne_zero i
          have hname : hasName node.flags = true := decide_eq_true hne
          rw [if_neg hroot, CommandNode.written, if_pos hname]
  have one_ne : (1 : Byte) ≠ 0 := by decide
  rw [hflags]
  constructor
  · intro h name hname
    by_contra hsubs
    have hlabel := h (0, name) (mem_flatMap_labels.2 ⟨name, hname, .inr (by rw [if_neg hsubs])⟩)
    exact hlabel rfl
  · intro h l hl
    obtain ⟨name, hname, ⟨sub, -, rfl⟩ | rfl⟩ := mem_flatMap_labels.1 hl
    · exact one_ne
    · rw [if_pos (h name hname)]
      exact one_ne

theorem subcommands_short : ∀ e ∈ subcommands, ∀ sub ∈ e.2, sub.1.utf8ByteSize < 2 ^ 31 := by
  decide +kernel

theorem subcommandsOf_short {name : String} {sub : String × String} (h : sub ∈ subcommandsOf name) :
    sub.1.utf8ByteSize < 2 ^ 31 := by
  unfold subcommandsOf at h
  cases hlookup : subcommands.lookup name with
  | none =>
      rw [hlookup] at h
      cases h
  | some subs =>
      rw [hlookup] at h
      obtain ⟨e, he, rfl⟩ : ∃ e ∈ subcommands, e.2 = subs := by
        rw [List.lookup_eq_some_iff] at hlookup
        obtain ⟨before, after, hsplit, -⟩ := hlookup
        exact ⟨(name, subs), by rw [hsplit]; simp, rfl⟩
      exact subcommands_short e he sub h

/-- What is written of a literal or of a nameless node fits when its name does. -/
theorem fits_written {node : CommandNode} (hchildren : node.children.length < 2 ^ 31)
    (hflags : node.flags = 0 ∨ node.flags = 1) :
    node.written.Fits ↔ (node.flags = 1 → node.name.utf8ByteSize < 2 ^ 31) := by
  have hredirect : hasRedirect node.flags = false := by rcases hflags with h | h <;> rw [h] <;> rfl
  have hparser : hasParser node.flags = false := by rcases hflags with h | h <;> rw [h] <;> rfl
  have hsuggestions : hasSuggestions node.flags = false := by rcases hflags with h | h <;> rw [h] <;> rfl
  have hname : hasName node.flags = true ↔ node.flags = 1 := by
    rcases hflags with h | h <;> rw [h] <;> decide
  constructor
  · intro h h1
    exact h.name.2 node.name (by rw [CommandNode.written, if_pos (hname.2 h1)])
  · intro h
    refine ⟨hchildren, ?_, ⟨?_, ?_⟩, ⟨?_, ?_⟩, ⟨?_, ?_⟩⟩
    · simp [CommandNode.written, hredirect]
    · simp only [CommandNode.written]
      split <;> simp_all
    · intro s hs
      simp only [CommandNode.written] at hs
      split at hs
      · rename_i hn
        cases hs
        exact h (hname.1 hn)
      · cases hs
    · simp [CommandNode.written, hparser]
    · simp [CommandNode.written, hparser]
    · simp [CommandNode.written, hsuggestions]
    · simp [CommandNode.written, hsuggestions]

/-- **The bytes of the tree are read to their end exactly when the nodes can be counted and the names
that are written are short enough.** -/
theorem consumed_iff (names : List String) : (fromCommandNames names).Consumed ↔
    (fromCommandNames names).nodes.length < 2 ^ 31 ∧
      ∀ name ∈ names, subcommandsOf name = [] → name.utf8ByteSize < 2 ^ 31 := by
  rw [consumed_iff_fits]
  refine and_congr_right fun hlen => ?_
  obtain ⟨b, rest, hb, hlinked, hrest, hnodes⟩ := fromCommandNames_cases names
  have hsize : b.nodes.length < 2 ^ 31 := by
    rw [hnodes, List.length_cons] at hlen
    rwa [hrest, List.length_cons]
  have hlabels := map_label_rest hb hrest
  have hroot : ({ rootNode with children := b.rootChildren } : CommandNode).written.Fits := by
    rw [fits_written (by simpa using hlinked.rootCount.trans hsize) (.inl rfl)]
    intro h
    cases h
  have hfits : (∀ node ∈ rest, node.written.Fits) ↔
      ∀ l ∈ names.flatMap labels, l.1 = 1 → l.2.utf8ByteSize < 2 ^ 31 := by
    rw [← hlabels, List.forall_mem_map]
    refine forall₂_congr fun node hnode => fits_written ?_ ?_
    · exact (hlinked.counts node (hrest ▸ List.mem_cons_of_mem _ hnode)).trans hsize
    · have hlabel : node.label ∈ names.flatMap labels := hlabels ▸ List.mem_map_of_mem hnode
      obtain ⟨name, -, ⟨sub, -, heq⟩ | heq⟩ := mem_flatMap_labels.1 hlabel
      · exact .inr (congrArg Prod.fst heq)
      · have hflags : node.flags = if subcommandsOf name = [] then 1 else 0 := congrArg Prod.fst heq
        by_cases hsubs : subcommandsOf name = []
        · exact .inr (by simpa [hsubs] using hflags)
        · exact .inl (by simpa [hsubs] using hflags)
  rw [hnodes, List.forall_mem_cons, and_iff_right hroot, hfits]
  constructor
  · intro h name hname hsubs
    exact h (1, name) (mem_flatMap_labels.2 ⟨name, hname, .inr (by rw [if_pos hsubs])⟩) rfl
  · intro h l hl h1
    obtain ⟨name, hname, ⟨sub, hsub, rfl⟩ | rfl⟩ := mem_flatMap_labels.1 hl
    · exact subcommandsOf_short hsub
    · by_cases hsubs : subcommandsOf name = []
      · exact h name hname hsubs
      · rw [if_neg hsubs] at h1
        cases h1

/-! ## Well-formed trees -/

/-- The number of nodes when no command has subcommands. -/
theorem length_nodes {names : List String} (h : ∀ name ∈ names, subcommandsOf name = []) :
    (fromCommandNames names).nodes.length = names.length + 1 := by
  obtain ⟨b, rest, hb, -, hrest, hnodes⟩ := fromCommandNames_cases names
  have hlen := congrArg List.length (map_label_rest hb hrest)
  have hone : names.flatMap labels = names.map fun name => (1, name) := by
    rw [List.map_eq_flatMap]
    refine List.flatMap_congr fun name hname => ?_
    simp [labels, h name hname]
  rw [hone, List.length_map, List.length_map] at hlen
  rw [hnodes, List.length_cons, hlen]

/-- **The tree is well-formed exactly when no command has subcommands, and commands and names can be
counted.** -/
theorem commandTree_wellFormed_iff (names : List String) : (fromCommandNames names).WellFormed ↔
    (∀ name ∈ names, subcommandsOf name = [] ∧ name.utf8ByteSize < 2 ^ 31) ∧
      names.length + 1 < 2 ^ 31 := by
  constructor
  · intro h
    have hsubs := (named_iff names).1 h.named
    obtain ⟨hlen, hshort⟩ := (consumed_iff names).1 h.consumed
    rw [length_nodes hsubs] at hlen
    exact ⟨fun name hname => ⟨hsubs name hname, hshort name hname (hsubs name hname)⟩, hlen⟩
  · rintro ⟨hnames, hcount⟩
    have hsubs : ∀ name ∈ names, subcommandsOf name = [] := fun name hname => (hnames name hname).1
    have hlen := length_nodes hsubs
    have hle : (fromCommandNames names).nodes.length ≤ 2 ^ 31 := by omega
    obtain ⟨hchildren, hroot⟩ := fromCommandNames_refers hle
    have hconsumed : (fromCommandNames names).Consumed :=
      (consumed_iff names).2 ⟨by omega, fun name hname _ => (hnames name hname).2⟩
    exact ⟨hchildren, hroot, fromCommandNames_reachable (by omega), (named_iff names).2 hsubs, hconsumed⟩

/-- `gamemode` is written as a second root, without its name. -/
theorem not_wellFormed_gamemode : ¬ (fromCommandNames ["gamemode"]).WellFormed := by
  intro h
  have hsubs := (named_iff ["gamemode"]).1 h.named "gamemode" List.mem_cons_self
  simp [subcommandsOf, subcommands, strings] at hsubs

end Apoptotic.CommandTree
