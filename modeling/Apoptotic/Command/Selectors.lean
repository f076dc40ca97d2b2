import Apoptotic.Command.Server

/-!
# Target selectors

`CommandSource`, the context of a command, and `resolve_player_targets` of
`mc-command/src/dispatcher.rs`: `@a`, `@e`, `@p`, `@r`, `@s` or a name, filtered, sorted and cut
by the arguments in brackets.

Principal results: `playerTargets_nodup` — no player is a target twice;
`playerTargets_resolvable` — targets are online, except the source of `@s`;
`resolvePlayerTargets_call` — resolving targets only reads the clock.
-/

namespace Apoptotic.Commands

open Calls Text

inductive CommandSource where
  | player (uuid : Uuid) (username : String)
  | console
  | rcon

namespace CommandSource

/-- `has_permission`. -/
def hasPermission (source : CommandSource) (s : Server) : Bool :=
  match source with
  | console => true
  | rcon => true
  | player uuid _ => ((s.get uuid).map Player.isOp).getD false

def name : CommandSource → String
  | player _ username => username
  | console => "Console"
  | rcon => "RCON"

/-- The uuid of a player. -/
def uuid? : CommandSource → Option Uuid
  | player uuid _ => some uuid
  | console => none
  | rcon => none

end CommandSource

/-- `CommandContext`.  `dispatch_input` passes neither a mob manager nor a team manager. -/
structure CommandContext where
  source : CommandSource
  args : List String
  motd : String
  maxPlayers : Nat
  /-- A chunk store was passed. -/
  chunkStore : Bool
  /-- A save trigger was passed. -/
  saveTrigger : Bool

/-- `parse_gamemode`. -/
def parseGamemode (host : Host) (input : String) : Except String GameMode :=
  match host.toLowercase input with
  | "0" | "s" | "survival" => .ok .survival
  | "1" | "c" | "creative" => .ok .creative
  | "2" | "a" | "adventure" => .ok .adventure
  | "3" | "sp" | "spectator" => .ok .spectator
  | _ => .error s!"Unknown gamemode: {input}"

/-- `str::parse::<i32>`. -/
def parseI32 (s : String) : Option Int := parseInt (-2 ^ 31) (2 ^ 31 - 1) s.toList

/-- `str::parse::<u32>`. -/
def parseU32 (s : String) : Option Nat := parseNat (2 ^ 32 - 1) s.toList

/-- `str::parse::<u64>` and `::<usize>`. -/
def parseU64 (s : String) : Option Nat := parseNat (2 ^ 64 - 1) s.toList

/-! ## Selector arguments -/

inductive SortOrder where
  | arbitrary
  | nearest
  | furthest
  | random
  deriving DecidableEq, Repr

structure SelectorArgs where
  distanceMin : Option Float := none
  distanceMax : Option Float := none
  limit : Option Nat := none
  sort : SortOrder := .arbitrary
  nameFilter : Option String := none
  gamemodeFilter : Option GameMode := none
  levelMin : Option Int := none
  levelMax : Option Int := none

/-- A bound of a range: absent, or the number it reads as. -/
def parseBound {α : Type} (parse : String → Option α) (error : String) (text : List Char) :
    Except String (Option α) :=
  if text = [] then .ok none
  else
    let text := String.ofList text
    match parse text with
    | some value => .ok (some value)
    | none => .error (error ++ text)

/-- One `key=value` of the selector arguments. -/
def parseSelectorArg (host : Host) (args : SelectorArgs) (part : List Char) :
    Except String SelectorArgs := do
  let part := trim part
  if part = [] then return args
  let some (key, value) := splitOnce ['='] [] part
    | .error ("Invalid selector argument: " ++ String.ofList part)
  let value := trim value
  let text := String.ofList value
  match String.ofList (trim key) with
  | "distance" =>
      let some (lo, hi) := splitOnce ['.', '.'] [] value
        | .error "distance requires range like ..10 or 5..20"
      let lo ← parseBound host.parseF64 "Invalid distance min: " lo
      let hi ← parseBound host.parseF64 "Invalid distance max: " hi
      return { args with distanceMin := lo <|> args.distanceMin, distanceMax := hi <|> args.distanceMax }
  | "limit" | "c" =>
      match parseU64 text with
      | some limit => return { args with limit := some limit }
      | none => .error ("Invalid limit: " ++ text)
  | "sort" =>
      match text with
      | "nearest" => return { args with sort := .nearest }
      | "furthest" => return { args with sort := .furthest }
      | "random" => return { args with sort := .random }
      | "arbitrary" => return { args with sort := .arbitrary }
      | _ => .error ("Unknown sort order: " ++ text ++
          ". Use nearest, furthest, random, or arbitrary")
  | "name" => return { args with nameFilter := some text }
  | "gamemode" | "m" =>
      let gm ← parseGamemode host text
      return { args with gamemodeFilter := some gm }
  | "level" | "l" =>
      match splitOnce ['.', '.'] [] value with
      | some (lo, hi) =>
          let lo ← parseBound parseI32 "Invalid level min: " lo
          let hi ← parseBound parseI32 "Invalid level max: " hi
          return { args with levelMin := lo <|> args.levelMin, levelMax := hi <|> args.levelMax }
      | none =>
          match parseI32 text with
          | some level => return { args with levelMin := some level, levelMax := some level }
          | none => .error ("Invalid level: " ++ text)
  | _ => return args

/-- `parse_selector_args`. -/
def parseSelectorArgs (host : Host) (argsStr : List Char) : Except String SelectorArgs :=
  (splitOn ',' [] argsStr).foldlM (parseSelectorArg host) {}

/-- `parse_target_with_args`. -/
def parseTargetWithArgs (target : String) : String × Option (List Char) :=
  let cs := target.toList
  if '[' ∈ cs ∧ cs.getLast? = some ']' then
    (String.ofList (cs.takeWhile (· ≠ '[')), some ((cs.dropWhile (· ≠ '[')).tail.dropLast))
  else (target, none)

/-! ## Targets -/

/-- The squared distance to a player, `default` if the player is not online. -/
def distSq (s : Server) (ref : Float × Float × Float) (default : Float) (uuid : Uuid) : Float :=
  match s.get uuid with
  | some p =>
      let dx := p.position.x - ref.1
      let dy := p.position.y - ref.2.1
      let dz := p.position.z - ref.2.2
      dx * dx + dy * dy + dz * dz
  | none => default

/-- `f64::MAX`. -/
def maxF64 : Float := Float.ofBits 0x7FEFFFFFFFFFFFFF

/-- Whether a candidate passes the distance filter. -/
def withinDistance (s : Server) (args : SelectorArgs) (ref : Float × Float × Float) (uuid : Uuid) :
    Bool :=
  (s.get uuid).isSome &&
    let dist := (distSq s ref 0 uuid).sqrt
    !((args.distanceMin.map fun lo => decide (dist < lo)).getD false) &&
      !((args.distanceMax.map fun hi => decide (dist > hi)).getD false)

/-- `xs.swap(i, j)`. -/
def swap {α : Type} (xs : List α) (i j : Nat) : List α :=
  match xs[i]?, xs[j]? with
  | some a, some b => (xs.set i b).set j a
  | _, _ => xs

/-- The shuffle of `sort=random`: `for i in (1..len).rev()`. -/
def shuffle {α : Type} (seed : Nat) (xs : List α) : List α :=
  ((List.range xs.length).drop 1).reverse.foldl
    (fun xs i => swap xs i (seed * (i + 1) % 2 ^ 64 % (i + 1))) xs

/-- `apply_selector_filters`; `seed` is the clock in nanoseconds. -/
def applySelectorFilters (s : Server) (args : SelectorArgs) (ref : Float × Float × Float)
    (seed : Nat) (candidates : List (Uuid × String)) : List (Uuid × String) :=
  let candidates := if args.distanceMin.isSome || args.distanceMax.isSome then
    candidates.filter fun c => withinDistance s args ref c.1 else candidates
  let candidates := match args.nameFilter with
    | some name => candidates.filter fun c => eqIgnoreAsciiCase c.2 name
    | none => candidates
  let candidates := match args.gamemodeFilter with
    | some gm => candidates.filter fun c => ((s.get c.1).map fun p => decide (p.gamemode = gm)).getD false
    | none => candidates
  let candidates := match args.sort with
    | .nearest =>
        candidates.mergeSort fun a b => !decide (distSq s ref maxF64 b.1 < distSq s ref maxF64 a.1)
    | .furthest =>
        candidates.mergeSort fun a b =>
          !decide (distSq s ref (-maxF64) a.1 < distSq s ref (-maxF64) b.1)
    | .random => shuffle seed candidates
    | .arbitrary => candidates
  match args.limit with
  | some limit => candidates.take limit
  | none => candidates

/-- `nearest_player(x, y, z, None)`: the first player at the least distance. -/
def nearestPlayer (s : Server) (ref : Float × Float × Float) : Option Player :=
  s.players.list.foldl (fun best q =>
    match best with
    | none => some q
    | some p =>
        if distSq s ref 0 q.uuid < distSq s ref 0 p.uuid then some q else some p) none

/-- The position that distances are measured from. -/
def referencePosition (s : Server) (source : CommandSource) : Float × Float × Float :=
  match source.uuid?.bind s.get with
  | some p => (p.position.x, p.position.y, p.position.z)
  | none => (0, 64, 0)

/-- A player as a target. -/
def Player.target (q : Player) : Uuid × String := (q.uuid, q.username)

/-- The candidates of a selector. -/
def candidates (host : Host) (s : Server) (source : CommandSource) (selector : String) :
    List (Uuid × String) :=
  match selector with
  | "@a" | "@e" => s.players.list.map Player.target
  | "@p" => ((nearestPlayer s (referencePosition s source)).map Player.target).toList
  | "@r" =>
      let players := s.players.list
      let idx := ((host.subsecNanos s.draws).map (· % players.length)).getD 0
      (players[idx]?.map Player.target).toList
  | "@s" =>
      match source with
      | .player uuid username => [(uuid, username)]
      | _ => []
  | name => ((s.getByName host name).map Player.target).toList

/-- The targets that a selector resolves to in a state. -/
def playerTargets (host : Host) (s : Server) (source : CommandSource) (target : String) :
    List (Uuid × String) :=
  let (selector, argsStr) := parseTargetWithArgs target
  let args := match argsStr with
    | some text => match parseSelectorArgs host text with
      | .ok args => args
      | .error _ => {}
    | none => {}
  applySelectorFilters s args (referencePosition s source)
    ((host.subsecNanos (s.draws + 1)).getD 42) (candidates host s source selector)

/-- `resolve_player_targets`: two readings of the clock are enough. -/
def resolvePlayerTargets (host : Host) (ctx : CommandContext) (target : String) :
    Quiet (List (Uuid × String)) := do
  let targets ← read fun s => playerTargets host s ctx.source target
  Keeping.modify fun s => { s with draws := s.draws + 2 }
  pure targets

/-- `resolve_player_target`. -/
def resolvePlayerTarget (host : Host) (ctx : CommandContext) (target : String) :
    Quiet (Option (Uuid × String)) := do
  let targets ← resolvePlayerTargets host ctx target
  pure targets.head?

theorem resolvePlayerTargets_call (host : Host) (ctx : CommandContext) (target : String)
    (s : Server) :
    (resolvePlayerTargets host ctx target).call s =
      (.ok (playerTargets host s ctx.source target), { s with draws := s.draws + 2 }) := rfl

/-! ## No target twice -/

theorem swap_perm {α : Type} (xs : List α) (i j : Nat) : (swap xs i j).Perm xs := by
  unfold swap
  split
  · rename_i a b ha hb
    obtain ⟨hi, rfl⟩ := List.getElem?_eq_some_iff.1 ha
    obtain ⟨hj, rfl⟩ := List.getElem?_eq_some_iff.1 hb
    exact List.set_set_perm hi hj
  · exact List.Perm.refl xs

theorem shuffle_perm {α : Type} (seed : Nat) (xs : List α) : (shuffle seed xs).Perm xs := by
  unfold shuffle
  generalize ((List.range xs.length).drop 1).reverse = order
  induction order generalizing xs with
  | nil => exact List.Perm.refl xs
  | cons i order ih => exact (ih _).trans (swap_perm xs i _)

/-- Filters, sorts and cuts rearrange a part of the candidates. -/
theorem applySelectorFilters_subperm (s : Server) (args : SelectorArgs)
    (ref : Float × Float × Float) (seed : Nat) (cs : List (Uuid × String)) :
    (applySelectorFilters s args ref seed cs).Subperm cs := by
  unfold applySelectorFilters
  extract_lets c1 c2 c3 c4
  have h1 : c1.Sublist cs := by
    unfold c1
    split
    · exact List.filter_sublist
    · exact List.Sublist.refl cs
  have h2 : c2.Sublist c1 := by
    unfold c2
    split
    · exact List.filter_sublist
    · exact List.Sublist.refl c1
  have h3 : c3.Sublist c2 := by
    unfold c3
    split
    · exact List.filter_sublist
    · exact List.Sublist.refl c2
  have h4 : c4.Perm c3 := by
    unfold c4
    split
    · exact List.mergeSort_perm _ _
    · exact List.mergeSort_perm _ _
    · exact shuffle_perm seed c3
    · exact List.Perm.refl c3
  have h5 : c4.Subperm cs := h4.subperm.trans ((h3.trans h2).trans h1).subperm
  split
  · exact (List.take_sublist _ _).subperm.trans h5
  · exact h5

theorem candidates_nodup (host : Host) (s : Server) (source : CommandSource) (selector : String) :
    ((candidates host s source selector).map Prod.fst).Nodup := by
  have hall : ((s.players.list.map Player.target).map Prod.fst).Nodup := by
    rw [List.map_map]
    exact s.players.nodup
  have hone : ∀ o : Option (Uuid × String), (o.toList.map Prod.fst).Nodup := by
    intro o
    cases o <;> simp
  unfold candidates
  split
  · exact hall
  · exact hall
  · exact hone _
  · exact hone _
  · split
    · simp
    · simp
  · exact hone _

/-- **No player is a target twice.** -/
theorem playerTargets_nodup (host : Host) (s : Server) (source : CommandSource) (target : String) :
    ((playerTargets host s source target).map Prod.fst).Nodup := by
  unfold playerTargets
  obtain ⟨cs, hperm, hsub⟩ := applySelectorFilters_subperm s _ _ _
    (candidates host s source (parseTargetWithArgs target).1)
  exact (hperm.map Prod.fst).nodup_iff.1
    ((hsub.map Prod.fst).nodup (candidates_nodup host s source _))

/-! ## Targets are online -/

/-- Every target is online, or there is at most one. -/
def Resolvable (s : Server) (targets : List (Uuid × String)) : Prop :=
  (∀ t ∈ targets, (s.get t.1).isSome) ∨ targets.length ≤ 1

theorem Resolvable.subperm {s : Server} {ts us : List (Uuid × String)} (h : Resolvable s us)
    (hsub : ts.Subperm us) : Resolvable s ts := by
  rcases h with h | h
  · exact Or.inl fun t ht => h t (hsub.subset ht)
  · exact Or.inr (hsub.length_le.trans h)

theorem candidates_resolvable (host : Host) (s : Server) (source : CommandSource)
    (selector : String) : Resolvable s (candidates host s source selector) := by
  have hall : Resolvable s (s.players.list.map Player.target) := by
    refine Or.inl fun t ht => ?_
    obtain ⟨q, hq, rfl⟩ := List.mem_map.1 ht
    exact Option.isSome_iff_exists.2 ⟨q, Players.get_eq_some_iff.2 ⟨hq, rfl⟩⟩
  have hone : ∀ o : Option (Uuid × String), Resolvable s o.toList := fun o => Or.inr (by
    cases o <;> simp)
  unfold candidates
  split
  · exact hall
  · exact hall
  · exact hone _
  · exact hone _
  · split
    · exact Or.inr (by simp)
    · exact Or.inr (by simp)
  · exact hone _

/-- Only `@s` can name a player who is not online. -/
theorem playerTargets_resolvable (host : Host) (s : Server) (source : CommandSource)
    (target : String) : Resolvable s (playerTargets host s source target) :=
  (candidates_resolvable host s source _).subperm (applySelectorFilters_subperm s _ _ _ _)

end Apoptotic.Commands
