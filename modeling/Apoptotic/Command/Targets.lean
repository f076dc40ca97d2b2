import Apoptotic.Command.Selectors

/-!
# Target selectors

`resolve_player_targets` over any numbers.

Principal result: `playerTargets_eq` — over `f64` these are the targets of a server.
-/

namespace Apoptotic.Commands.Targets

open Text

/-! ## Selectors over any numbers -/

/-- What positions and distances need. -/
structure Arithmetic (F : Type) where
  lit : Nat → F
  add : F → F → F
  sub : F → F → F
  mul : F → F → F
  lt : F → F → Bool
  /-- `a.sqrt() < b` -/
  sqrtLt : F → F → Bool
  /-- `a.sqrt() > b` -/
  sqrtGt : F → F → Bool
  /-- `f64::MAX` and `f64::MIN`. -/
  greatest : F
  least : F

structure Args (F : Type) where
  distanceMin : Option F := none
  distanceMax : Option F := none
  limit : Option Nat := none
  sort : SortOrder := .arbitrary
  nameFilter : Option String := none
  gamemodeFilter : Option GameMode := none
  levelMin : Option Int := none
  levelMax : Option Int := none

/-- One `key=value`. -/
def parseArg {F : Type} (host : Host) (parseF64 : String → Option F) (args : Args F)
    (part : List Char) : Except String (Args F) := do
  let part := trim part
  if part = [] then return args
  let some (key, value) := splitOnce ['='] [] part
    | .error ("Invalid selector argument: " ++ String.ofList part)
  let value := trim value
  let text := String.ofList value
  match String.ofList (trim key) with
  | "distance" =>
      let some (lo, hi) := splitOnce ['.', '.'] [] value
        | .error "distance requires range like ..10 or 5..20"
      let lo ← parseBound parseF64 "Invalid distance min: " lo
      let hi ← parseBound parseF64 "Invalid distance max: " hi
      return { args with distanceMin := lo <|> args.distanceMin, distanceMax := hi <|> args.distanceMax }
  | "limit" | "c" =>
      match parseU64 text with
      | some limit => return { args with limit := some limit }
      | none => .error ("Invalid limit: " ++ text)
  | "sort" =>
      match text with
      | "nearest" => return { args with sort := .nearest }
      | "furthest" => return { args with sort := .furthest }
      | "random" => return { args with sort := .random }
      | "arbitrary" => return { args with sort := .arbitrary }
      | _ => .error ("Unknown sort order: " ++ text ++
          ". Use nearest, furthest, random, or arbitrary")
  | "name" => return { args with nameFilter := some text }
  | "gamemode" | "m" =>
      let gm ← parseGamemode host text
      return { args with gamemodeFilter := some gm }
  | "level" | "l" =>
      match splitOnce ['.', '.'] [] value with
      | some (lo, hi) =>
          let lo ← parseBound parseI32 "Invalid level min: " lo
          let hi ← parseBound parseI32 "Invalid level max: " hi
          return { args with levelMin := lo <|> args.levelMin, levelMax := hi <|> args.levelMax }
      | none =>
          match parseI32 text with
          | some level => return { args with levelMin := some level, levelMax := some level }
          | none => .error ("Invalid level: " ++ text)
  | _ => return args

/-- `parse_selector_args` -/
def parseArgs {F : Type} (host : Host) (parseF64 : String → Option F) (argsStr : List Char) :
    Except String (Args F) :=
  (splitOn ',' [] argsStr).foldlM (parseArg host parseF64) {}

/-- Whether a squared distance passes the filter. -/
def Args.passes {F : Type} (f : Arithmetic F) (args : Args F) (dist : F) : Bool :=
  !((args.distanceMin.map fun lo => f.sqrtLt dist lo).getD false) &&
    !((args.distanceMax.map fun hi => f.sqrtGt dist hi).getD false)

/-- What a selector and its filters read of a player. -/
structure Candidate (F : Type) where
  uuid : Uuid
  username : String
  position : F × F × F
  gamemode : GameMode
  xpLevel : Int

/-- A player as a target. -/
def Candidate.target {F : Type} (p : Candidate F) : Uuid × String := (p.uuid, p.username)

/-- Who is online, who asks, and what the two readings of the clock give. -/
structure World (F : Type) where
  players : List (Candidate F)
  nodup : (players.map Candidate.uuid).Nodup
  source : CommandSource
  nanos : Option Nat
  seed : Option Nat

namespace World

variable {F : Type} (f : Arithmetic F) (host : Host) (w : World F)

def get (uuid : Uuid) : Option (Candidate F) := w.players.find? (·.uuid = uuid)

def getByName (username : String) : Option (Candidate F) :=
  w.players.find? fun p => host.toLowercase p.username = host.toLowercase username

/-- Where distances are measured from. -/
def reference : F × F × F :=
  match w.source.uuid?.bind w.get with
  | some p => p.position
  | none => (f.lit 0, f.lit 64, f.lit 0)

/-- The squared distance of a position. -/
def distSqAt (position : F × F × F) : F :=
  let ref := w.reference f
  let dx := f.sub position.1 ref.1
  let dy := f.sub position.2.1 ref.2.1
  let dz := f.sub position.2.2 ref.2.2
  f.add (f.add (f.mul dx dx) (f.mul dy dy)) (f.mul dz dz)

/-- The squared distance of a player, `default` if the player is not online. -/
def distSq (default : F) (uuid : Uuid) : F :=
  match w.get uuid with
  | some p => w.distSqAt f p.position
  | none => default

def withinDistance (args : Args F) (uuid : Uuid) : Bool :=
  ((w.get uuid).map fun p => args.passes f (w.distSqAt f p.position)).getD false

/-- `apply_selector_filters` -/
def applySelectorFilters (args : Args F) (candidates : List (Uuid × String)) :
    List (Uuid × String) :=
  let candidates := if args.distanceMin.isSome || args.distanceMax.isSome then
    candidates.filter fun c => w.withinDistance f args c.1 else candidates
  let candidates := match args.nameFilter with
    | some name => candidates.filter fun c => eqIgnoreAsciiCase c.2 name
    | none => candidates
  let candidates := match args.gamemodeFilter with
    | some gm =>
        candidates.filter fun c => ((w.get c.1).map fun p => decide (p.gamemode = gm)).getD false
    | none => candidates
  let candidates := match args.sort with
    | .nearest =>
        candidates.mergeSort fun a b =>
          !f.lt (w.distSq f f.greatest b.1) (w.distSq f f.greatest a.1)
    | .furthest =>
        candidates.mergeSort fun a b => !f.lt (w.distSq f f.least a.1) (w.distSq f f.least b.1)
    | .random => shuffle (w.seed.getD 42) candidates
    | .arbitrary => candidates
  match args.limit with
  | some limit => candidates.take limit
  | none => candidates

/-- The nearer of two players, the first of equals. -/
def nearer (best : Option (Candidate F)) (q : Candidate F) : Option (Candidate F) :=
  match best with
  | none => some q
  | some p =>
      if f.lt (w.distSqAt f q.position) (w.distSqAt f p.position) then some q else some p

/-- `nearest_player`: the first player at the least distance. -/
def nearestPlayer : Option (Candidate F) := w.players.foldl (w.nearer f) none

/-- The candidates of a selector. -/
def candidates (selector : String) : List (Uuid × String) :=
  match selector with
  | "@a" | "@e" => w.players.map Candidate.target
  | "@p" => ((w.nearestPlayer f).map Candidate.target).toList
  | "@r" =>
      let idx := (w.nanos.map (· % w.players.length)).getD 0
      (w.players[idx]?.map Candidate.target).toList
  | "@s" =>
      match w.source with
      | .player uuid username => [(uuid, username)]
      | _ => []
  | name => ((w.getByName host name).map Candidate.target).toList

/-- `resolve_player_targets` -/
def targets (parseF64 : String → Option F) (target : String) : List (Uuid × String) :=
  let (selector, argsStr) := parseTargetWithArgs target
  let args := match argsStr with
    | some text => match parseArgs host parseF64 text with
      | .ok args => args
      | .error _ => {}
    | none => {}
  w.applySelectorFilters f args (w.candidates f host selector)

end World

/-! ## The targets of a server -/

/-- The numbers of the server. -/
def floats : Arithmetic Float where
  lit := Float.ofNat
  add := (· + ·)
  sub := (· - ·)
  mul := (· * ·)
  lt a b := decide (a < b)
  sqrtLt a b := decide (a.sqrt < b)
  sqrtGt a b := decide (a.sqrt > b)
  greatest := maxF64
  least := -maxF64

/-- A player as the selectors see it. -/
def candidateOf (p : Player) : Candidate Float :=
  ⟨p.uuid, p.username, (p.position.x, p.position.y, p.position.z), p.gamemode, p.xpLevel⟩

theorem uuid_candidateOf (s : Server) :
    (s.players.list.map candidateOf).map Candidate.uuid = s.players.list.map Player.uuid := by
  rw [List.map_map]
  rfl

/-- What a selector finds when the server is in state `s`. -/
def worldOf (host : Host) (s : Server) (source : CommandSource) : World Float where
  players := s.players.list.map candidateOf
  nodup := uuid_candidateOf s ▸ s.players.nodup
  source := source
  nanos := host.subsecNanos s.draws
  seed := host.subsecNanos (s.draws + 1)

def argsOf (args : SelectorArgs) : Args Float :=
  ⟨args.distanceMin, args.distanceMax, args.limit, args.sort, args.nameFilter, args.gamemodeFilter,
    args.levelMin, args.levelMax⟩

section Server

variable (host : Host) (s : Server) (source : CommandSource)

theorem parseArg_argsOf (args : SelectorArgs) (part : List Char) :
    parseArg host host.parseF64 (argsOf args) part =
      (parseSelectorArg host args part).map argsOf := by
  unfold parseArg parseSelectorArg
  dsimp only
  by_cases hempty : trim part = []
  · simp [hempty]
    rfl
  · rw [if_neg hempty, if_neg hempty]
    cases hsplit : splitOnce ['='] [] (trim part) with
    | none => rfl
    | some kv =>
        obtain ⟨key, value⟩ := kv
        dsimp only
        generalize String.ofList (trim key) = key
        generalize String.ofList (trim value) = text
        split
        case h_1 =>
          cases splitOnce ['.', '.'] [] (trim value) with
          | none => rfl
          | some range =>
              cases hlo : parseBound host.parseF64 "Invalid distance min: " range.1 <;>
                cases hhi : parseBound host.parseF64 "Invalid distance max: " range.2 <;>
                simp [hlo, hhi] <;> rfl
        case h_2 | h_3 => cases parseU64 text <;> rfl
        case h_4 =>
          split
          all_goals first | rfl | (simp_all; rfl)
        case h_5 => rfl
        case h_6 | h_7 => cases parseGamemode host text <;> rfl
        case h_8 | h_9 =>
          cases splitOnce ['.', '.'] [] (trim value) with
          | none => cases parseI32 text <;> rfl
          | some range =>
              cases hlo : parseBound parseI32 "Invalid level min: " range.1 <;>
                cases hhi : parseBound parseI32 "Invalid level max: " range.2 <;>
                simp [hlo, hhi] <;> rfl
        case h_10 =>
          first
          | rfl
          | split
            all_goals first | contradiction | rfl

theorem get_worldOf (uuid : Uuid) :
    (worldOf host s source).get uuid = (s.get uuid).map candidateOf := by
  unfold World.get worldOf Server.get Players.get
  rw [List.find?_map]
  rfl

theorem parseArgs_argsOf (argsStr : List Char) :
    parseArgs host host.parseF64 argsStr = (parseSelectorArgs host argsStr).map argsOf := by
  have hfold : ∀ (parts : List (List Char)) (args : SelectorArgs),
      parts.foldlM (parseArg host host.parseF64) (argsOf args) =
        (parts.foldlM (parseSelectorArg host) args).map argsOf := by
    intro parts
    induction parts with
    | nil => exact fun args => rfl
    | cons part parts ih =>
        intro args
        rw [List.foldlM_cons, List.foldlM_cons, parseArg_argsOf]
        cases parseSelectorArg host args part with
        | error e => rfl
        | ok args => exact ih args
  exact hfold _ {}

theorem reference_worldOf :
    (worldOf host s source).reference floats = referencePosition s source := by
  unfold World.reference referencePosition
  have hsource : (worldOf host s source).source.uuid?.bind (worldOf host s source).get =
      (source.uuid?.bind s.get).map candidateOf := by
    change source.uuid?.bind _ = _
    cases source.uuid? with
    | none => rfl
    | some uuid => exact get_worldOf host s source uuid
  rw [hsource]
  cases source.uuid?.bind s.get <;> rfl

theorem distSq_worldOf (default : Float) (uuid : Uuid) :
    (worldOf host s source).distSq floats default uuid =
      Commands.distSq s (referencePosition s source) default uuid := by
  unfold World.distSq Commands.distSq
  rw [get_worldOf]
  cases s.get uuid with
  | none => rfl
  | some p =>
      simp only [Option.map_some, World.distSqAt, reference_worldOf]
      rfl

theorem withinDistance_worldOf (args : SelectorArgs) (uuid : Uuid) :
    (worldOf host s source).withinDistance floats (argsOf args) uuid =
      Commands.withinDistance s args (referencePosition s source) uuid := by
  unfold World.withinDistance Commands.withinDistance
  rw [get_worldOf]
  cases hp : s.get uuid with
  | none => rfl
  | some p =>
      have hdist : (worldOf host s source).distSqAt floats (candidateOf p).position =
          Commands.distSq s (referencePosition s source) 0 uuid := by
        rw [← distSq_worldOf host, World.distSq, get_worldOf, hp]
        rfl
      simp only [Option.map_some, Option.getD_some, Option.isSome_some, Bool.true_and, hdist]
      rfl

theorem applySelectorFilters_worldOf (args : SelectorArgs) (cs : List (Uuid × String)) :
    (worldOf host s source).applySelectorFilters floats (argsOf args) cs =
      Commands.applySelectorFilters s args (referencePosition s source)
        ((host.subsecNanos (s.draws + 1)).getD 42) cs := by
  unfold World.applySelectorFilters Commands.applySelectorFilters
  simp only [withinDistance_worldOf, distSq_worldOf, get_worldOf, Option.map_map]
  rfl

/-- A fold over images, step by step. -/
theorem foldl_map_of_step {α β γ δ : Type} (m : α → β) (r : γ → δ) {f : γ → α → γ}
    {g : δ → β → δ} (P : γ → Prop) {l : List α}
    (h : ∀ c, ∀ a ∈ l, P c → g (r c) (m a) = r (f c a) ∧ P (f c a)) (c : γ) (hc : P c) :
    (l.map m).foldl g (r c) = r (l.foldl f c) := by
  induction l generalizing c with
  | nil => rfl
  | cons a l ih =>
      rw [List.map_cons, List.foldl_cons, List.foldl_cons]
      obtain ⟨hstep, hkept⟩ := h c a List.mem_cons_self hc
      rw [hstep]
      exact ih (fun c b hb => h c b (List.mem_cons_of_mem a hb)) _ hkept

theorem nearestPlayer_worldOf : (worldOf host s source).nearestPlayer floats =
    (Commands.nearestPlayer s (referencePosition s source)).map candidateOf := by
  have hdist : ∀ p ∈ s.players.list,
      (worldOf host s source).distSqAt floats (candidateOf p).position =
        Commands.distSq s (referencePosition s source) 0 p.uuid := by
    intro p hp
    have hget : s.get p.uuid = some p := Players.get_eq_some_iff.2 ⟨hp, rfl⟩
    rw [← distSq_worldOf host, World.distSq, get_worldOf, hget]
    rfl
  unfold World.nearestPlayer Commands.nearestPlayer
  refine foldl_map_of_step candidateOf (Option.map candidateOf)
    (fun best => ∀ p ∈ best, p ∈ s.players.list) ?_ none (by simp)
  intro best q hq hbest
  cases best with
  | none => exact ⟨rfl, fun p hp => Option.some.inj hp ▸ hq⟩
  | some p =>
      have hp : p ∈ s.players.list := hbest p rfl
      have hnearer : ((worldOf host s source).nearer floats (some (candidateOf p))
          (candidateOf q)) = if decide (Commands.distSq s (referencePosition s source) 0 q.uuid <
            Commands.distSq s (referencePosition s source) 0 p.uuid) then some (candidateOf q)
          else some (candidateOf p) := by
        rw [World.nearer, hdist q hq, hdist p hp]
        rfl
      rw [Option.map_some, hnearer]
      by_cases hlt : Commands.distSq s (referencePosition s source) 0 q.uuid <
          Commands.distSq s (referencePosition s source) 0 p.uuid
      · simp only [hlt, decide_true, if_true]
        exact ⟨rfl, fun r hr => Option.some.inj hr ▸ hq⟩
      · simp only [hlt, decide_false, if_false]
        exact ⟨rfl, hbest⟩

theorem candidates_worldOf (selector : String) :
    (worldOf host s source).candidates floats host selector =
      Commands.candidates host s source selector := by
  have hplayers : (worldOf host s source).players = s.players.list.map candidateOf := rfl
  have htarget : Candidate.target ∘ candidateOf = Player.target := rfl
  have hname : ∀ name, (worldOf host s source).getByName host name =
      (s.getByName host name).map candidateOf := fun name => List.find?_map
  simp only [World.candidates, Commands.candidates, hplayers, nearestPlayer_worldOf, hname,
    List.map_map, Option.map_map, List.getElem?_map, List.length_map, htarget]
  rfl

/-- **The targets of a server are those of its world.** -/
theorem playerTargets_eq (target : String) : playerTargets host s source target =
    (worldOf host s source).targets floats host host.parseF64 target := by
  unfold playerTargets World.targets
  obtain ⟨selector, argsStr⟩ := parseTargetWithArgs target
  dsimp only
  rw [candidates_worldOf]
  cases argsStr with
  | none => exact (applySelectorFilters_worldOf host s source {} _).symm
  | some text =>
      dsimp only
      rw [parseArgs_argsOf]
      cases parseSelectorArgs host text with
      | error e => exact (applySelectorFilters_worldOf host s source {} _).symm
      | ok args => exact (applySelectorFilters_worldOf host s source args _).symm

end Server

end Apoptotic.Commands.Targets
