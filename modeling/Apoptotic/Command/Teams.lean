import Apoptotic.Command.Server
import Apoptotic.Lib.Reached
import Apoptotic.Lib.TwoWay

/-!
# Teams

`TeamManager` of `mc-core/src/team.rs` and the edits that `TeamCommand` of
`mc-command/src/commands/advanced.rs` makes of it.  A map is a function to `Option`.  The prefix and
the suffix of a team are left out, and so is what the command broadcasts and replies.

Principal result: `along_keeps_iff` — the members of the teams and the teams of the players agree,
and a join that fails changes nothing, exactly along the runs that join no player who has a team to
a team that is not there.
-/

namespace Apoptotic.Teams

open Commands

abbrev Uuid := Commands.Uuid

structure Team where
  name : String
  color : String
  friendlyFire : Bool
  members : Finset Uuid

def Team.new (name color : String) : Team := ⟨name, color, true, ∅⟩

structure TeamManager where
  teams : String → Option Team
  playerTeam : Uuid → Option String

namespace TeamManager

def new : TeamManager := ⟨fun _ => none, fun _ => none⟩

variable (s : TeamManager) (name color : String) (uuid : Uuid)

/-- `if let Some(team) = self.teams.get_mut(name) { f(&mut team.members) }` -/
def editMembers (f : Finset Uuid → Finset Uuid) : TeamManager :=
  { s with
    teams := Function.update s.teams name
      ((s.teams name).map fun team => { team with members := f team.members }) }

def addTeam : TeamManager :=
  { s with
    teams := Function.update s.teams name (some ((s.teams name).getD (Team.new name color))) }

def removeTeam : TeamManager :=
  match s.teams name with
  | some team =>
      { teams := Function.update s.teams name none
        playerTeam := fun u => if u ∈ team.members then none else s.playerTeam u }
  | none => s

/-- Remove from the old team first; the player's entry stays. -/
def leaveOldTeam : TeamManager :=
  match s.playerTeam uuid with
  | some old => s.editMembers old (·.erase uuid)
  | none => s

def joinTeam : Bool × TeamManager :=
  let s1 := s.leaveOldTeam uuid
  match s1.teams name with
  | some _ =>
      let s2 := s1.editMembers name (insert uuid)
      (true, { s2 with playerTeam := Function.update s2.playerTeam uuid (some name) })
  | none => (false, s1)

def leaveTeam : TeamManager :=
  match s.playerTeam uuid with
  | some name =>
      { s with playerTeam := Function.update s.playerTeam uuid none }.editMembers name
        (·.erase uuid)
  | none => s

end TeamManager

inductive Action where
  | addTeam (name color : String)
  | removeTeam (name : String)
  | joinTeam (name : String) (uuid : Uuid)
  | leaveTeam (uuid : Uuid)

def TeamManager.step (s : TeamManager) : Action → TeamManager
  | .addTeam name color => s.addTeam name color
  | .removeTeam name => s.removeTeam name
  | .joinTeam name uuid => (s.joinTeam name uuid).2
  | .leaveTeam uuid => s.leaveTeam uuid

/-- The edits of `/team`, with the players that its argument resolves to. -/
inductive TeamCommand where
  | add (name : String) (color : Option String)
  | remove (name : String)
  | join (name : String) (targets : List Uuid)
  | leave (targets : List Uuid)
  | list

def TeamCommand.actions : TeamCommand → List Action
  | add name color => [.addTeam name (color.getD "white")]
  | remove name => [.removeTeam name]
  | join name targets => targets.map (.joinTeam name)
  | leave targets => targets.map .leaveTeam
  | list => []

/-! ## The relation that the maps store -/

namespace TeamManager

/-- The two maps. -/
def view (s : TeamManager) : TwoWay String Uuid :=
  ⟨fun name => (s.teams name).map Team.members, s.playerTeam⟩

def IsMember (s : TeamManager) (name : String) (uuid : Uuid) : Prop :=
  ∃ team, s.teams name = some team ∧ uuid ∈ team.members

/-- **A player is a member of exactly the team that its entry names, and that team exists.** -/
structure Consistent (s : TeamManager) : Prop where
  isMember_iff : ∀ name uuid, s.IsMember name uuid ↔ s.playerTeam uuid = some name
  exists_team : ∀ uuid name, s.playerTeam uuid = some name → ∃ team, s.teams name = some team

variable {s : TeamManager} {name color : String} {uuid : Uuid}

theorem mem_view : s.view.Mem name uuid ↔ s.IsMember name uuid := by
  unfold TwoWay.Mem IsMember view
  simp

theorem consistent_iff : s.Consistent ↔ s.view.Agrees := by
  constructor
  · intro h name uuid
    exact mem_view.trans (h.isMember_iff name uuid)
  · intro h
    have hmem : ∀ name uuid, s.IsMember name uuid ↔ s.playerTeam uuid = some name :=
      fun name uuid => mem_view.symm.trans (h name uuid)
    exact ⟨hmem, fun uuid name hu => (hmem name uuid).2 hu |>.imp fun _ hteam => hteam.1⟩

theorem isSome_view_members : (s.view.members name).isSome = (s.teams name).isSome :=
  Option.isSome_map ..

theorem view_editMembers (f : Finset Uuid → Finset Uuid) :
    (s.editMembers name f).view =
      { s.view with
        members := Function.update s.view.members name ((s.view.members name).map f) } := by
  unfold view editMembers
  congr 1
  funext t
  by_cases h : t = name
  · subst h
    simp only [Function.update_self, Option.map_map]
    rfl
  · simp only [Function.update_of_ne h]

theorem view_addTeam : (s.addTeam name color).view = s.view.found name := by
  unfold view addTeam TwoWay.found
  congr 1
  funext t
  by_cases h : t = name
  · subst h
    simp only [Function.update_self]
    cases s.teams t with
    | none => rfl
    | some team => rfl
  · simp only [Function.update_of_ne h]

theorem view_removeTeam : (s.removeTeam name).view = s.view.disband name := by
  unfold removeTeam
  cases hs : s.teams name with
  | none =>
      have hmem : s.view.members name = none := by
        change (s.teams name).map _ = none
        rw [hs]
        rfl
      unfold TwoWay.disband
      rw [hmem, ← hmem, Function.update_eq_self]
      simp [hmem]
  | some team =>
      have hmem : s.view.members name = some team.members := by
        change (s.teams name).map _ = _
        rw [hs]
        rfl
      unfold TwoWay.disband
      rw [hmem]
      unfold view
      congr 1
      funext t
      by_cases h : t = name
      · subst h
        simp only [Function.update_self]
        rfl
      · simp only [Function.update_of_ne h]

theorem view_leaveOldTeam : (s.leaveOldTeam uuid).view = s.view.detachHome uuid := by
  have hhome : s.view.home uuid = s.playerTeam uuid := rfl
  unfold leaveOldTeam TwoWay.detachHome
  rw [hhome]
  cases s.playerTeam uuid with
  | none => rfl
  | some old => exact view_editMembers _

theorem view_leaveTeam : (s.leaveTeam uuid).view = (s.view.detachHome uuid).forget uuid := by
  have hhome : s.view.home uuid = s.playerTeam uuid := rfl
  unfold leaveTeam TwoWay.detachHome
  rw [hhome]
  cases hs : s.playerTeam uuid with
  | none =>
      change s.view = { s.view with home := Function.update s.playerTeam uuid none }
      rw [← hs, Function.update_eq_self]
      rfl
  | some name => exact view_editMembers _

/-- A join: whether the team is there, and the relation after it. -/
theorem joinTeam_spec (s : TeamManager) (name : String) (uuid : Uuid) :
    if (s.teams name).isSome then
      (s.joinTeam name uuid).1 = true ∧
        (s.joinTeam name uuid).2.view = (s.view.detachHome uuid).attach name uuid
    else s.joinTeam name uuid = (false, s.leaveOldTeam uuid) := by
  have hsome : ((s.leaveOldTeam uuid).teams name).isSome = (s.teams name).isSome := by
    rw [← isSome_view_members, ← isSome_view_members, view_leaveOldTeam,
      TwoWay.isSome_members_detachHome]
  unfold joinTeam
  split_ifs with h
  · rw [← hsome] at h
    obtain ⟨team, hteam⟩ := Option.isSome_iff_exists.1 h
    dsimp only
    rw [hteam]
    refine ⟨rfl, ?_⟩
    rw [← view_leaveOldTeam]
    exact congrArg (fun v : TwoWay String Uuid =>
      { v with home := Function.update v.home uuid (some name) }) (view_editMembers _)
  · rw [← hsome, Bool.not_eq_true, Option.isSome_eq_false_iff, Option.isNone_iff_eq_none] at h
    dsimp only
    rw [h]

end TeamManager

/-! ## Runs -/

/-- What is asked of a step: the relation is consistent after it, and a join that fails leaves the
manager as it was. -/
def Keeps (s : TeamManager) (a : Action) : Prop :=
  (s.step a).Consistent ∧
    ∀ name uuid, a = .joinTeam name uuid → (s.joinTeam name uuid).1 = false →
      (s.joinTeam name uuid).2 = s

/-- A player who has a team is only joined to a team that is there. -/
def Lands (s : TeamManager) : Action → Prop
  | .joinTeam name uuid => (s.teams name).isSome ∨ s.playerTeam uuid = none
  | _ => True

variable {s : TeamManager}

/-- A join keeps what is asked exactly if it lands. -/
theorem keeps_joinTeam_iff (hs : s.Consistent) (name : String) (uuid : Uuid) :
    Keeps s (.joinTeam name uuid) ↔ Lands s (.joinTeam name uuid) := by
  have hagrees := TeamManager.consistent_iff.1 hs
  have hspec := s.joinTeam_spec name uuid
  change ((s.joinTeam name uuid).2.Consistent ∧ _) ↔
    ((s.teams name).isSome ∨ s.playerTeam uuid = none)
  by_cases hname : (s.teams name).isSome
  · rw [if_pos hname] at hspec
    refine iff_of_true ⟨?_, ?_⟩ (.inl hname)
    · rw [TeamManager.consistent_iff, hspec.2]
      refine hagrees.move ?_
      rwa [TwoWay.isSome_members_detachHome, TeamManager.isSome_view_members]
    · rintro _ _ ⟨⟩ hfalse
      rw [hspec.1] at hfalse
      cases hfalse
  · rw [if_neg hname] at hspec
    rw [or_iff_right hname, hspec, TeamManager.consistent_iff, TeamManager.view_leaveOldTeam,
      hagrees.detach_iff]
    refine and_iff_left_of_imp ?_
    rintro hnone _ _ ⟨⟩ _
    change s.playerTeam uuid = none at hnone
    rw [hspec]
    change s.leaveOldTeam uuid = s
    unfold TeamManager.leaveOldTeam
    rw [hnone]

/-- One step from a consistent manager. -/
theorem keeps_iff_lands (hs : s.Consistent) (a : Action) : Keeps s a ↔ Lands s a := by
  have hagrees := TeamManager.consistent_iff.1 hs
  cases a with
  | joinTeam name uuid => exact keeps_joinTeam_iff hs name uuid
  | addTeam name color =>
      refine iff_of_true ⟨?_, nofun⟩ trivial
      rw [TeamManager.consistent_iff]
      exact TeamManager.view_addTeam ▸ hagrees.found name
  | removeTeam name =>
      refine iff_of_true ⟨?_, nofun⟩ trivial
      rw [TeamManager.consistent_iff]
      exact TeamManager.view_removeTeam ▸ hagrees.disband name
  | leaveTeam uuid =>
      refine iff_of_true ⟨?_, nofun⟩ trivial
      rw [TeamManager.consistent_iff]
      exact TeamManager.view_leaveTeam ▸ hagrees.leave uuid

theorem consistent_new : TeamManager.new.Consistent :=
  TeamManager.consistent_iff.2 TwoWay.agrees_empty

/-- **The two maps agree after every step, and failed joins change nothing, exactly along the runs
in which no player who has a team is joined to a team that is not there.** -/
theorem along_keeps_iff (as : List Action) :
    Along TeamManager.step Keeps TeamManager.new as ↔
      Along TeamManager.step Lands TeamManager.new as :=
  along_iff TeamManager.Consistent (fun _ a hs => keeps_iff_lands hs a)
    (fun _ a hs h => ((keeps_iff_lands hs a).2 h).1) consistent_new as

/-- A player leaves for a team that is not there, and is in the old one only by name. -/
theorem not_forall_along_keeps :
    ¬ ∀ as : List Action, Along TeamManager.step Keeps TeamManager.new as := by
  intro h
  obtain ⟨-, -, ⟨hkeeps, -⟩, -⟩ :=
    h [.addTeam "red" "red", .joinTeam "red" 0, .joinTeam "blue" 0]
  obtain ⟨team, hteam, hmem⟩ := (hkeeps.isMember_iff "red" 0).2 (by decide)
  revert hmem
  obtain rfl := Option.some.inj hteam
  decide

/-- The edits of a command in which every join lands keep the maps consistent. -/
theorem consistent_command {s : TeamManager} (hs : s.Consistent) (c : TeamCommand)
    (hc : Along TeamManager.step Lands s c.actions) :
    (c.actions.foldl TeamManager.step s).Consistent := by
  have hstep : ∀ (s : TeamManager) (a : Action), s.Consistent → Lands s a →
      (s.step a).Consistent := fun _ a hs h => ((keeps_iff_lands hs a).2 h).1
  exact hc.invariant hstep hs

end Apoptotic.Teams
