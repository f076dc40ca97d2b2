import Apoptotic.Network.Joining
import Mathlib.Data.List.AList

/-!
# Leaving and coming back

The four places that the state of a player passes through: the table of the players, the database,
the map that `mc-server/src/main.rs` reads from it when the process starts, and `handle_play` of
`mc-network/src/connection.rs`.  The autosave, `/save-all` and the shutdown save every player who is
online, and nothing else does.  Statements succeed.

Three records stand beside the server, and no action reads them: what the row of each player was
saved from, what it was saved from when the process started, and what the last session of each player
who is not online ended with.

Principal results: `along_keepsProgress_iff` — players come back as they left exactly along the runs in
which what a player left with is what the process found saved of it; `keepsProgress_of_orderly` — so it
is when players leave just saved and the process restarts before they come back.
-/

namespace Apoptotic.Rejoin

open Join
open PlayerRows (Database PlayerRow)

abbrev Uuid := Join.Uuid

structure State (F D : Type) where
  db : Database D
  savedPlayerData : Uuid → Option (PlayerRow F D)
  players : AList fun _ : Uuid => Player F D
  saved : Uuid → Option (Player F D)
  loaded : Uuid → Option (Player F D)
  ended : Uuid → Option (Player F D)

def State.new {F D : Type} : State F D :=
  ⟨fun _ => none, fun _ => none, ∅, fun _ => none, fun _ => none, fun _ => none⟩

inductive Action (F D : Type) where
  | join (uuid : Uuid) (username : String)
  /-- Whatever becomes of a player who is online. -/
  | play (uuid : Uuid) (p : Player F D)
  /-- The autosave, `/save-all` or the save at shutdown, with the times of its statements. -/
  | save (now : Uuid → String)
  | leave (uuid : Uuid)
  /-- The process ends, with all sessions, and starts again. -/
  | restart

variable {F D : Type} (r : Reals F D) (toText : Uuid → String)

def savePlayers (now : Uuid → String) (entries : List (Sigma fun _ : Uuid => Player F D))
    (db : Database D) : Database D :=
  entries.foldl
    (fun db e => PlayerRows.savePlayerFull r.toReals db toText (now e.1) e.1 (row e.2)) db

namespace State

variable (s : State F D)

def join (uuid : Uuid) (username : String) : State F D :=
  { s with
    players := s.players.insert uuid (handlePlay r s.savedPlayerData uuid username)
    ended := Function.update s.ended uuid none }

def save (now : Uuid → String) : State F D :=
  { s with
    db := savePlayers r toText now s.players.entries s.db
    saved := fun uuid => (s.players.lookup uuid).or (s.saved uuid) }

def leave (uuid : Uuid) : State F D :=
  { s with
    players := s.players.erase uuid
    ended := fun u => if u = uuid then (s.players.lookup u).or (s.ended u) else s.ended u }

def restart : State F D :=
  { s with
    savedPlayerData := loadAllPlayerData r s.db
    players := ∅
    loaded := s.saved
    ended := fun uuid => (s.players.lookup uuid).or (s.ended uuid) }

def step : Action F D → State F D
  | .join uuid username => s.join r uuid username
  | .play uuid p =>
      if uuid ∈ s.players then { s with players := s.players.insert uuid p } else s
  | .save now => s.save r toText now
  | .leave uuid => s.leave uuid
  | .restart => s.restart r

/-- **A player whose session ended is installed as it was then.** -/
def KeepsProgress : Action F D → Prop
  | .join uuid username => ∀ p, s.ended uuid = some p →
      ∃ q, (s.step r toText (.join uuid username)).players.lookup uuid = some q ∧ SameProgress q p
  | _ => True

/-- What a player left with is what the row that the process found was saved from, as far as it comes
back, or what a new player has if it found none that can be read. -/
def FoundSaved : Action F D → Prop
  | .join uuid username => ∀ p, s.ended uuid = some p →
      (∃ q, s.loaded uuid = some q ∧ Numbers r q ∧ Carried r q p) ∨
        ((∀ q, s.loaded uuid = some q → ¬ Numbers r q) ∧ SameProgress (addPlayer r username) p)
  | _ => True

/-- A player leaves just as the last save found it and comes back as stored, and the process was
restarted since the last save when it does. -/
def Orderly : Action F D → Prop
  | .join uuid _ => (s.ended uuid).isSome → s.loaded uuid = s.saved uuid
  | .leave uuid => ∀ p, s.players.lookup uuid = some p →
      s.saved uuid = some p ∧ Numbers r p ∧ Restorable r p
  | .restart => ∀ uuid p, s.players.lookup uuid = some p →
      s.saved uuid = some p ∧ Numbers r p ∧ Restorable r p
  | _ => True

end State

/-! ## What is read of what was saved -/

/-- A row is read exactly when it was saved without a NaN, and as it was saved. -/
def Reads (row? : Option (PlayerRow F D)) (saved : Option (Player F D)) : Prop :=
  ∀ loaded, row? = some loaded ↔ ∃ p, saved = some p ∧ Numbers r p ∧ loaded = row p

/-- The database holds what was saved, and the map what was saved when the process started. -/
structure Good (s : State F D) : Prop where
  db : ∀ uuid, Reads r (loadAllPlayerData r s.db uuid) (s.saved uuid)
  map : ∀ uuid, Reads r (s.savedPlayerData uuid) (s.loaded uuid)

variable {r} {toText} {s : State F D}

theorem reads_none : Reads r (none : Option (PlayerRow F D)) none :=
  fun _ => iff_of_false nofun fun ⟨_, h, _⟩ => nomatch h

theorem good_new : Good r (State.new : State F D) where
  db _ := reads_none
  map _ := reads_none

/-- Only the row of the uuid is looked at. -/
theorem loadAllPlayerData_congr {db db' : Database D} {uuid : Uuid} (h : db uuid = db' uuid) :
    loadAllPlayerData r db uuid = loadAllPlayerData r db' uuid := by
  unfold loadAllPlayerData Rows.select
  rw [h]

theorem reads_savePlayerFull (toText : Uuid → String) (db : Database D) (now : String)
    (uuid : Uuid) (p : Player F D) : Reads r (loadAllPlayerData r
      (PlayerRows.savePlayerFull r.toReals db toText now uuid (row p)) uuid) (some p) := by
  intro loaded
  rw [loadAllPlayerData_savePlayerFull]
  constructor
  · rintro ⟨hnumbers, rfl⟩
    exact ⟨p, rfl, hnumbers, rfl⟩
  · rintro ⟨q, hq, hnumbers, rfl⟩
    obtain rfl := Option.some.inj hq
    exact ⟨hnumbers, rfl⟩

/-- What is read after all the players who are online were saved. -/
theorem reads_savePlayers {now : Uuid → String} {entries : List (Sigma fun _ : Uuid => Player F D)}
    (hnodup : entries.NodupKeys) {db : Database D} {uuid : Uuid} {saved : Option (Player F D)}
    (h : Reads r (loadAllPlayerData r db uuid) saved) :
    Reads r (loadAllPlayerData r (savePlayers r toText now entries db) uuid)
      ((entries.dlookup uuid).or saved) := by
  induction entries generalizing db saved with
  | nil => exact h
  | cons e entries ih =>
      obtain ⟨u, p⟩ := e
      obtain ⟨hnot, hrest⟩ := List.nodupKeys_cons.1 hnodup
      change Reads r (loadAllPlayerData r (savePlayers r toText now entries
        (PlayerRows.savePlayerFull r.toReals db toText (now u) u (row p))) uuid) _
      by_cases hu : uuid = u
      · subst hu
        rw [List.dlookup_cons_eq, Option.some_or]
        have hnone : entries.dlookup uuid = none := List.dlookup_eq_none.2 hnot
        have hreads := ih hrest (reads_savePlayerFull toText db (now uuid) uuid p)
        rwa [hnone, Option.none_or] at hreads
      · rw [List.dlookup_cons_ne _ _ hu]
        refine ih hrest ?_
        have hother : PlayerRows.savePlayerFull r.toReals db toText (now u) u (row p) uuid =
            db uuid := Rows.replace_of_ne hu
        rwa [loadAllPlayerData_congr hother]

/-! ## One action -/

theorem good_step (hs : Good r s) (a : Action F D) : Good r (s.step r toText a) := by
  cases a with
  | join uuid username => exact ⟨hs.db, hs.map⟩
  | play uuid p =>
      dsimp only [State.step]
      split
      · exact ⟨hs.db, hs.map⟩
      · exact hs
  | save now =>
      refine ⟨fun uuid => ?_, hs.map⟩
      exact reads_savePlayers s.players.nodupKeys (hs.db uuid)
  | leave uuid => exact ⟨hs.db, hs.map⟩
  | restart => exact ⟨hs.db, hs.db⟩

/-- What a player who joins gets, when the map was saved from `loaded`. -/
theorem sameProgress_join_iff {savedPlayerData : Uuid → Option (PlayerRow F D)}
    {loaded : Option (Player F D)} {uuid : Uuid} (h : Reads r (savedPlayerData uuid) loaded)
    (username : String) (p : Player F D) :
    SameProgress (handlePlay r savedPlayerData uuid username) p ↔
      (∃ q, loaded = some q ∧ Numbers r q ∧ Carried r q p) ∨
        ((∀ q, loaded = some q → ¬ Numbers r q) ∧ SameProgress (addPlayer r username) p) := by
  by_cases hread : ∃ q, loaded = some q ∧ Numbers r q
  · obtain ⟨q, rfl, hnumbers⟩ := hread
    rw [sameProgress_handlePlay_iff ((h (row q)).2 ⟨q, rfl, hnumbers, rfl⟩)]
    constructor
    · exact fun hcarried => .inl ⟨q, rfl, hnumbers, hcarried⟩
    · rintro (⟨_, hq, -, hcarried⟩ | ⟨hnone, -⟩)
      · obtain rfl := Option.some.inj hq
        exact hcarried
      · exact absurd hnumbers (hnone q rfl)
  · have hnone : savedPlayerData uuid = none := by
      refine Option.eq_none_iff_forall_ne_some.2 fun loaded' hloaded => ?_
      obtain ⟨q, hq, hnumbers, -⟩ := (h loaded').1 hloaded
      exact hread ⟨q, hq, hnumbers⟩
    have hnew : handlePlay r savedPlayerData uuid username = addPlayer r username := by
      unfold handlePlay
      rw [hnone]
      rfl
    rw [hnew]
    constructor
    · exact fun hsame => .inr ⟨fun q hq hnumbers => hread ⟨q, hq, hnumbers⟩, hsame⟩
    · rintro (⟨q, hq, hnumbers, -⟩ | ⟨-, hsame⟩)
      · exact absurd ⟨q, hq, hnumbers⟩ hread
      · exact hsame

theorem keepsProgress_iff (hs : Good r s) (a : Action F D) :
    s.KeepsProgress r toText a ↔ s.FoundSaved r a := by
  cases a with
  | join uuid username =>
      refine forall₂_congr fun p _ => ?_
      have hlookup : (s.step r toText (.join uuid username)).players.lookup uuid =
          some (handlePlay r s.savedPlayerData uuid username) := AList.lookup_insert _
      rw [hlookup, ← sameProgress_join_iff (hs.map uuid)]
      constructor
      · rintro ⟨q, hq, hsame⟩
        obtain rfl := Option.some.inj hq
        exact hsame
      · exact fun hsame => ⟨_, rfl, hsame⟩
  | play uuid p => exact Iff.rfl
  | save now => exact Iff.rfl
  | leave uuid => exact Iff.rfl
  | restart => exact Iff.rfl

/-! ## Runs -/

/-- **Players come back as they left exactly along the runs in which what a player left with is what
the process found saved of it.** -/
theorem along_keepsProgress_iff {F D : Type} (r : Reals F D) (toText : Uuid → String)
    (as : List (Action F D)) :
    Along (State.step r toText) (State.KeepsProgress r toText) State.new as ↔
      Along (State.step r toText) (State.FoundSaved r) State.new as :=
  along_iff (Good r) (fun _ a hs => keepsProgress_iff hs a) (fun _ a hs _ => good_step hs a)
    good_new as

/-- What a player left with is saved and comes back, and the player is not online. -/
def EndedSaved (r : Reals F D) (s : State F D) : Prop :=
  ∀ uuid p, s.ended uuid = some p →
    s.saved uuid = some p ∧ Numbers r p ∧ Restorable r p ∧ uuid ∉ s.players

theorem endedSaved_step (hs : EndedSaved r s) {a : Action F D} (ha : s.Orderly r a) :
    EndedSaved r (s.step r toText a) := by
  intro u p hp
  cases a with
  | join uuid username =>
      change Function.update s.ended uuid none u = some p at hp
      by_cases hu : u = uuid
      · subst hu
        rw [Function.update_self] at hp
        cases hp
      · rw [Function.update_of_ne hu] at hp
        obtain ⟨hsaved, hnumbers, hrestorable, hoff⟩ := hs u p hp
        refine ⟨hsaved, hnumbers, hrestorable, fun hmem => ?_⟩
        exact (AList.mem_insert _).1 hmem |>.elim hu hoff
  | play uuid q =>
      dsimp only [State.step] at hp ⊢
      split at hp
      · next honline =>
          obtain ⟨hsaved, hnumbers, hrestorable, hoff⟩ := hs u p hp
          rw [if_pos honline]
          refine ⟨hsaved, hnumbers, hrestorable, fun hmem => ?_⟩
          rcases (AList.mem_insert _).1 hmem with rfl | hmem
          · exact hoff honline
          · exact hoff hmem
      · next hoffline =>
          rw [if_neg hoffline]
          exact hs u p hp
  | save now =>
      obtain ⟨hsaved, hnumbers, hrestorable, hoff⟩ := hs u p hp
      refine ⟨?_, hnumbers, hrestorable, hoff⟩
      change (s.players.lookup u).or (s.saved u) = some p
      rw [AList.lookup_eq_none.2 hoff, Option.none_or, hsaved]
  | leave uuid =>
      change (if u = uuid then (s.players.lookup u).or (s.ended u) else s.ended u) = some p at hp
      split at hp
      · next hu =>
          subst hu
          have hgone : u ∉ s.players.erase u := fun hmem => (AList.mem_erase.1 hmem).1 rfl
          rcases Option.or_eq_some_iff.1 hp with hlive | ⟨-, hp⟩
          · obtain ⟨hsaved, hnumbers, hrestorable⟩ := ha p hlive
            exact ⟨hsaved, hnumbers, hrestorable, hgone⟩
          · obtain ⟨hsaved, hnumbers, hrestorable, -⟩ := hs u p hp
            exact ⟨hsaved, hnumbers, hrestorable, hgone⟩
      · obtain ⟨hsaved, hnumbers, hrestorable, hoff⟩ := hs u p hp
        exact ⟨hsaved, hnumbers, hrestorable, fun hmem => hoff (AList.mem_erase.1 hmem).2⟩
  | restart =>
      change (s.players.lookup u).or (s.ended u) = some p at hp
      rcases Option.or_eq_some_iff.1 hp with hlive | ⟨-, hp⟩
      · obtain ⟨hsaved, hnumbers, hrestorable⟩ := ha u p hlive
        exact ⟨hsaved, hnumbers, hrestorable, AList.notMem_empty u⟩
      · obtain ⟨hsaved, hnumbers, hrestorable, -⟩ := hs u p hp
        exact ⟨hsaved, hnumbers, hrestorable, AList.notMem_empty u⟩

/-- Who left just saved, as somebody who comes back as stored, was found so. -/
theorem foundSaved_of_orderly (hs : EndedSaved r s) {a : Action F D} (ha : s.Orderly r a) :
    s.FoundSaved r a := by
  cases a with
  | join uuid username =>
      intro p hp
      obtain ⟨hsaved, hnumbers, hrestorable, -⟩ := hs uuid p hp
      refine .inl ⟨p, ?_, hnumbers, carried_self_iff.2 hrestorable⟩
      rw [ha (by rw [hp]; rfl), hsaved]
  | play uuid p => trivial
  | save now => trivial
  | leave uuid => trivial
  | restart => trivial

/-- **Players come back as they left when they leave just saved, as somebody who comes back as
stored, and the process restarts before they do.** -/
theorem keepsProgress_of_orderly {as : List (Action F D)}
    (has : Along (State.step r toText) (State.Orderly r) State.new as) :
    Along (State.step r toText) (State.KeepsProgress r toText) State.new as := by
  have hnew : Good r (State.new : State F D) ∧ EndedSaved r (State.new : State F D) := ⟨good_new, nofun⟩
  refine Along.imp (fun s => Good r s ∧ EndedSaved r s) (fun s a hs ha => ?_) (fun s a hs ha => ?_)
    hnew has
  · exact (keepsProgress_iff hs.1 a).2 (foundSaved_of_orderly hs.2 ha)
  · exact ⟨good_step hs.1 a, endedSaved_step hs.2 ha⟩

/-- A player who has moved. -/
def moved : Player Int Int := { addPlayer exactReals "Steve" with posX := 100 }

/-- **A player who leaves and joins again is back where new players start.** -/
theorem not_forall_along_keepsProgress :
    ¬ ∀ as : List (Action Int Int), Along (State.step exactReals fun _ => "")
      (State.KeepsProgress exactReals fun _ => "") State.new as := by
  intro h
  obtain ⟨q, hq, hsame⟩ := (h [.join 0 "Steve", .play 0 moved, .save fun _ => "", .leave 0,
    .join 0 "Steve"]).2.2.2.2.1 moved rfl
  obtain rfl := Option.some.inj hq
  have hx := hsame.position
  cases hx

end Apoptotic.Rejoin
