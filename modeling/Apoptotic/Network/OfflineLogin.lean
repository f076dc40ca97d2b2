import Apoptotic.Network.Joining
import Apoptotic.Player.ClientText
import Apoptotic.Protocol.Packets
import Mathlib.Data.Set.Function

/-!
# Logging in without Mojang

`handle_login` of `mc-network/src/connection.rs` in offline mode, from a decoded `LoginStart` to the
player that `handle_play` installs.  The hash of `Uuid::new_v3` is a parameter.

Principal result: `identity_iff` — the uuids of logins go with their names, also beside logins that
send no uuid, and only a name's own entries decide what its login comes to, exactly when every login
sends no uuid or that of its name.
-/

namespace Apoptotic.OfflineLogin

open Join (Reals Player)
open PlayerRows (PlayerRow)

abbrev Uuid := Join.Uuid

def NAMESPACE_OID : Uuid := 0x6ba7b8129dad11d180b400c04fd430c8

def OFFLINE_PLAYER_PREFIX : String := "OfflinePlayer:"

variable (newV3 : Uuid → List Bytes.Byte → Uuid)

def offlineUuid (username : String) : Uuid :=
  newV3 NAMESPACE_OID (Enchant.utf8Bytes (OFFLINE_PLAYER_PREFIX ++ username))

/-- `login_start.player_uuid.unwrap_or_else(|| offline_uuid(&login_start.username))` -/
def playerUuid (loginStart : LoginStart) : Uuid :=
  loginStart.playerUuid.getD (offlineUuid newV3 loginStart.username)

/-- What the server knows of players who are not online. -/
structure Server (F D : Type) where
  banned : List Uuid
  whitelist : Bool × List Uuid
  savedPlayerData : Uuid → Option (PlayerRow F D)

variable {F D : Type} (r : Reals F D)

namespace Server

variable (s : Server F D) (uuid : Uuid)

def isBanned : Bool := s.banned.contains uuid

def isWhitelisted : Bool := !s.whitelist.1 || s.whitelist.2.contains uuid

end Server

/-- What a login comes to. -/
inductive Login (F D : Type) where
  | banned
  | notWhitelisted
  /-- The player is registered under the uuid. -/
  | joined (uuid : Uuid) (player : Player F D)

def handleLogin (s : Server F D) (loginStart : LoginStart) : Login F D :=
  let uuid := playerUuid newV3 loginStart
  if s.isBanned uuid then .banned
  else if ¬ s.isWhitelisted uuid then .notWhitelisted
  else .joined uuid (Join.handlePlay r s.savedPlayerData uuid loginStart.username)

/-! ## Whose login it is -/

/-- **Two logins have the same uuid exactly when they have the same name.** -/
def FollowNames (logins : List LoginStart) : Prop :=
  ∀ l ∈ logins, ∀ l' ∈ logins,
    playerUuid newV3 l = playerUuid newV3 l' ↔ l.username = l'.username

/-- The servers have the same entries under the uuid. -/
structure SameEntries (s s' : Server F D) (uuid : Uuid) : Prop where
  banned : s.isBanned uuid = s'.isBanned uuid
  whitelisted : s.isWhitelisted uuid = s'.isWhitelisted uuid
  saved : s.savedPlayerData uuid = s'.savedPlayerData uuid

/-- **Only the entries of its own name decide what a login comes to.** -/
def OwnEntriesDecide (l : LoginStart) : Prop :=
  ∀ s s' : Server F D, SameEntries s s' (offlineUuid newV3 l.username) →
    handleLogin newV3 r s l = handleLogin newV3 r s' l

/-- The login sends no uuid, or that of its name. -/
def Honest (l : LoginStart) : Prop :=
  ∀ uuid, l.playerUuid = some uuid → uuid = offlineUuid newV3 l.username

/-- The same name, without a uuid. -/
def bare (l : LoginStart) : LoginStart := { l with playerUuid := none }

variable {newV3 r} {l : LoginStart}

theorem playerUuid_bare : playerUuid newV3 (bare l) = offlineUuid newV3 l.username := rfl

theorem honest_iff : Honest newV3 l ↔ playerUuid newV3 l = offlineUuid newV3 l.username := by
  unfold Honest playerUuid
  cases l.playerUuid with
  | none => exact iff_of_true nofun rfl
  | some uuid => simp

theorem honest_bare : Honest newV3 (bare l) := honest_iff.2 rfl

/-- No two of the names have the same offline uuid. -/
theorem followNames_of_honest {logins : List LoginStart}
    (hinj : Set.InjOn (offlineUuid newV3) {name | ∃ l ∈ logins, l.username = name})
    (h : ∀ l ∈ logins, Honest newV3 l) : FollowNames newV3 logins := by
  intro l hl l' hl'
  rw [honest_iff.1 (h l hl), honest_iff.1 (h l' hl')]
  exact hinj.eq_iff ⟨l, hl, rfl⟩ ⟨l', hl', rfl⟩

theorem ownEntriesDecide_iff : OwnEntriesDecide newV3 r l ↔ Honest newV3 l := by
  rw [honest_iff]
  constructor
  · intro h
    by_contra hne
    -- one server bans the uuid that was sent, the other nobody
    let open' : Server F D := ⟨[], (false, []), fun _ => none⟩
    let bans : Server F D := ⟨[playerUuid newV3 l], (false, []), fun _ => none⟩
    have hsame : SameEntries open' bans (offlineUuid newV3 l.username) := by
      refine ⟨?_, rfl, rfl⟩
      change false = [playerUuid newV3 l].contains (offlineUuid newV3 l.username)
      simp [Ne.symm hne]
    have heq := h open' bans hsame
    have hbanned : handleLogin newV3 r bans l = .banned := if_pos (by simp [bans, Server.isBanned])
    rw [hbanned] at heq
    cases heq
  · intro h s s' hsame
    simp only [handleLogin, Join.handlePlay, h, hsame.banned, hsame.whitelisted, hsame.saved]

/-- **The uuids of logins go with their names, also beside logins that send no uuid, exactly when
every login sends no uuid or that of its name, and these are the logins that only the entries of
their own name decide.**  No two of the names have the same offline uuid. -/
theorem identity_iff {F D : Type} (r : Reals F D) (newV3 : Uuid → List Bytes.Byte → Uuid)
    (logins : List LoginStart)
    (hinj : Set.InjOn (offlineUuid newV3) {name | ∃ l ∈ logins, l.username = name}) :
    (FollowNames newV3 (logins ++ logins.map bare) ↔ ∀ l ∈ logins, Honest newV3 l) ∧
      ∀ l ∈ logins, OwnEntriesDecide newV3 r l ↔ Honest newV3 l := by
  refine ⟨⟨fun h l hl => ?_, fun h => followNames_of_honest ?_ ?_⟩,
    fun l _ => ownEntriesDecide_iff⟩
  · have hbare : bare l ∈ logins.map bare := List.mem_map_of_mem hl
    exact honest_iff.2 ((h l (List.mem_append_left _ hl) _ (List.mem_append_right _ hbare)).2 rfl)
  · refine hinj.mono ?_
    rintro _ ⟨l, hl, rfl⟩
    rcases List.mem_append.1 hl with hl | hl
    · exact ⟨l, hl, rfl⟩
    · obtain ⟨l', hl', rfl⟩ := List.mem_map.1 hl
      exact ⟨l', hl', rfl⟩
  · intro l hl
    rcases List.mem_append.1 hl with hl | hl
    · exact h l hl
    · obtain ⟨l', -, rfl⟩ := List.mem_map.1 hl
      exact honest_bare

/-- The hashes of two names. -/
def twoHashes (_ : Uuid) (name : List Bytes.Byte) : Uuid :=
  if name = Enchant.utf8Bytes "OfflinePlayer:Alice" then 0xf23986c38c02307cbbbd973fcaa19fc4
  else if name = Enchant.utf8Bytes "OfflinePlayer:Mallory" then 0x6aa8af7f5949340cbcf47fde3cd0bda6
  else 0

def alice : LoginStart := ⟨"Alice", none⟩

/-- Mallory sends Alice's uuid. -/
def mallory : LoginStart := ⟨"Mallory", some 0xf23986c38c02307cbbbd973fcaa19fc4⟩

theorem injOn_twoHashes : Set.InjOn (offlineUuid twoHashes)
    {name | ∃ l ∈ [alice, mallory], l.username = name} := by
  have hnames : ∀ name, (∃ l ∈ [alice, mallory], l.username = name) →
      name = "Alice" ∨ name = "Mallory" := by
    rintro _ ⟨l, hl, rfl⟩
    rcases List.mem_pair.1 hl with rfl | rfl
    · exact .inl rfl
    · exact .inr rfl
  have hne : offlineUuid twoHashes "Alice" ≠ offlineUuid twoHashes "Mallory" := by decide
  intro n hn n' hn' heq
  rcases hnames n hn with rfl | rfl <;> rcases hnames n' hn' with rfl | rfl
  · rfl
  · exact absurd heq hne
  · exact absurd heq.symm hne
  · rfl

theorem identity_iff_mallory :
    (FollowNames twoHashes ([alice, mallory] ++ [alice, mallory].map bare) ↔
      ∀ l ∈ [alice, mallory], Honest twoHashes l) ∧
      ∀ l ∈ [alice, mallory], OwnEntriesDecide twoHashes Join.exactReals l ↔ Honest twoHashes l :=
  identity_iff Join.exactReals twoHashes [alice, mallory] injOn_twoHashes

/-- **Mallory has Alice's uuid.** -/
theorem not_forall_followNames :
    ¬ ∀ (newV3 : Uuid → List Bytes.Byte → Uuid) (logins : List LoginStart),
      Set.InjOn (offlineUuid newV3) {name | ∃ l ∈ logins, l.username = name} →
        FollowNames newV3 logins := by
  intro h
  have hsame := h twoHashes [alice, mallory] injOn_twoHashes alice List.mem_cons_self mallory
    (List.mem_cons_of_mem _ List.mem_cons_self)
  exact absurd (hsame.1 (by decide)) (by decide)

end Apoptotic.OfflineLogin
