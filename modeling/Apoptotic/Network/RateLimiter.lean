import Apoptotic.Lib.Reached
import Apoptotic.Lib.Windows
import Mathlib.Data.List.Induction
import Mathlib.Logic.Function.Basic

/-!
# The rate limiter

`RateLimiter` of `mc-network/src/rate_limiter.rs`.  Times are nanoseconds since it was created, and
calls come in the order of their times.  The counter of a connection is a `Nat`: it only counts the
packets of one second.

Beside the limiter, the accepted connections are logged, and the accepted packets of each address:
those `counted` since its counter was last reset, and those `forgotten` then.  No call reads them.

Principal result: `along_sound_iff` — the limits hold in every window exactly along the runs in
which no port that has room itself overlooks its IP's other ports, and no counter that has room
overlooks packets it forgot less than a second ago.
-/

namespace Apoptotic.RateLimits

open Windows

/-- An IPv4 or IPv6 address. -/
inductive IpAddr where
  | v4 (bits : BitVec 32)
  | v6 (bits : BitVec 128)
  deriving DecidableEq

structure SocketAddr where
  ip : IpAddr
  port : BitVec 16
  deriving DecidableEq

/-- A second in nanoseconds. -/
def SECOND : Nat := 1000000000

structure RateLimiter where
  connections : SocketAddr → List Nat
  /-- The count, and the second of the last reset. -/
  packets : SocketAddr → Option (Nat × Nat)

namespace RateLimiter

variable (s : RateLimiter) (now : Nat) (addr : SocketAddr)

def new : RateLimiter := ⟨fun _ => [], fun _ => none⟩

/-- `entry.retain(|t| now.duration_since(*t).as_secs() < 60)` -/
def purge (times : List Nat) : List Nat := times.filter fun t => decide ((now - t) / SECOND < 60)

def checkConnection : Bool × RateLimiter :=
  let entry := purge now (s.connections addr)
  if 5 ≤ entry.length then
    (false, { s with connections := Function.update s.connections addr entry })
  else (true, { s with connections := Function.update s.connections addr (entry ++ [now]) })

def cleanupConnection : RateLimiter :=
  { s with packets := Function.update s.packets addr none }

/-- The count that the next packet finds. -/
def current (nowSecs : Nat) : Nat × Nat :=
  match s.packets addr with
  | none => (0, nowSecs)
  -- new second: reset the counter
  | some (count, last) => if 1 ≤ nowSecs - last then (0, nowSecs) else (count, last)

def checkPacket : Bool × RateLimiter :=
  let (count, last) := s.current addr (now / SECOND)
  (decide (count < 20),
    { s with packets := Function.update s.packets addr (some (count + 1, last)) })

def cleanupStale : RateLimiter :=
  { s with
    packets := fun addr => (s.packets addr).filter fun e => decide (now / SECOND - e.2 < 60) }

end RateLimiter

/-! ## Runs -/

inductive Action where
  | checkConnection (addr : SocketAddr)
  | checkPacket (addr : SocketAddr)
  | cleanupConnection (addr : SocketAddr)
  | cleanupStale

/-- A call, and the time since the call before. -/
structure Call where
  delay : Nat
  action : Action

structure State where
  limiter : RateLimiter
  clock : Nat
  accepted : List (SocketAddr × Nat)
  counted : SocketAddr → List Nat
  forgotten : SocketAddr → List Nat

/-- The times in a log that stand with the addresses that meet `p`. -/
def timesOf (p : SocketAddr → Bool) (log : List (SocketAddr × Nat)) : List Nat :=
  (log.filter fun e => p e.1).map Prod.snd

namespace State

variable (s : State)

def new : State := ⟨.new, 0, [], fun _ => [], fun _ => []⟩

/-- The packets that the next one's counter has forgotten. -/
def carried (now : Nat) (addr : SocketAddr) : List Nat :=
  match s.limiter.packets addr with
  | none => s.forgotten addr ++ s.counted addr
  | some (_, last) =>
      if 1 ≤ now / SECOND - last then s.forgotten addr ++ s.counted addr else s.forgotten addr

/-- The packets that it counts. -/
def kept (now : Nat) (addr : SocketAddr) : List Nat :=
  match s.limiter.packets addr with
  | none => []
  | some (_, last) => if 1 ≤ now / SECOND - last then [] else s.counted addr

def connect (now : Nat) (addr : SocketAddr) : State :=
  let (ok, limiter) := s.limiter.checkConnection now addr
  { s with
    limiter := limiter
    clock := now
    accepted := if ok then s.accepted ++ [(addr, now)] else s.accepted }

def packet (now : Nat) (addr : SocketAddr) : State :=
  let (ok, limiter) := s.limiter.checkPacket now addr
  { s with
    limiter := limiter
    clock := now
    counted := Function.update s.counted addr
      (if ok then s.kept now addr ++ [now] else s.kept now addr)
    forgotten := Function.update s.forgotten addr (s.carried now addr) }

def step (call : Call) : State :=
  let now := s.clock + call.delay
  match call.action with
  | .checkConnection addr => s.connect now addr
  | .checkPacket addr => s.packet now addr
  | .cleanupConnection addr => { s with limiter := s.limiter.cleanupConnection addr, clock := now }
  | .cleanupStale => { s with limiter := s.limiter.cleanupStale now, clock := now }

/-- **At most 5 connections from one IP address in any 60 seconds, and at most 20 packets from one
connection in any second.** -/
structure Sound : Prop where
  connections : ∀ ip, Within 5 (60 * SECOND) (timesOf (fun a => decide (a.ip = ip)) s.accepted)
  packets : ∀ addr, Within 20 SECOND (s.forgotten addr ++ s.counted addr)

/-- The connections of the last 60 seconds from other ports of the IP address. -/
def elsewhere (now : Nat) (addr : SocketAddr) : List Nat :=
  recent (60 * SECOND) now (timesOf (fun a => decide (a.ip = addr.ip ∧ a ≠ addr)) s.accepted)

/-- A port or a counter that has room for one more does not overlook that there is none: with the
other ports, or with the packets it forgot in the last second. -/
def RoomLeft (call : Call) : Prop :=
  let now := s.clock + call.delay
  match call.action with
  | .checkConnection addr =>
      let own := (RateLimiter.purge now (s.limiter.connections addr)).length
      own < 5 → own + (s.elsewhere now addr).length < 5
  | .checkPacket addr =>
      let count := (s.limiter.current addr (now / SECOND)).1
      count < 20 → count + (recent SECOND now (s.carried now addr)).length < 20
  | _ => True

end State

/-! ## What the tables hold -/

/-- The tables and the logs agree. -/
structure Kept (s : State) : Prop where
  past : ∀ e ∈ s.accepted, e.2 ≤ s.clock
  pastPackets : ∀ addr, ∀ t ∈ s.forgotten addr ++ s.counted addr, t ≤ s.clock
  ports : ∀ addr now, s.clock ≤ now → recent (60 * SECOND) now (s.limiter.connections addr) =
    recent (60 * SECOND) now (timesOf (fun a => decide (a = addr)) s.accepted)
  counter : ∀ addr count last, s.limiter.packets addr = some (count, last) →
    last ≤ s.clock / SECOND ∧ (∀ t ∈ s.counted addr, t / SECOND = last) ∧
      (s.counted addr).length = min count 20

theorem SECOND_pos : 0 < SECOND := by decide

/-- Purging keeps what is recent. -/
theorem purge_eq_recent {now : Nat} {times : List Nat} :
    RateLimiter.purge now times = recent (60 * SECOND) now times := by
  refine List.filter_congr fun t _ => ?_
  rw [decide_eq_decide, Nat.div_lt_iff_lt_mul SECOND_pos]
  unfold SECOND
  omega


theorem timesOf_append (p : SocketAddr → Bool) (log : List (SocketAddr × Nat)) (addr : SocketAddr)
    (now : Nat) :
    timesOf p (log ++ [(addr, now)]) = timesOf p log ++ if p addr then [now] else [] := by
  unfold timesOf
  rw [List.filter_append, List.map_append]
  cases h : p addr <;> simp [h]

theorem mem_timesOf {p : SocketAddr → Bool} {log : List (SocketAddr × Nat)} {t : Nat}
    (h : t ∈ timesOf p log) : ∃ e ∈ log, e.2 = t := by
  obtain ⟨e, he, rfl⟩ := List.mem_map.1 h
  exact ⟨e, (List.mem_filter.1 he).1, rfl⟩

/-- The recent connections of an IP address are those from a port and those from elsewhere. -/
theorem length_recent_timesOf (len now : Nat) (addr : SocketAddr)
    (log : List (SocketAddr × Nat)) :
    (recent len now (timesOf (fun a => decide (a.ip = addr.ip)) log)).length =
      (recent len now (timesOf (fun a => decide (a = addr)) log)).length +
        (recent len now
          (timesOf (fun a => decide (a.ip = addr.ip ∧ a ≠ addr)) log)).length := by
  induction log using List.reverseRecOn with
  | nil => rfl
  | append_singleton log e ih =>
      obtain ⟨a, t⟩ := e
      simp only [timesOf_append, length_recent_append, ih]
      by_cases ha : a = addr
      · simp [ha]
        omega
      · simp [ha]
        omega

variable {s : State} {now : Nat} {addr : SocketAddr}

/-! ## Connections -/

theorem connections_connect (s : State) (now : Nat) (addr : SocketAddr) :
    (s.connect now addr).limiter.connections addr =
      recent (60 * SECOND) now (s.limiter.connections addr) ++
        if (RateLimiter.purge now (s.limiter.connections addr)).length < 5 then [now] else [] := by
  unfold State.connect RateLimiter.checkConnection
  rw [← purge_eq_recent]
  by_cases h : 5 ≤ (RateLimiter.purge now (s.limiter.connections addr)).length
  · rw [if_pos h, if_neg (Nat.not_lt.2 h), List.append_nil]
    exact Function.update_self ..
  · rw [if_neg h, if_pos (Nat.not_le.1 h)]
    exact Function.update_self ..

theorem connections_connect_of_ne (s : State) (now : Nat) {addr a : SocketAddr} (h : a ≠ addr) :
    (s.connect now addr).limiter.connections a = s.limiter.connections a := by
  unfold State.connect RateLimiter.checkConnection
  dsimp only
  split <;> exact Function.update_of_ne h ..

theorem accepted_connect (s : State) (now : Nat) (addr : SocketAddr) :
    (s.connect now addr).accepted = s.accepted ++
      if (RateLimiter.purge now (s.limiter.connections addr)).length < 5 then [(addr, now)]
      else [] := by
  unfold State.connect RateLimiter.checkConnection
  by_cases h : 5 ≤ (RateLimiter.purge now (s.limiter.connections addr)).length
  · rw [if_pos h, if_neg (Nat.not_lt.2 h), List.append_nil]
    rfl
  · rw [if_neg h, if_pos (Nat.not_le.1 h)]
    rfl

theorem packets_connect (s : State) (now : Nat) (addr : SocketAddr) :
    (s.connect now addr).limiter.packets = s.limiter.packets := by
  unfold State.connect RateLimiter.checkConnection
  dsimp only
  split <;> rfl

theorem kept_connect (hs : Kept s) (hnow : s.clock ≤ now) : Kept (s.connect now addr) where
  past := by
    change ∀ e ∈ (s.connect now addr).accepted, e.2 ≤ now
    rw [accepted_connect]
    intro e he
    rcases List.mem_append.1 he with he | he
    · exact Nat.le_trans (hs.past e he) hnow
    · split at he
      · obtain rfl := List.mem_singleton.1 he
        exact Nat.le_refl _
      · cases he
  pastPackets a t ht := Nat.le_trans (hs.pastPackets a t ht) hnow
  ports a later hlater := by
    change now ≤ later at hlater
    rw [accepted_connect]
    by_cases ha : a = addr
    · subst ha
      rw [connections_connect, recent_append, recent_recent hlater,
        hs.ports a later (Nat.le_trans hnow hlater)]
      split
      · rw [timesOf_append, recent_append, decide_eq_true rfl]
        rfl
      · rw [List.append_nil, recent_nil, List.append_nil]
    · rw [connections_connect_of_ne s now ha, hs.ports a later (Nat.le_trans hnow hlater)]
      split
      · rw [timesOf_append, decide_eq_false fun h => ha h.symm, if_neg Bool.false_ne_true,
          List.append_nil]
      · rw [List.append_nil]
  counter a count last h := by
    rw [packets_connect] at h
    obtain ⟨hlast, hcounted⟩ := hs.counter a count last h
    exact ⟨Nat.le_trans hlast (Nat.div_le_div_right hnow), hcounted⟩

/-- A port that has room is sound exactly if the other ports of its IP leave room too. -/
theorem sound_connect_iff (hs : Kept s) (hsound : s.Sound) (hnow : s.clock ≤ now) :
    (s.connect now addr).Sound ↔
      let own := (RateLimiter.purge now (s.limiter.connections addr)).length
      own < 5 → own + (s.elsewhere now addr).length < 5 := by
  have hpast : ∀ p, ∀ t ∈ timesOf p s.accepted, t ≤ now := by
    intro p t ht
    obtain ⟨e, he, rfl⟩ := mem_timesOf ht
    exact Nat.le_trans (hs.past e he) hnow
  have hrecent : (recent (60 * SECOND) now
      (timesOf (fun a => decide (a.ip = addr.ip)) s.accepted)).length =
      (RateLimiter.purge now (s.limiter.connections addr)).length +
        (s.elsewhere now addr).length := by
    rw [length_recent_timesOf, purge_eq_recent, hs.ports addr now hnow]
    rfl
  have hwithin : ∀ ip, Within 5 (60 * SECOND)
      (timesOf (fun a => decide (a.ip = ip)) (s.accepted ++ [(addr, now)])) ↔
      (addr.ip = ip → (RateLimiter.purge now (s.limiter.connections addr)).length +
        (s.elsewhere now addr).length < 5) := by
    intro ip
    rw [timesOf_append]
    by_cases hip : addr.ip = ip
    · subst hip
      rw [decide_eq_true rfl, if_pos rfl, within_append_iff (by decide) (hpast _), hrecent]
      exact (and_iff_right (hsound.connections _)).trans ⟨fun h _ => h, fun h => h rfl⟩
    · rw [decide_eq_false hip, if_neg Bool.false_ne_true, List.append_nil]
      exact iff_of_true (hsound.connections ip) fun h => absurd h hip
  have hiff : (s.connect now addr).Sound ↔ ∀ ip, Within 5 (60 * SECOND)
      (timesOf (fun a => decide (a.ip = ip)) (s.connect now addr).accepted) :=
    ⟨State.Sound.connections, fun h => ⟨h, hsound.packets⟩⟩
  rw [hiff, accepted_connect]
  by_cases hroom : (RateLimiter.purge now (s.limiter.connections addr)).length < 5
  · rw [if_pos hroom]
    simp only [hwithin]
    exact ⟨fun h _ => h addr.ip rfl, fun h _ _ => h hroom⟩
  · rw [if_neg hroom, List.append_nil]
    exact iff_of_true hsound.connections fun h => absurd h hroom

/-! ## Packets -/

theorem carried_append_kept (s : State) (now : Nat) (addr : SocketAddr) :
    s.carried now addr ++ s.kept now addr = s.forgotten addr ++ s.counted addr := by
  unfold State.carried State.kept
  cases s.limiter.packets addr with
  | none => exact List.append_nil _
  | some e =>
      dsimp only
      split
      · exact List.append_nil _
      · rfl

/-- The count that a packet finds is that of the packets accepted in its second since the last
reset, up to the limit. -/
theorem kept_spec (hs : Kept s) (hnow : s.clock ≤ now) (addr : SocketAddr) :
    (s.limiter.current addr (now / SECOND)).2 = now / SECOND ∧
      (∀ t ∈ s.kept now addr, t / SECOND = now / SECOND) ∧
      (s.kept now addr).length = min (s.limiter.current addr (now / SECOND)).1 20 := by
  unfold State.kept RateLimiter.current
  cases hentry : s.limiter.packets addr with
  | none => exact ⟨rfl, nofun, rfl⟩
  | some e =>
      obtain ⟨count, last⟩ := e
      obtain ⟨hlast, hcounted, hlength⟩ := hs.counter addr count last hentry
      dsimp only
      split
      · exact ⟨rfl, nofun, rfl⟩
      · rename_i hsame
        have hle : s.clock / SECOND ≤ now / SECOND := Nat.div_le_div_right hnow
        have heq : last = now / SECOND := by omega
        exact ⟨heq, fun t ht => (hcounted t ht).trans heq, hlength⟩

theorem packets_packet (s : State) (now : Nat) (addr : SocketAddr) :
    (s.packet now addr).limiter.packets = Function.update s.limiter.packets addr
      (some ((s.limiter.current addr (now / SECOND)).1 + 1,
        (s.limiter.current addr (now / SECOND)).2)) := rfl

theorem counted_packet (s : State) (now : Nat) (addr : SocketAddr) :
    (s.packet now addr).counted = Function.update s.counted addr (s.kept now addr ++
      if (s.limiter.current addr (now / SECOND)).1 < 20 then [now] else []) := by
  change Function.update s.counted addr
    (if decide ((s.limiter.current addr (now / SECOND)).1 < 20) = true then _ else _) = _
  generalize (s.limiter.current addr (now / SECOND)).1 = count
  by_cases h : count < 20
  · rw [if_pos (decide_eq_true h), if_pos h]
  · rw [decide_eq_false h, if_neg Bool.false_ne_true, if_neg h, List.append_nil]

theorem forgotten_packet (s : State) (now : Nat) (addr : SocketAddr) :
    (s.packet now addr).forgotten =
      Function.update s.forgotten addr (s.carried now addr) := rfl

/-- The accepted packets of the address after another one. -/
theorem packets_accepted (s : State) (now : Nat) (addr : SocketAddr) :
    (s.packet now addr).forgotten addr ++ (s.packet now addr).counted addr =
      s.forgotten addr ++ s.counted addr ++
        if (s.limiter.current addr (now / SECOND)).1 < 20 then [now] else [] := by
  rw [forgotten_packet, counted_packet, Function.update_self, Function.update_self,
    ← carried_append_kept s now addr, List.append_assoc]

theorem packets_accepted_of_ne (s : State) (now : Nat) {addr a : SocketAddr} (h : a ≠ addr) :
    (s.packet now addr).forgotten a ++ (s.packet now addr).counted a =
      s.forgotten a ++ s.counted a := by
  rw [forgotten_packet, counted_packet, Function.update_of_ne h, Function.update_of_ne h]

theorem kept_packet (hs : Kept s) (hnow : s.clock ≤ now) : Kept (s.packet now addr) where
  past e he := Nat.le_trans (hs.past e he) hnow
  pastPackets a t ht := by
    change t ≤ now
    by_cases ha : a = addr
    · subst ha
      rw [packets_accepted] at ht
      rcases List.mem_append.1 ht with ht | ht
      · exact Nat.le_trans (hs.pastPackets a t ht) hnow
      · split at ht
        · exact Nat.le_of_eq (List.mem_singleton.1 ht)
        · cases ht
    · rw [packets_accepted_of_ne s now ha] at ht
      exact Nat.le_trans (hs.pastPackets a t ht) hnow
  ports a later hlater := hs.ports a later (Nat.le_trans hnow hlater)
  counter a count last h := by
    rw [packets_packet] at h
    rw [counted_packet]
    by_cases ha : a = addr
    · subst ha
      obtain ⟨hsecond, hkept, hlength⟩ := kept_spec hs hnow a
      rw [Function.update_self] at h ⊢
      obtain ⟨rfl, rfl⟩ := Prod.mk.inj (Option.some.inj h)
      rw [hsecond]
      refine ⟨Nat.le_refl _, ?_, ?_⟩
      · intro t ht
        rcases List.mem_append.1 ht with ht | ht
        · exact hkept t ht
        · split at ht
          · rw [List.mem_singleton.1 ht]
          · cases ht
      · rw [List.length_append, hlength]
        split
        · rw [List.length_singleton]
          omega
        · rw [List.length_nil]
          omega
    · rw [Function.update_of_ne ha] at h ⊢
      obtain ⟨hlast, hcounted⟩ := hs.counter a count last h
      exact ⟨Nat.le_trans hlast (Nat.div_le_div_right hnow), hcounted⟩

/-- A counter that has room is sound exactly if the packets it forgot leave room too. -/
theorem sound_packet_iff (hs : Kept s) (hsound : s.Sound) (hnow : s.clock ≤ now) :
    (s.packet now addr).Sound ↔
      let count := (s.limiter.current addr (now / SECOND)).1
      count < 20 → count + (recent SECOND now (s.carried now addr)).length < 20 := by
  obtain ⟨-, hkept, hlength⟩ := kept_spec hs hnow addr
  have hfresh : recent SECOND now (s.kept now addr) = s.kept now addr := by
    refine recent_eq_self fun t ht => ?_
    have hsame := hkept t ht
    have hdiv := Nat.div_add_mod t SECOND
    have hdivNow := Nat.div_add_mod now SECOND
    have hmod := Nat.mod_lt now SECOND_pos
    rw [hsame] at hdiv
    omega
  have hiff : (s.packet now addr).Sound ↔ Within 20 SECOND
      ((s.packet now addr).forgotten addr ++ (s.packet now addr).counted addr) := by
    refine ⟨fun h => h.packets addr, fun h => ⟨hsound.connections, fun a => ?_⟩⟩
    by_cases ha : a = addr
    · rwa [ha]
    · rw [packets_accepted_of_ne s now ha]
      exact hsound.packets a
  rw [hiff, packets_accepted]
  by_cases hroom : (s.limiter.current addr (now / SECOND)).1 < 20
  · have hpast : ∀ t ∈ s.forgotten addr ++ s.counted addr, t ≤ now :=
      fun t ht => Nat.le_trans (hs.pastPackets addr t ht) hnow
    rw [if_pos hroom, within_append_iff SECOND_pos hpast, and_iff_right (hsound.packets addr),
      ← carried_append_kept s now addr, length_recent_append, hfresh, hlength,
      Nat.min_eq_left (Nat.le_of_lt hroom), Nat.add_comm]
    exact ⟨fun h _ => h, fun h => h hroom⟩
  · rw [if_neg hroom, List.append_nil]
    exact iff_of_true (hsound.packets addr) fun h => absurd h hroom

/-! ## Cleanups -/

theorem kept_cleanupConnection (hs : Kept s) (hnow : s.clock ≤ now) (addr : SocketAddr) :
    Kept { s with limiter := s.limiter.cleanupConnection addr, clock := now } where
  past e he := Nat.le_trans (hs.past e he) hnow
  pastPackets a t ht := Nat.le_trans (hs.pastPackets a t ht) hnow
  ports a later hlater := hs.ports a later (Nat.le_trans hnow hlater)
  counter a count last h := by
    change Function.update s.limiter.packets addr none a = _ at h
    by_cases ha : a = addr
    · rw [ha, Function.update_self] at h
      cases h
    · rw [Function.update_of_ne ha] at h
      obtain ⟨hlast, hcounted⟩ := hs.counter a count last h
      exact ⟨Nat.le_trans hlast (Nat.div_le_div_right hnow), hcounted⟩

theorem kept_cleanupStale (hs : Kept s) (hnow : s.clock ≤ now) :
    Kept { s with limiter := s.limiter.cleanupStale now, clock := now } where
  past e he := Nat.le_trans (hs.past e he) hnow
  pastPackets a t ht := Nat.le_trans (hs.pastPackets a t ht) hnow
  ports a later hlater := hs.ports a later (Nat.le_trans hnow hlater)
  counter a count last h := by
    change (s.limiter.packets a).filter _ = _ at h
    obtain ⟨hlast, hcounted⟩ := hs.counter a count last (Option.mem_filter_iff.1 h).1
    exact ⟨Nat.le_trans hlast (Nat.div_le_div_right hnow), hcounted⟩

/-! ## Runs -/

theorem kept_step (hs : Kept s) (call : Call) : Kept (s.step call) := by
  obtain ⟨delay, action⟩ := call
  have hnow : s.clock ≤ s.clock + delay := Nat.le_add_right _ _
  cases action with
  | checkConnection addr => exact kept_connect hs hnow
  | checkPacket addr => exact kept_packet hs hnow
  | cleanupConnection addr => exact kept_cleanupConnection hs hnow addr
  | cleanupStale => exact kept_cleanupStale hs hnow

theorem sound_step_iff (hs : Kept s) (hsound : s.Sound) (call : Call) :
    (s.step call).Sound ↔ s.RoomLeft call := by
  obtain ⟨delay, action⟩ := call
  have hnow : s.clock ≤ s.clock + delay := Nat.le_add_right _ _
  cases action with
  | checkConnection addr => exact sound_connect_iff hs hsound hnow
  | checkPacket addr => exact sound_packet_iff hs hsound hnow
  | cleanupConnection addr =>
      exact iff_of_true ⟨hsound.connections, hsound.packets⟩ trivial
  | cleanupStale => exact iff_of_true ⟨hsound.connections, hsound.packets⟩ trivial

theorem kept_new : Kept State.new where
  past := nofun
  pastPackets := nofun
  ports _ _ _ := rfl
  counter := nofun

theorem sound_new : State.new.Sound := ⟨fun _ => within_nil, fun _ => within_nil⟩

/-- **The limits hold after every call exactly along the runs in which each port and each counter
that has room leaves room in its window.** -/
theorem along_sound_iff (calls : List Call) :
    Along State.step (fun s call => (s.step call).Sound) State.new calls ↔
      Along State.step State.RoomLeft State.new calls :=
  along_iff (fun s => Kept s ∧ s.Sound) (fun _ call hs => sound_step_iff hs.1 hs.2 call)
    (fun _ call hs h => ⟨kept_step hs.1 call, (sound_step_iff hs.1 hs.2 call).2 h⟩)
    ⟨kept_new, sound_new⟩ calls

/-- Six connections at once, each from a port of its own. -/
theorem not_forall_along_sound :
    ¬ ∀ calls : List Call,
      Along State.step (fun s call => (s.step call).Sound) State.new calls := by
  intro h
  obtain ⟨-, -, -, -, -, ⟨hconnections, -⟩, -⟩ := h
    [⟨0, .checkConnection ⟨.v4 0, 1⟩⟩, ⟨0, .checkConnection ⟨.v4 0, 2⟩⟩,
      ⟨0, .checkConnection ⟨.v4 0, 3⟩⟩, ⟨0, .checkConnection ⟨.v4 0, 4⟩⟩,
      ⟨0, .checkConnection ⟨.v4 0, 5⟩⟩, ⟨0, .checkConnection ⟨.v4 0, 6⟩⟩]
  have hsix := hconnections (.v4 0) 0
  revert hsix
  decide

end Apoptotic.RateLimits
