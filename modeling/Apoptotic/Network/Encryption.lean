import Apoptotic.Lib.Feedback
import Apoptotic.Lib.Reached
import Apoptotic.Protocol.Codec
import Mathlib.Data.List.Induction

/-!
# Encrypted connections

`mc-network/src/encryption.rs` and the framing of `mc-network/src/packet_io.rs`.  AES is an arbitrary
function on blocks.  The peer treats the length prefix as plaintext and keeps a register for each
direction; the code keeps one register for both.

Principal result: `inSync_iff` — a history of calls stays in sync under every block function and
shared secret exactly when its non-empty bodies all go the same way.
-/

namespace Apoptotic.Encryption

open Bytes Outcome Feedback

/-! ## The cipher -/

abbrev Block := Vector Byte 16

/-- `AesCfb8`, with the block function of its key. -/
structure AesCfb8 where
  aes : Block → Block
  state : Block

/-- The first byte of the encrypted register. -/
def keystream (aes : Block → Block) (buf : Block) : Byte := (aes buf)[0]

/-- `buf.copy_within(1..16, 0); buf[15] = byte`. -/
def feed (buf : Block) (byte : Byte) : Block :=
  Vector.ofFn fun i => if h : i.val + 1 < 16 then buf[i.val + 1] else byte

namespace AesCfb8

/-- The shared secret is the key and the first register. -/
def new (aes : Block → Block) (key : Block) : AesCfb8 := ⟨aes, key⟩

def encrypt (c : AesCfb8) (data : List Byte) : AesCfb8 × List Byte :=
  let (state, data) := Feedback.encrypt (keystream c.aes) feed c.state data
  ({ c with state := state }, data)

def decrypt (c : AesCfb8) (data : List Byte) : AesCfb8 × List Byte :=
  let (state, data) := Feedback.decrypt (keystream c.aes) feed c.state data
  ({ c with state := state }, data)

end AesCfb8

/-! ## `PacketStream` -/

structure PacketStream where
  encryption : Option AesCfb8

/-- The prefix loop of `write_frame`: how many bytes the length takes, none if it is too large. -/
def prefixLen (shift count : Nat) : List Byte → Option Nat
  | [] => some count
  | byte :: data =>
      if byte &&& 0x80#8 = 0#8 then some (count + 1)
      else if shift + 7 ≥ 32 ∨ count + 1 ≥ 5 then none
      else prefixLen (shift + 7) (count + 1) data

namespace PacketStream

def enableEncryption (_ : PacketStream) (aes : Block → Block) (key : Block) : PacketStream :=
  ⟨some (AesCfb8.new aes key)⟩

/-- `read_frame`: the body of the first frame in the stream, and what follows it. -/
def readFrame (s : PacketStream) (stream : List Byte) :
    Outcome StreamError (PacketStream × List Byte × List Byte) := do
  let (frame, stream) ← Apoptotic.readFrame stream
  match s.encryption with
  | some cipher =>
      let (cipher, frame) := cipher.decrypt frame
      pure (⟨some cipher⟩, frame, stream)
  | none => pure (s, frame, stream)

/-- `write_frame`: what goes onto the stream. -/
def writeFrame (s : PacketStream) (data : List Byte) :
    Outcome StreamError (PacketStream × List Byte) :=
  match s.encryption with
  | some cipher =>
      match prefixLen 0 0 data with
      | none => .err (.invalidData "VarInt too large in outgoing frame")
      | some n =>
          let (cipher, body) := cipher.encrypt (data.drop n)
          .ok (⟨some cipher⟩, data.take n ++ body)
  | none => .ok (s, data)

end PacketStream

/-! ## The peer -/

/-- A client with a cipher for each direction. -/
structure Peer where
  incoming : AesCfb8
  outgoing : AesCfb8

namespace Peer

def send (p : Peer) (body : List Byte) : Peer × List Byte :=
  let (outgoing, encrypted) := p.outgoing.encrypt body
  ({ p with outgoing := outgoing }, writeVarint (lenAsI32 body) ++ encrypted)

def receive (p : Peer) (stream : List Byte) :
    Outcome StreamError (Peer × List Byte × List Byte) := do
  let (length, stream) ← readLength 0#32 0 stream
  require (asUsize length ≤ stream.length) .unexpectedEof
  let (incoming, body) := p.incoming.decrypt (stream.take (asUsize length))
  pure ({ p with incoming := incoming }, body, stream.drop (asUsize length))

end Peer

/-! ## Histories -/

/-- The body of a frame; its length fits the prefix. -/
structure FrameBody where
  bytes : List Byte
  fits : bytes.length < 2147483648

/-- The frame as it is handed to `write_frame`. -/
def FrameBody.frame (body : FrameBody) : List Byte :=
  writeVarint (lenAsI32 body.bytes) ++ body.bytes

/-- A call on the server's stream: a body that it writes, or one that the peer has encrypted. -/
inductive Call where
  | writeFrame (body : FrameBody)
  | readFrame (body : FrameBody)

structure Connection where
  server : PacketStream
  peer : Peer

/-- Encryption has been enabled on both sides. -/
def Connection.start (aes : Block → Block) (key : Block) : Connection where
  server := PacketStream.enableEncryption ⟨none⟩ aes key
  peer := ⟨AesCfb8.new aes key, AesCfb8.new aes key⟩

/-- A call and the peer's part in it.  Each direction is a queue, so that it does not matter when the
peer takes a frame out or has put it in. -/
def Connection.step (c : Connection) : Call → Connection
  | .writeFrame body =>
      match c.server.writeFrame body.frame with
      | .ok (server, stream) =>
          match c.peer.receive stream with
          | .ok (peer, _, _) => ⟨server, peer⟩
          | _ => ⟨server, c.peer⟩
      | _ => c
  | .readFrame body =>
      let (peer, stream) := c.peer.send body.bytes
      match c.server.readFrame stream with
      | .ok (server, _, _) => ⟨server, peer⟩
      | _ => ⟨c.server, peer⟩

/-- The other side gets the body, and nothing is left of the frame. -/
def Delivered (c : Connection) : Call → Prop
  | .writeFrame body =>
      ∃ server stream peer, c.server.writeFrame body.frame = .ok (server, stream) ∧
        c.peer.receive stream = .ok (peer, body.bytes, [])
  | .readFrame body =>
      ∃ server, c.server.readFrame (c.peer.send body.bytes).2 = .ok (server, body.bytes, [])

/-- Every body of the history is recovered. -/
def InSync (aes : Block → Block) (key : Block) (history : List Call) : Prop :=
  Along Connection.step Delivered (Connection.start aes key) history

/-- What the server writes. -/
def Call.written : Call → List Byte
  | .writeFrame body => body.bytes
  | .readFrame _ => []

/-- What the server is sent. -/
def Call.received : Call → List Byte
  | .writeFrame _ => []
  | .readFrame body => body.bytes

/-- All bytes of the history go the same way. -/
def OneWay (history : List Call) : Prop :=
  history.flatMap Call.written = [] ∨ history.flatMap Call.received = []

/-- The transport's limit on what is read. -/
def WithinLimit (history : List Call) : Prop :=
  ∀ call ∈ history, call.received.length ≤ 2097152

/-! ## Framing -/

theorem prefixLen_of_readVarintLoop {value v : BitVec 32} {count n : Nat} {data : List Byte}
    (h : readVarintLoop value (7 * count) count data = .ok (v, n)) :
    prefixLen (7 * count) count data = some n := by
  induction data generalizing value count with
  | nil => cases h
  | cons byte data ih =>
      unfold readVarintLoop at h
      unfold prefixLen
      dsimp only at h
      split at h
      · rename_i hlast
        cases h
        rw [if_pos hlast]
      · rename_i hlast
        split at h
        · cases h
        · rename_i hshift
          rw [if_neg hlast, if_neg (by omega)]
          rw [show 7 * count + 7 = 7 * (count + 1) by omega] at h ⊢
          exact ih h

theorem prefixLen_frame (body : FrameBody) :
    prefixLen 0 0 body.frame = some (writeVarint (lenAsI32 body.bytes)).length := by
  have h : readVarintLoop 0#32 (7 * 0) 0 body.frame = .ok (_, _) :=
    readVarint_writeVarint (lenAsI32 body.bytes) body.bytes
  exact prefixLen_of_readVarintLoop h

theorem asUsize_lenAsI32 {data : List Byte} (h : data.length < 2147483648) :
    asUsize (lenAsI32 data) = data.length := asUsize_ofNat h

section

variable (aes : Block → Block)

/-- The register after some plaintext. -/
def after (r : Block) (body : List Byte) : Block :=
  (Feedback.encrypt (keystream aes) feed r body).1

/-- The ciphertext. -/
def cipherText (r : Block) (body : List Byte) : List Byte :=
  (Feedback.encrypt (keystream aes) feed r body).2

theorem length_cipherText (r : Block) (body : List Byte) :
    (cipherText aes r body).length = body.length := length_encrypt _ _ r body

/-- What comes out at a register `r'` when `r` encrypted. -/
def recovered (r r' : Block) (body : List Byte) : Block × List Byte :=
  Feedback.decrypt (keystream aes) feed r' (cipherText aes r body)

theorem recovered_self (r : Block) (body : List Byte) :
    recovered aes r r body = (after aes r body, body) := decrypt_encrypt _ _ r body

/-- The connection with these registers. -/
def conn (server incoming outgoing : Block) : Connection where
  server := ⟨some ⟨aes, server⟩⟩
  peer := ⟨⟨aes, incoming⟩, ⟨aes, outgoing⟩⟩

theorem start_eq (key : Block) : Connection.start aes key = conn aes key key key := rfl

variable (s i o : Block) (body : FrameBody)

theorem writeFrame_conn : (conn aes s i o).server.writeFrame body.frame =
    .ok (⟨some ⟨aes, after aes s body.bytes⟩⟩,
      writeVarint (lenAsI32 body.bytes) ++ cipherText aes s body.bytes) := by
  unfold conn PacketStream.writeFrame
  dsimp only
  rw [prefixLen_frame]
  unfold FrameBody.frame
  dsimp only
  rw [List.drop_left, List.take_left]
  rfl

theorem receive_conn : (conn aes s i o).peer.receive
      (writeVarint (lenAsI32 body.bytes) ++ cipherText aes s body.bytes) =
    .ok (⟨⟨aes, (recovered aes s i body.bytes).1⟩, ⟨aes, o⟩⟩,
      (recovered aes s i body.bytes).2, []) := by
  have hlen := length_cipherText aes s body.bytes
  unfold conn Peer.receive
  rw [readLength_writeVarint, ok_bind]
  dsimp only
  rw [asUsize_lenAsI32 body.fits, require_pos (by omega), ok_bind,
    List.take_of_length_le (by omega), List.drop_of_length_le (by omega)]
  rfl

theorem step_writeFrame : (conn aes s i o).step (.writeFrame body) =
    conn aes (after aes s body.bytes) (recovered aes s i body.bytes).1 o := by
  unfold Connection.step
  dsimp only
  rw [writeFrame_conn]
  dsimp only
  rw [receive_conn]
  rfl

theorem delivered_writeFrame : Delivered (conn aes s i o) (.writeFrame body) ↔
    (recovered aes s i body.bytes).2 = body.bytes := by
  unfold Delivered
  dsimp only
  rw [writeFrame_conn]
  constructor
  · rintro ⟨server, stream, peer, hwrite, hreceive⟩
    cases hwrite
    rw [receive_conn] at hreceive
    exact (Prod.mk.inj (Prod.mk.inj (Outcome.ok.inj hreceive)).2).1
  · intro h
    refine ⟨_, _, ⟨⟨aes, (recovered aes s i body.bytes).1⟩, ⟨aes, o⟩⟩, rfl, ?_⟩
    rw [receive_conn, h]

theorem send_conn : (conn aes s i o).peer.send body.bytes =
    (⟨⟨aes, i⟩, ⟨aes, after aes o body.bytes⟩⟩,
      writeVarint (lenAsI32 body.bytes) ++ cipherText aes o body.bytes) := rfl

theorem readFrame_conn (hlimit : body.bytes.length ≤ 2097152) :
    (conn aes s i o).server.readFrame
      (writeVarint (lenAsI32 body.bytes) ++ cipherText aes o body.bytes) =
    .ok (⟨some ⟨aes, (recovered aes o s body.bytes).1⟩⟩, (recovered aes o s body.bytes).2, []) := by
  have hlen := length_cipherText aes o body.bytes
  unfold conn PacketStream.readFrame Apoptotic.readFrame
  rw [readLength_writeVarint, ok_bind]
  dsimp only
  rw [asUsize_lenAsI32 body.fits, require_pos hlimit, ok_bind, require_pos (by omega), ok_bind,
    List.take_of_length_le (by omega), List.drop_of_length_le (by omega)]
  rfl

/-- A longer body is refused. -/
theorem readFrame_conn_of_gt (hlimit : ¬ body.bytes.length ≤ 2097152) :
    ∃ e, (conn aes s i o).server.readFrame
      (writeVarint (lenAsI32 body.bytes) ++ cipherText aes o body.bytes) = .err e := by
  unfold conn PacketStream.readFrame Apoptotic.readFrame
  rw [readLength_writeVarint, ok_bind]
  dsimp only
  rw [asUsize_lenAsI32 body.fits, require_neg hlimit]
  exact ⟨_, rfl⟩

theorem step_readFrame (hlimit : body.bytes.length ≤ 2097152) :
    (conn aes s i o).step (.readFrame body) =
      conn aes (recovered aes o s body.bytes).1 i (after aes o body.bytes) := by
  unfold Connection.step
  dsimp only
  rw [send_conn]
  dsimp only
  rw [readFrame_conn aes s i o body hlimit]
  rfl

theorem delivered_readFrame : Delivered (conn aes s i o) (.readFrame body) ↔
    body.bytes.length ≤ 2097152 ∧ (recovered aes o s body.bytes).2 = body.bytes := by
  unfold Delivered
  dsimp only
  rw [send_conn]
  dsimp only
  by_cases hlimit : body.bytes.length ≤ 2097152
  · rw [readFrame_conn aes s i o body hlimit, and_iff_right hlimit]
    constructor
    · rintro ⟨server, hread⟩
      exact (Prod.mk.inj (Prod.mk.inj (Outcome.ok.inj hread)).2).1
    · intro h
      exact ⟨_, by rw [h]⟩
  · obtain ⟨e, he⟩ := readFrame_conn_of_gt aes s i o body hlimit
    rw [he]
    exact iff_of_false (fun ⟨server, h⟩ => nomatch h) fun h => hlimit h.1

end

/-! ## One-way histories -/

section

variable (aes : Block → Block)

theorem after_append (r : Block) (body body' : List Byte) :
    after aes r (body ++ body') = after aes (after aes r body) body' := encrypt_append _ _ r body body'

/-- While the peer sends nothing, the server's register is the one the peer reads with. -/
theorem run_written {history : List Call} (h : history.flatMap Call.received = []) (r o : Block) :
    Along Connection.step Delivered (conn aes r r o) history ∧
      history.foldl Connection.step (conn aes r r o) =
        conn aes (after aes r (history.flatMap Call.written))
          (after aes r (history.flatMap Call.written)) o := by
  induction history generalizing r with
  | nil => exact ⟨trivial, rfl⟩
  | cons call history ih =>
      rw [List.flatMap_cons, List.append_eq_nil_iff] at h
      rw [Along, List.foldl_cons, List.flatMap_cons, after_append]
      cases call with
      | writeFrame body =>
          rw [delivered_writeFrame, step_writeFrame, recovered_self]
          obtain ⟨halong, hfold⟩ := ih h.2 (after aes r body.bytes)
          exact ⟨⟨rfl, halong⟩, hfold⟩
      | readFrame body =>
          have hempty : body.bytes = [] := h.1
          have hlimit : body.bytes.length ≤ 2097152 := by
            rw [hempty]
            exact Nat.zero_le _
          rw [delivered_readFrame, step_readFrame aes r r o body hlimit, hempty]
          obtain ⟨halong, hfold⟩ := ih h.2 r
          exact ⟨⟨⟨Nat.zero_le _, rfl⟩, halong⟩, hfold⟩

/-- While the server writes nothing, its register is the one the peer sends with. -/
theorem run_received {history : List Call} (h : history.flatMap Call.written = [])
    (hlimit : WithinLimit history) (r i : Block) :
    Along Connection.step Delivered (conn aes r i r) history ∧
      history.foldl Connection.step (conn aes r i r) =
        conn aes (after aes r (history.flatMap Call.received)) i
          (after aes r (history.flatMap Call.received)) := by
  induction history generalizing r with
  | nil => exact ⟨trivial, rfl⟩
  | cons call history ih =>
      rw [List.flatMap_cons, List.append_eq_nil_iff] at h
      have hrest : WithinLimit history := fun c hc => hlimit c (List.mem_cons_of_mem _ hc)
      rw [Along, List.foldl_cons, List.flatMap_cons, after_append]
      cases call with
      | writeFrame body =>
          have hempty : body.bytes = [] := h.1
          rw [delivered_writeFrame, step_writeFrame, hempty]
          obtain ⟨halong, hfold⟩ := ih h.2 hrest r
          exact ⟨⟨rfl, halong⟩, hfold⟩
      | readFrame body =>
          have hbody : body.bytes.length ≤ 2097152 := hlimit _ (List.mem_cons_self ..)
          rw [delivered_readFrame, step_readFrame aes r i r body hbody, recovered_self]
          obtain ⟨halong, hfold⟩ := ih h.2 hrest (after aes r body.bytes)
          exact ⟨⟨⟨hbody, rfl⟩, halong⟩, hfold⟩

theorem inSync_of_oneWay (key : Block) {history : List Call} (h : OneWay history)
    (hlimit : WithinLimit history) : InSync aes key history := by
  unfold InSync
  rw [start_eq]
  rcases h with hwritten | hreceived
  · exact (run_received aes hwritten hlimit key key).1
  · exact (run_written aes hreceived key key).1

/-- No longer body is delivered. -/
theorem withinLimit_of_along {history : List Call} {s i o : Block}
    (h : Along Connection.step Delivered (conn aes s i o) history) : WithinLimit history := by
  induction history generalizing s i o with
  | nil => exact fun _ hc => nomatch hc
  | cons call history ih =>
      obtain ⟨hdelivered, hrest⟩ := h
      cases call with
      | writeFrame body =>
          rw [step_writeFrame] at hrest
          exact List.forall_mem_cons.2 ⟨Nat.zero_le _, ih hrest⟩
      | readFrame body =>
          have hlimit := ((delivered_readFrame aes s i o body).1 hdelivered).1
          rw [step_readFrame aes s i o body hlimit] at hrest
          exact List.forall_mem_cons.2 ⟨hlimit, ih hrest⟩

end

/-! ## The first call in the other direction -/

/-- A block function that sets one register apart. -/
def apart (key : Block) (buf : Block) : Block :=
  if buf = key then Vector.replicate 16 0#8 else Vector.replicate 16 1#8

theorem keystream_apart (key buf : Block) :
    keystream (apart key) buf = if buf = key then 0#8 else 1#8 := by
  unfold keystream apart
  split <;> rfl

/-- The secret for a last plaintext byte. -/
def secretFor (b : Byte) : Block := Vector.replicate 16 (b ^^^ 2#8)

theorem feed_last (buf : Block) (byte : Byte) : (feed buf byte)[15] = byte := by
  unfold feed
  rw [Vector.getElem_ofFn]
  rfl

/-- Behind the plaintext the register is no longer the secret. -/
theorem after_ne_secret (body : List Byte) (b : Byte) :
    after (apart (secretFor b)) (secretFor b) (body ++ [b]) ≠ secretFor b := by
  intro h
  rw [after_append] at h
  have hlast := congrArg (fun buf : Block => buf[15]) h
  have hfeed : (after (apart (secretFor b)) (after (apart (secretFor b)) (secretFor b) body) [b])[15] =
      b ^^^ keystream (apart (secretFor b)) (after (apart (secretFor b)) (secretFor b) body) :=
    feed_last _ _
  rw [hfeed, keystream_apart] at hlast
  have hsecret : (secretFor b)[15] = b ^^^ 2#8 := by
    unfold secretFor
    rw [Vector.getElem_replicate]
  rw [hsecret] at hlast
  have hcancel := congrArg (b ^^^ ·) hlast
  simp only [← BitVec.xor_assoc, BitVec.xor_self, BitVec.zero_xor] at hcancel
  split at hcancel
  · exact absurd hcancel (by decide)
  · exact absurd hcancel (by decide)

/-- So the two sides do not agree on the next byte. -/
theorem keystream_ne {body : List Byte} (hbody : body ≠ []) : ∃ (aes : Block → Block) (key : Block),
    keystream aes (after aes key body) ≠ keystream aes key := by
  obtain ⟨bs, b, rfl⟩ := (List.eq_nil_or_concat body).resolve_left hbody
  refine ⟨apart (secretFor b), secretFor b, ?_⟩
  rw [List.concat_eq_append, keystream_apart, keystream_apart, if_neg (after_ne_secret bs b),
    if_pos rfl]
  decide

/-- A history that is not one-way turns around somewhere. -/
theorem exists_turn {history : List Call} (h : ¬ OneWay history) :
    ∃ before call rest, history = before ++ call :: rest ∧
      ((before.flatMap Call.received = [] ∧ before.flatMap Call.written ≠ [] ∧ call.received ≠ []) ∨
        (before.flatMap Call.written = [] ∧ before.flatMap Call.received ≠ [] ∧
          call.written ≠ [])) := by
  induction history using List.reverseRecOn with
  | nil => exact absurd (.inl rfl) h
  | append_singleton history call ih =>
      by_cases hbefore : OneWay history
      · refine ⟨history, call, [], rfl, ?_⟩
        unfold OneWay at h
        rw [List.flatMap_append, List.flatMap_append, List.flatMap_singleton, List.flatMap_singleton,
          List.append_eq_nil_iff, List.append_eq_nil_iff, not_or, not_and, not_and] at h
        obtain ⟨hwrite, hread⟩ := h
        cases call with
        | writeFrame body =>
            have hreceived : history.flatMap Call.received ≠ [] := fun h => hread h rfl
            have hwritten := hbefore.resolve_right hreceived
            exact .inr ⟨hwritten, hreceived, hwrite hwritten⟩
        | readFrame body =>
            have hwritten : history.flatMap Call.written ≠ [] := fun h => hwrite h rfl
            have hreceived := hbefore.resolve_left hwritten
            exact .inl ⟨hreceived, hwritten, hread hreceived⟩
      · obtain ⟨before, turn, rest, rfl, hturn⟩ := ih hbefore
        exact ⟨before, turn, rest ++ [call], by simp, hturn⟩

/-- What is recovered begins as the plaintext only when the keystreams agree. -/
theorem keystream_of_recovered {aes : Block → Block} {r r' : Block} {body : List Byte}
    (hne : body ≠ []) (h : (recovered aes r r' body).2 = body) :
    keystream aes r' = keystream aes r := by
  obtain ⟨b, bs, rfl⟩ := List.exists_cons_of_ne_nil hne
  exact keystream_eq (keystream aes) feed h

theorem oneWay_of_inSync {history : List Call}
    (h : ∀ (aes : Block → Block) (key : Block), InSync aes key history)
    (hlimit : WithinLimit history) : OneWay history := by
  by_contra hturn
  obtain ⟨before, call, rest, rfl, hcase⟩ := exists_turn hturn
  rcases hcase with ⟨hreceived, hwritten, hcall⟩ | ⟨hwritten, hreceived, hcall⟩
  · obtain ⟨aes, key, hne⟩ := keystream_ne hwritten
    have hsync := h aes key
    unfold InSync at hsync
    rw [start_eq, along_append, (run_written aes hreceived key key).2] at hsync
    cases call with
    | writeFrame body => exact hcall rfl
    | readFrame body =>
        have hdelivered := ((delivered_readFrame ..).1 hsync.2.1).2
        exact hne (keystream_of_recovered hcall hdelivered)
  · obtain ⟨aes, key, hne⟩ := keystream_ne hreceived
    have hsync := h aes key
    have hbefore : WithinLimit before := fun c hc => hlimit c (List.mem_append_left _ hc)
    unfold InSync at hsync
    rw [start_eq, along_append, (run_received aes hwritten hbefore key key).2] at hsync
    cases call with
    | writeFrame body =>
        have hdelivered := (delivered_writeFrame ..).1 hsync.2.1
        exact hne (keystream_of_recovered hcall hdelivered).symm
    | readFrame body => exact hcall rfl

/-- **A history stays in sync, whatever the block function and the secret are, exactly when its
    bytes all go the same way and the bodies that are read are within the limit.** -/
theorem inSync_iff (history : List Call) :
    (∀ (aes : Block → Block) (key : Block), InSync aes key history) ↔
      OneWay history ∧ WithinLimit history := by
  constructor
  · intro h
    have hlimit : WithinLimit history :=
      withinLimit_of_along id (h id (Vector.replicate 16 0#8))
    exact ⟨oneWay_of_inSync h hlimit, hlimit⟩
  · rintro ⟨honeWay, hlimit⟩ aes key
    exact inSync_of_oneWay aes key honeWay hlimit

/-- A body of one byte. -/
def oneByte : FrameBody := ⟨[0#8], by decide⟩

/-- **After the server has written a byte, it does not recover the byte it is sent.** -/
theorem not_forall_inSync : ¬ ∀ (history : List Call) (aes : Block → Block) (key : Block),
    InSync aes key history := by
  intro h
  have hhistory := h [.writeFrame oneByte, .readFrame oneByte]
  have honeWay := oneWay_of_inSync hhistory fun call hcall => by
    rcases List.mem_cons.1 hcall with rfl | hcall
    · decide
    · rw [List.mem_singleton.1 hcall]
      decide
  rcases honeWay with hwritten | hreceived
  · exact absurd hwritten (by decide)
  · exact absurd hreceived (by decide)

end Apoptotic.Encryption
