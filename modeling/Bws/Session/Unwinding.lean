import Bws.Session.Connection

/-!
# What unwinds a connection

The inputs on which the task of a connection panics. A negative length does wherever one is read,
and so do a token and a secret that are not what they should be: nothing of it is checked before it
is used. `conn_unwinds_iff` says exactly which inputs these are, for a server and a session server
that answer as they like.
-/

namespace Bws.Session

open Bws.Base Bws.Base.Proc Bws.Base.Future Bws.Protocol Bws.Server

variable {Q R J α : Type}

/-! ## Packets -/

section Packets

variable {P : Type} [FromBytes P] {hostile : Bytes → Prop}

/-- A frame is read without a panic from the bytes exactly when it is not hostile. -/
theorem packet_reader_unwinds_iff
    (hP : ∀ s, Unwinds (readFrom : Reader P) s ↔ hostile s) (s : Bytes) :
    Unwinds (packetReader P) s ↔ HostileFrame hostile s := by
  constructor
  · intro h
    rw [packetReader, unwinds_bind_iff] at h
    rcases h with h | ⟨length, middle, hlength, h⟩
    · exact absurd h (returns_read_varint s).not_unwinds
    have hstart := read_varint_ok_iff.mp hlength
    rw [allocate_length (by decide) (by decide)] at h
    split at h
    · next hnonneg =>
        rw [pure_bind, unwinds_bind_iff] at h
        rcases h with h | ⟨buf, rest, hread, h⟩
        · exact absurd h (Reader.returns_read_exact _ _).not_unwinds
        obtain ⟨rfl, hlen⟩ := Reader.read_exact_ok_iff.mp hread
        rw [as_usize_of_nonneg hnonneg] at hlen
        exact .inr ⟨buf, rest, ⟨_, hstart, by omega⟩, (hP buf).mp h⟩
    · next hneg => exact .inl ⟨_, middle, hstart, Int.lt_of_not_ge hneg⟩
  · rintro (⟨n, rest, hstart, hneg⟩ | ⟨payload, rest, hblock, hpayload⟩)
    · refine ⟨.capacityOverflow, ?_⟩
      rw [packetReader, bind_of_ok (read_varint_of_starts hstart),
        allocate_length (by decide) (by decide), if_neg (Int.not_le_of_gt hneg)]
      rfl
    · obtain ⟨reason, hreason⟩ := (hP payload).mpr hpayload
      exact ⟨reason, by rw [packet_reader_of_block hblock, hreason]⟩

/-- What follows a packet unwinds where the packet does, or behind it. -/
theorem unwinds_read_iff (hP : ∀ s, Unwinds (readFrom : Reader P) s ↔ hostile s)
    {f : P → Proc (World Q R) α} {U : P → Bytes → Prop} {w : World Q R}
    (hf : ∀ p r, TakesPacket P w.stream.pending p r.pending →
      (Unwinds (f p) { w with stream := r } ↔ U p r.pending)) :
    Unwinds ((readPacket P).run >>= f) w ↔ HostileFrame hostile w.stream.pending ∨
      ∃ p rest, TakesPacket P w.stream.pending p rest ∧ U p rest := by
  rw [unwinds_bind_iff, (reads_packet P).unwinds_iff, packet_reader_unwinds_iff hP]
  refine or_congr Iff.rfl ?_
  constructor
  · rintro ⟨p, w', hread, hunwinds⟩
    obtain ⟨htakes, hw', -⟩ := block_of_read_packet hread
    rw [hw'] at hunwinds
    exact ⟨p, _, htakes, (hf p _ htakes).mp hunwinds⟩
  · rintro ⟨p, rest, htakes, hU⟩
    obtain ⟨r, hread, rfl, -⟩ := htakes.read (w := w)
    exact ⟨p, _, hread, (hf p r htakes).mpr hU⟩

/-- The input unwinds the reader of a handshake. -/
theorem sb_handshake_unwinds_iff (s : Bytes) :
    Unwinds (readFrom : Reader SBHandshake) s ↔ SBHandshake.Hostile s := by
  rw [unwinds_iff_not_returns (sb_handshake_terminating.ends_on_every_input.ends s),
    returns_read_sb_handshake_iff, not_not]

/-- No input unwinds the reader of a status packet. -/
theorem sb_status_unwinds_iff (s : Bytes) :
    Unwinds (readFrom : Reader SBStatus) s ↔ False :=
  iff_false_intro (returns_read_sb_status s).not_unwinds

/-- The input unwinds the reader of a login packet. -/
theorem sb_login_unwinds_iff (s : Bytes) :
    Unwinds (readFrom : Reader SBLogin) s ↔ SBLogin.Hostile s := by
  rw [unwinds_iff_not_returns (sb_login_terminating.ends_on_every_input.ends s),
    returns_read_sb_login_iff, not_not]

end Packets

/-! ## Sessions -/

/-- A status session unwinds on this stream, after `n` status requests: at a frame with a negative
length, or where the server itself panics. -/
inductive StatusUnwinds (answers : Answers J) : Nat → Bytes → Prop where
  | frame {n : Nat} {s : Bytes} (h : NegativeLength s) : StatusUnwinds answers n s
  | answer {n : Nat} {s rest : Bytes} {reason : Panic}
      (h : TakesPacket SBStatus s .statusRequest rest) (hanswer : answers n = .panic reason) :
      StatusUnwinds answers n s
  | later {n : Nat} {s rest : Bytes} {p : StatusResponse J}
      (h : TakesPacket SBStatus s .statusRequest rest) (hanswer : answers n = .ok (some p))
      (hrest : StatusUnwinds answers (n + 1) rest) : StatusUnwinds answers n s

/-- A login unwinds at the packet behind the request: it is an answer, and the verdict on it is a
panic where the session server gives these answers. -/
def AnswerUnwinds (server : ServerBase J) (token : Token) (answers : List (Option String)) :
    SBLogin → Prop
  | .encryptionResponse response =>
      ∃ reason, (judge server token response).outcome answers = .panic reason
  | .loginStart _ | .pluginResponse _ => False

/-- A login unwinds behind its first packet: it gives a name, and the next frame is hostile or has a
packet that the login unwinds at. -/
def StartUnwinds (server : ServerBase J) (token : Token) (answers : List (Option String)) :
    SBLogin → Bytes → Prop
  | .loginStart _, s => HostileFrame SBLogin.Hostile s ∨ ∃ p rest, TakesPacket SBLogin s p rest ∧
      AnswerUnwinds server token answers p
  | .encryptionResponse _, _ | .pluginResponse _, _ => False

/-- A login unwinds on this stream: its first frame is hostile, or the login unwinds behind it. -/
def LoginUnwinds (server : ServerBase J) (token : Token) (answers : List (Option String))
    (s : Bytes) : Prop :=
  HostileFrame SBLogin.Hostile s ∨ ∃ p rest, TakesPacket SBLogin s p rest ∧
    StartUnwinds server token answers p rest

/-- The session of a handshake unwinds on this stream. -/
def SessionUnwinds (server : ServerBase J) (addr : SocketAddr) (token : Token)
    (answers : List (Option String)) : SBHandshake → Bytes → Prop
  | .handshake handshake, s =>
      match handshake.nextState with
      | .status => StatusUnwinds (server.answers addr handshake) 0 s
      | .login => LoginUnwinds server token answers s

section Sessions

variable [SerdeJson J] {server : ServerBase J} {addr : SocketAddr} {handshake : Handshake}
  {libraries : Libraries J} {token : Token}

omit [SerdeJson J] in
/-- What a status session unwinds on, one packet at a time. -/
theorem status_unwinds_cases {answers : Answers J} {n : Nat} {s : Bytes} :
    StatusUnwinds answers n s ↔ HostileFrame (fun _ => False) s ∨ ∃ p rest,
      TakesPacket SBStatus s p rest ∧ p = .statusRequest ∧
        ((∃ reason, answers n = .panic reason) ∨
          ∃ response, answers n = .ok (some response) ∧ StatusUnwinds answers (n + 1) rest) := by
  constructor
  · intro h
    cases h with
    | frame h => exact .inl (.inl h)
    | answer h hanswer => exact .inr ⟨_, _, h, rfl, .inl ⟨_, hanswer⟩⟩
    | later h hanswer hrest => exact .inr ⟨_, _, h, rfl, .inr ⟨_, hanswer, hrest⟩⟩
  · rintro ((h | ⟨-, -, -, ⟨⟩⟩) | ⟨-, rest, h, rfl, ⟨reason, hanswer⟩ | ⟨p, hanswer, hrest⟩⟩)
    · exact .frame h
    · exact .answer h hanswer
    · exact .later h hanswer hrest

/-- What is done with a request, and behind it. -/
theorem status_arm_unwinds_iff (hwritable : Writable (server.answers addr handshake)) {n : Nat}
    {next : Nat ⊕ Unit → Proc (World Q R) Unit} {w : World Q R} {U : Prop}
    (hdone : ∀ w', ¬ Unwinds (next (.inr ())) w')
    (hnext : ∀ sent, Unwinds (next (.inl (n + 1))) { w with sent := sent } ↔ U)
    (request : SBStatus) :
    Unwinds ((statusArm server addr handshake n request).run >>= next) w ↔
      request = .statusRequest ∧ ((∃ reason, server.answers addr handshake n = .panic reason) ∨
        ∃ response, server.answers addr handshake n = .ok (some response) ∧ U) := by
  cases request with
  | pingRequest ping =>
      rw [unwinds_of_ok (status_arm_ping ping w)]
      exact iff_of_false (hdone _) (by simp)
  | statusRequest =>
      have hended : (Future.ended (server.answers addr handshake n) : Future Q R _).run.run w =
          (server.answers addr handshake n, w) := rfl
      rcases hanswer : server.answers addr handshake n with (_ | p) | e | reason | _
      · have harm : (statusArm server addr handshake n .statusRequest).run.run w =
            (.ok (.inr ()), w) := by
          rw [status_arm_eq, hanswer]
          rfl
        rw [unwinds_of_ok harm]
        exact iff_of_false (hdone w) (by simp)
      · rw [unwinds_of_ok (status_arm_answered hanswer (hwritable n p hanswer) w)]
        exact (hnext _).trans (by simp)
      all_goals
        rw [hanswer] at hended
        rw [status_arm_eq, hanswer, Future.run_bind, bind_assoc, Unwinds]
      · rw [bind_of_err hended]
        simp
      · rw [bind_of_panic hended]
        simp
      · rw [bind_of_diverge hended]
        simp

/-- The rounds of a status session unwind exactly on the streams on which the session does, if there
are more of them than bytes. -/
theorem status_unwinds_iff (hwritable : Writable (server.answers addr handshake)) {rounds : Nat}
    (n : Nat) {w : World Q R} (hlt : w.stream.pending.length < rounds) :
    Unwinds (Future.loop (statusRound server addr handshake) rounds n).run w ↔
      StatusUnwinds (server.answers addr handshake) n w.stream.pending := by
  -- the induction is on the rounds, each of which takes a frame off the stream
  induction rounds generalizing n w with
  | zero => exact absurd hlt (Nat.not_lt_zero _)
  | succ rounds ih =>
      rw [Future.loop, Future.run_bind, statusRound, Future.run_bind, bind_assoc,
        status_unwinds_cases]
      refine unwinds_read_iff sb_status_unwinds_iff fun p r htakes => ?_
      refine status_arm_unwinds_iff hwritable (fun w' => ?_) (fun sent => ?_) p
      · rintro ⟨_, ⟨⟩⟩
      · exact ih (n + 1) (w := { w with stream := r, sent := sent })
          (Nat.lt_of_lt_of_le htakes.lt (Nat.le_of_lt_succ hlt))

/-- The answer to the request unwinds when the verdict on it is a panic. -/
theorem answer_unwinds_iff
    (hreason : StringFits (SerdeJson.toString (libraries.jsonString "Incorrect verify token")))
    (start : LoginStart) (p : SBLogin) (w : World String (Option String)) :
    Unwinds (handleAnswer server addr libraries token start p).run w ↔
      AnswerUnwinds server token w.answers p := by
  cases p with
  | encryptionResponse response =>
      obtain ⟨answers, hanswer⟩ :=
        handle_response_run server addr token hreason start response w
      rw [handleAnswer, Unwinds, hanswer]
      rfl
  | loginStart | pluginResponse =>
      refine iff_of_false ?_ id
      rintro ⟨_, ⟨⟩⟩

/-- A login unwinds exactly on the streams on which it is said to. -/
theorem login_unwinds_iff (hkey : server.rsaKeypair.publicKeyDer.length ≤ i32Max)
    (hreason : StringFits (SerdeJson.toString (libraries.jsonString "Incorrect verify token")))
    (w : World String (Option String)) :
    Unwinds (handleConnLogin server addr libraries token).run w ↔
      LoginUnwinds server token w.answers w.stream.pending := by
  rw [handleConnLogin, Future.run_bind]
  refine unwinds_read_iff sb_login_unwinds_iff fun p r _ => ?_
  cases p with
  | loginStart start =>
      rw [Unwinds, handle_start_run hkey, Future.run_bind]
      exact unwinds_read_iff (w := { w with
        stream := r, sent := w.sent ++ packetFrame (encryptionRequest server token) })
        sb_login_unwinds_iff (U := fun p _ => AnswerUnwinds server token w.answers p)
        fun p r' _ => answer_unwinds_iff hreason start p _
  | encryptionResponse | pluginResponse =>
      refine iff_of_false ?_ id
      rintro ⟨_, ⟨⟩⟩

end Sessions

/-! ## Connections -/

/-- A connection unwinds at what its first reads have been taken for: at a 1.6 ping that cannot be
taken apart, or where the server itself panics on a ping. -/
def PingUnwinds (server : ServerBase J) (addr : SocketAddr) :
    Outcome (Option (Server.LegacyPing.PingType × Server.LegacyPing.LegacyPingPayload)) → Prop
  | .ok (some (pingType, payload)) =>
      ∃ reason, server.legacyPing addr (pingOf pingType payload) = .panic reason
  | .panic _ => True
  | .ok none | .err _ | .diverge => False

/-- A connection unwinds on these reads: at a ping, at a hostile handshake, or in the session behind
it. -/
def ConnUnwinds (server : ServerBase J) (addr : SocketAddr) (token : Token) (reads : List Read)
    (ending : Ending) (answers : List (Option String)) : Prop :=
  PingUnwinds server addr (Server.LegacyPing.verdict 0 reads ending) ∨
    (Server.LegacyPing.verdict 0 reads ending = .ok none ∧
      (HostileFrame SBHandshake.Hostile (BufReader.bytes reads) ∨ ∃ p rest,
        TakesPacket SBHandshake (BufReader.bytes reads) p rest ∧
          SessionUnwinds server addr token answers p rest))

section Pings

variable {server : ServerBase J} {addr : SocketAddr}

/-- Responding to a ping unwinds when the server does. -/
theorem respond_unwinds_iff (ping : LegacyPing) (pingType : Server.LegacyPing.PingType)
    {send : LegacyPingResponse → Future Q R Unit}
    (hsend : ∀ response, send response = writeAll (LegacyPing.packet pingType response))
    (w : World Q R) :
    Unwinds (LegacyPing.respond server addr ping send).run w ↔
      ∃ reason, server.legacyPing addr ping = .panic reason := by
  have hended : (Future.ended (server.legacyPing addr ping) : Future Q R _).run.run w =
      (server.legacyPing addr ping, w) := rfl
  rw [LegacyPing.respond, Future.run_bind, Unwinds]
  rcases hanswer : server.legacyPing addr ping with (_ | response) | e | reason | _
  all_goals rw [hanswer] at hended
  · rw [bind_of_ok hended]
    exact iff_of_false (by rintro ⟨_, ⟨⟩⟩) (by simp)
  · rw [bind_of_ok hended]
    dsimp only
    rw [hsend]
    exact iff_of_false (by rintro ⟨_, ⟨⟩⟩) (by simp)
  · rw [bind_of_err hended]
    simp
  · rw [bind_of_panic hended]
    simp
  · rw [bind_of_diverge hended]
    simp

variable (server addr) in
/-- A connection whose first read is a ping. -/
theorem arm_unwinds_iff {read : Read} {pingType : Server.LegacyPing.PingType}
    (htype : Server.LegacyPing.pingType read.val = some pingType) (reads : List Read)
    (ending : Ending) (answers : List R) :
    Unwinds (LegacyPing.arm server addr [] (some pingType)).run
        (firstWorld (Q := Q) read reads ending answers) ↔
      PingUnwinds server addr (Server.LegacyPing.verdict 0 (read :: reads) ending) := by
  rw [Server.LegacyPing.verdict, Server.LegacyPing.detect_cons, htype]
  cases pingType with
  | pre1_4 => exact respond_unwinds_iff .simple .pre1_4 LegacyPing.send_pre1_4_response _
  | pre1_6 => exact respond_unwinds_iff .simple .pre1_6 LegacyPing.send14_16_response _
  | pre1_7 =>
      have hmatches := LegacyPing.matches_read_data
        (firstWorld (Q := Q) read reads ending answers)
        (Server.LegacyPing.started 0 read reads ending) rfl
      rw [map_eq_pure_bind, Proc.run_bind] at hmatches
      obtain ⟨hread, -⟩ := hmatches
      rw [LegacyPing.arm, Future.run_bind, Server.LegacyPing.judge]
      have hpayload : Server.LegacyPing.readPayload .pre1_7 = Server.LegacyPing.read1_6 := rfl
      rw [hpayload]
      rcases hrun : Server.LegacyPing.read1_6.run (Server.LegacyPing.started 0 read reads ending)
        with ⟨payload | e | reason | _, ctx⟩
      all_goals rw [hrun] at hread
      · rw [map_of_ok hrun, unwinds_of_ok hread]
        exact respond_unwinds_iff (LegacyPing.ofPayload payload) .pre1_7
          LegacyPing.send14_16_response _
      · rw [map_of_err hrun, Unwinds, bind_of_err hread]
        exact iff_of_false (by rintro ⟨_, ⟨⟩⟩) id
      · rw [map_of_panic hrun, Unwinds, bind_of_panic hread]
        exact iff_of_true ⟨reason, rfl⟩ trivial
      · rw [map_of_diverge hrun, Unwinds, bind_of_diverge hread]
        exact iff_of_false (by rintro ⟨_, ⟨⟩⟩) id

end Pings

section Connections

variable [SerdeJson J] {server : ServerBase J} {addr : SocketAddr} {libraries : Libraries J}
  {token : Token} {rounds : Nat}

/-- A session unwinds exactly on the streams on which it is said to. -/
theorem session_unwinds_iff (h : Sends server addr libraries) (p : SBHandshake)
    {w : World String (Option String)} (hlt : w.stream.pending.length < rounds) :
    Unwinds (handleSession server addr libraries token rounds p).run w ↔
      SessionUnwinds server addr token w.answers p w.stream.pending := by
  obtain ⟨handshake⟩ := p
  rw [handleSession, SessionUnwinds]
  cases handshake.nextState with
  | status => exact status_unwinds_iff (h.answers handshake) 0 hlt
  | login => exact login_unwinds_iff h.publicKey h.reason w

/-- A connection whose first read is no ping. -/
theorem modern_unwinds_iff (h : Sends server addr libraries)
    {w : World String (Option String)} (hlt : w.stream.pending.length < rounds) :
    Unwinds (handleModern server addr libraries token rounds false).run w ↔
      HostileFrame SBHandshake.Hostile w.stream.pending ∨ ∃ p rest,
        TakesPacket SBHandshake w.stream.pending p rest ∧
          SessionUnwinds server addr token w.answers p rest := by
  rw [handleModern, Future.run_bind]
  refine unwinds_read_iff sb_handshake_unwinds_iff fun p r htakes => ?_
  exact session_unwinds_iff h p (w := { w with stream := r }) (Nat.lt_trans htakes.lt hlt)

/-- The detection takes what is no ping for none. -/
theorem verdict_of_none {read : Read} (htype : Server.LegacyPing.pingType read.val = none)
    (reads : List Read) (ending : Ending) :
    Server.LegacyPing.verdict 0 (read :: reads) ending = .ok none := by
  rw [Server.LegacyPing.verdict, Server.LegacyPing.detect_cons, htype]
  rfl

/-- The detection takes a ping for one, if for anything. -/
theorem verdict_of_some {read : Read} {pingType : Server.LegacyPing.PingType}
    (htype : Server.LegacyPing.pingType read.val = some pingType) (reads : List Read)
    (ending : Ending) : Server.LegacyPing.verdict 0 (read :: reads) ending ≠ .ok none := by
  rw [Server.LegacyPing.verdict, Server.LegacyPing.detect_cons, htype,
    Server.LegacyPing.judge]
  intro h
  rcases hrun : (Server.LegacyPing.readPayload pingType).run
    (Server.LegacyPing.started 0 read reads ending) with ⟨payload | e | reason | _, ctx⟩
  · rw [map_of_ok hrun] at h
    cases h
  · rw [map_of_err hrun] at h
    cases h
  · rw [map_of_panic hrun] at h
    cases h
  · rw [map_of_diverge hrun] at h
    cases h

/-- The task of a connection panics exactly on the reads that unwind it, whatever the server and the
session server answer, if there are more rounds than bytes. -/
theorem conn_unwinds_iff (h : Sends server addr libraries) (token : Token) (rounds : Nat)
    {reads : List Read} (hlt : (BufReader.bytes reads).length < rounds) (ending : Ending)
    (answers : List (Option String)) :
    Unwinds (handleConn server addr libraries token rounds).run
        ⟨⟨[], reads, ending⟩, [], [], answers⟩ ↔
      ConnUnwinds server addr token reads ending answers := by
  rw [handleConn, LegacyPing.handle_eq, Future.run_bind, Future.run_bind, run_fill_buf, bind_assoc]
  cases reads with
  | nil =>
      cases ending with
      | closed =>
          have hfill : (zoom World.incoming BufReader.fillBuf).run
              (⟨⟨[], [], .closed⟩, [], [], answers⟩ : World String (Option String)) =
              (.ok [], ⟨⟨[], [], .closed⟩, [], [], answers⟩) := rfl
          rw [unwinds_of_ok hfill]
          refine (modern_unwinds_iff h hlt).trans ?_
          exact ⟨fun hmodern => .inr ⟨rfl, hmodern⟩, fun hconn => hconn.elim (·.elim) (·.2)⟩
      | failed e | silent =>
          refine iff_of_false ?_ ?_
          · rintro ⟨_, ⟨⟩⟩
          · rintro (h | ⟨⟨⟩, -⟩)
            exact h
  | cons read reads =>
      have hfill : (zoom World.incoming BufReader.fillBuf).run
          (⟨⟨[], read :: reads, ending⟩, [], [], answers⟩ : World String (Option String)) =
          (.ok read.val, firstWorld read reads ending answers) := rfl
      rw [unwinds_of_ok hfill]
      cases htype : Server.LegacyPing.pingType read.val with
      | none =>
          refine (modern_unwinds_iff h hlt).trans ?_
          rw [ConnUnwinds, verdict_of_none htype]
          exact ⟨fun hmodern => .inr ⟨rfl, hmodern⟩, fun hconn => hconn.elim (·.elim) (·.2)⟩
      | some pingType =>
          have hping := arm_unwinds_iff (Q := String) server addr htype reads ending answers
          rw [ConnUnwinds, unwinds_bind_iff, hping]
          refine or_congr Iff.rfl (iff_of_false ?_ fun hno => verdict_of_some htype _ _ hno.1)
          rintro ⟨b, w', harm, hunwinds⟩
          obtain ⟨o, r, hrun, hne⟩ := arm_run (Q := String) server addr htype reads ending answers
          obtain ⟨rfl, -⟩ := Prod.mk.inj (hrun.symm.trans harm)
          cases b with
          | false => exact hne rfl
          | true =>
              obtain ⟨_, hpanic⟩ := hunwinds
              cases hpanic

end Connections

/-- The length -1. -/
def minusOne : Read := ⟨[0xFF, 0xFF, 0xFF, 0xFF, 0x0F], by decide⟩

/-- Five bytes unwind a connection of `plainServer`. -/
theorem conn_unwinds_minus_one :
    Unwinds plainConn.run ⟨⟨[], [minusOne], .closed⟩, [], [], []⟩ :=
  letI := nullJson
  have hstart : StartsWithVarInt (BufReader.bytes [minusOne]) (-1) [] :=
    read_varint_ok_iff.mp (by decide)
  (conn_unwinds_iff plain_sends sevens 64 (by decide) .closed []).mpr
    (.inr ⟨rfl, .inl (.inl ⟨-1, [], hstart, by decide⟩)⟩)

end Bws.Session
