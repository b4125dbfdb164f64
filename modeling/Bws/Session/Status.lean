import Bws.Protocol.PacketLaws
import Bws.Session.Frames
import Bws.Session.Server
import Bws.Server.HostileInput

/-!
# The status session

`handle_conn_status` reads requests and sends a response to each until it has answered a ping, or
the server has no response. `conversation` is what the responses to some requests should be, with
no frames, buffers or rounds, and `status_session` says that on every stream the session sends
the frames of just these, and where it stops.
-/

namespace Bws.Session

open Bws.Base Bws.Base.Proc Bws.Base.Future Bws.Protocol Bws.Server

variable {Q R J : Type} [SerdeJson J]

/-! ## The session -/

/-- What is done with a request that comes after `n` status requests. -/
def statusArm (server : ServerBase J) (addr : SocketAddr) (handshake : Handshake) (n : Nat) :
    SBStatus → Future Q R (Nat ⊕ Unit)
  | .statusRequest => do
      match ← .ended (server.ping n addr handshake.protocolVersion.val
          handshake.serverAddress.inner handshake.serverPort) with
      | some p => do
          -- a JSON text of more than 32767 bytes is logged, and sent all the same
          writePacket (.statusResponse p : CBStatus J)
          pure (.inl (n + 1))
      | none => pure (.inr ())
  | .pingRequest r => do
      writePacket (.pingResponse ⟨r.payload⟩ : CBStatus J)
      pure (.inr ())

/-- One round of the loop, after `n` status requests. -/
def statusRound (server : ServerBase J) (addr : SocketAddr) (handshake : Handshake) (n : Nat) :
    Future Q R (Nat ⊕ Unit) := do
  statusArm server addr handshake n (← readPacket SBStatus)

/-- Handle a connection in the status state, for at most so many rounds. -/
def handleConnStatus (server : ServerBase J) (addr : SocketAddr) (handshake : Handshake)
    (rounds : Nat) : Future Q R Unit :=
  Future.loop (statusRound server addr handshake) rounds 0

/-! ## What it should send -/

/-- What a server answers to the status requests of one connection, the first with number 0. -/
abbrev Answers (J : Type) := Nat → Outcome (Option (StatusResponse J))

/-- The answers to the client of a handshake. -/
def ServerBase.answers (server : ServerBase J) (addr : SocketAddr) (handshake : Handshake) :
    Answers J :=
  fun n => server.ping n addr handshake.protocolVersion.val handshake.serverAddress.inner
    handshake.serverPort

/-- The responses to some requests, the first of which is answered after `n` status requests:
one to each, up to the answer to a ping or to where the server has none. -/
def conversation (answers : Answers J) : Nat → List SBStatus → List (CBStatus J)
  | _, [] => []
  | n, .statusRequest :: requests =>
      match answers n with
      | .ok (some p) => .statusResponse p :: conversation answers (n + 1) requests
      | _ => []
  | _, .pingRequest r :: _ => [.pingResponse ⟨r.payload⟩]

/-- How a session ends that has read these requests, if it does not go on. -/
def conclusion (answers : Answers J) : Nat → List SBStatus → Option (Outcome Unit)
  | _, [] => none
  | n, .statusRequest :: requests =>
      match answers n with
      | .ok (some _) => conclusion answers (n + 1) requests
      | .ok none => some (.ok ())
      | .err e => some (.err e)
      | .panic r => some (.panic r)
      | .diverge => some .diverge
  | _, .pingRequest _ :: _ => some (.ok ())

/-- Every response that a server gives can be written: its JSON text is not over 2 GiB. -/
def Writable (answers : Answers J) : Prop :=
  ∀ n p, answers n = .ok (some p) → StringFits (SerdeJson.toString p.json.val)

/-- The session has gone on for as long as it can: it has come to its conclusion, with the bytes
behind the last request unread, or no further request is in front of what is left, and it ends
without a conclusion, unless the stream stays silent. -/
def Stops (answers : Answers J) (n : Nat) (requests : List SBStatus) (rest : Bytes)
    (before : BufReader) (outcome : Outcome Unit) (after : BufReader) : Prop :=
  (conclusion answers n requests = some outcome ∧ after.pending = rest) ∨
    (conclusion answers n requests = none ∧ (∀ p rest', ¬ TakesPacket SBStatus rest p rest') ∧
      outcome ≠ .ok () ∧ (before.ending ≠ .silent → outcome ≠ .diverge))

/-- What a session of so many rounds, that begins after `n` status requests, has done in a run,
with the requests it has read: it has sent the frames of the responses to them, and has stopped
behind them, unless it has run out of rounds. -/
structure Served (answers : Answers J) (n rounds : Nat) (w : World Q R) (requests : List SBStatus)
    (rest : Bytes) (run : Outcome Unit × World Q R) : Prop where
  takes : TakesPackets SBStatus w.stream.pending requests rest
  sends : run.2 = { w with
    stream := run.2.stream
    sent := w.sent ++ (conversation answers n requests).flatMap packetFrame }
  stops : w.stream.pending.length < rounds →
    Stops answers n requests rest w.stream run.1 run.2.stream

/-! ## The session -/

/-- A status response that can be written is sent in its frame. -/
theorem write_status_response {p : StatusResponse J}
    (h : StringFits (SerdeJson.toString p.json.val)) :
    (writePacket (.statusResponse p : CBStatus J) : Future Q R Unit) =
      writeAll (packetFrame (.statusResponse p : CBStatus J)) := by
  obtain ⟨-, hwrite⟩ | ⟨hfails, -⟩ :=
    write_packet_cases (cb_status_format (J := J)) (.statusResponse p)
  · exact hwrite
  · exact absurd (((variant_succeeds 0 (one_field_succeeds (string_succeeds _))) []).mpr h) hfails

/-- An answer to a ping is sent in its frame. -/
theorem write_ping_response (p : PingResponse) :
    (writePacket (.pingResponse p : CBStatus J) : Future Q R Unit) =
      writeAll (packetFrame (.pingResponse p : CBStatus J)) := by
  obtain ⟨-, hwrite⟩ | ⟨hfails, -⟩ :=
    write_packet_cases (cb_status_format (J := J)) (.pingResponse p)
  · exact hwrite
  · exact absurd ((cb_status_ping_succeeds p []).mpr trivial) hfails

section Rounds

variable {server : ServerBase J} {addr : SocketAddr} {handshake : Handshake} {n : Nat}
  {w : World Q R}

/-- A round on a request. -/
theorem status_round_of_takes (server : ServerBase J) (addr : SocketAddr) (handshake : Handshake)
    (n : Nat) {request : SBStatus} {rest : Bytes}
    (h : TakesPacket SBStatus w.stream.pending request rest) :
    ∃ r, r.pending = rest ∧ r.ending = w.stream.ending ∧
      (statusRound server addr handshake n).run.run w =
        (statusArm server addr handshake n request).run.run { w with stream := r } :=
  run_read_bind h

/-- The arm of a status request. -/
theorem status_arm_eq :
    (statusArm server addr handshake n .statusRequest : Future Q R _) =
      ((Future.ended (server.answers addr handshake n) : Future Q R _) >>= fun
        | some p => do
            writePacket (.statusResponse p : CBStatus J)
            pure (.inl (n + 1))
        | none => pure (.inr ())) := rfl

/-- The arm of a status request that is answered. -/
theorem status_arm_answered {p : StatusResponse J}
    (h : server.answers addr handshake n = .ok (some p))
    (hfits : StringFits (SerdeJson.toString p.json.val)) (w : World Q R) :
    (statusArm server addr handshake n .statusRequest).run.run w = (.ok (.inl (n + 1)),
      { w with sent := w.sent ++ packetFrame (.statusResponse p : CBStatus J) }) := by
  have harm : (statusArm server addr handshake n .statusRequest : Future Q R _) = (do
      writePacket (.statusResponse p : CBStatus J)
      pure (.inl (n + 1))) := by
    rw [status_arm_eq, h]
    rfl
  rw [harm, write_status_response hfits]
  rfl

/-- The arm of a status request that ends the session. -/
theorem status_arm_concluded {o : Outcome Unit} {requests : List SBStatus}
    (hanswer : ∀ p, server.answers addr handshake n ≠ .ok (some p))
    (h : conclusion (server.answers addr handshake) n (.statusRequest :: requests) = some o) :
    (statusArm server addr handshake n .statusRequest : Future Q R _).run =
      Sum.inr <$> (Future.ended o : Future Q R _).run := by
  rw [status_arm_eq]
  rw [conclusion] at h
  rcases hans : server.answers addr handshake n with (_ | p) | e | reason | _
  · rw [hans] at h
    obtain rfl := Option.some.inj h
    rfl
  · exact absurd hans (hanswer p)
  all_goals
    rw [hans] at h
    obtain rfl := Option.some.inj h
    rfl

/-- The arm of a ping. -/
theorem status_arm_ping (r : PingRequest) (w : World Q R) :
    (statusArm server addr handshake n (.pingRequest r)).run.run w = (.ok (.inr ()),
      { w with sent := w.sent ++ packetFrame (.pingResponse ⟨r.payload⟩ : CBStatus J) }) := by
  rw [statusArm, write_ping_response]
  rfl

/-- A round without a request. -/
theorem status_round_of_none (server : ServerBase J) (addr : SocketAddr) (handshake : Handshake)
    (n : Nat) (h : ∀ p rest, ¬ TakesPacket SBStatus w.stream.pending p rest) :
    ∃ o r, (statusRound server addr handshake n).run.run w = (o, { w with stream := r }) ∧
      (∀ x, o ≠ .ok x) ∧ (w.stream.ending ≠ .silent → o ≠ .diverge) :=
  run_none_bind h fun s => (returns_read_sb_status s).ends

end Rounds

section Rounds

variable {server : ServerBase J} {addr : SocketAddr} {handshake : Handshake} {n rounds : Nat}
  {w : World Q R} {rest : Bytes}

/-- A status request that is answered, and the session behind it. -/
theorem served_answered {p : StatusResponse J}
    (hfront : TakesPacket SBStatus w.stream.pending .statusRequest rest)
    (hanswer : server.answers addr handshake n = .ok (some p))
    (hfits : StringFits (SerdeJson.toString p.json.val))
    (ih : ∀ w' : World Q R, ∃ requests rest',
      Served (server.answers addr handshake) (n + 1) rounds w' requests rest'
        ((Future.loop (statusRound server addr handshake) rounds (n + 1)).run.run w')) :
    ∃ requests rest', Served (server.answers addr handshake) n (rounds + 1) w requests rest'
      ((Future.loop (statusRound server addr handshake) (rounds + 1) n).run.run w) := by
  obtain ⟨r, hpending, hending, hround⟩ := status_round_of_takes server addr handshake n hfront
  obtain ⟨requests, rest', htakes, hsends, hstops⟩ := ih
    { w with stream := r, sent := w.sent ++ packetFrame (.statusResponse p : CBStatus J) }
  rw [run_loop_next rounds (hround.trans (status_arm_answered hanswer hfits _))]
  refine ⟨.statusRequest :: requests, rest', .cons hfront (hpending ▸ htakes), ?_, fun hlt => ?_⟩
  · rw [hsends]
    simp only [conversation, hanswer, List.flatMap_cons, List.append_assoc]
  · have hfewer := hfront.lt
    have hstops := hstops (by
      dsimp only
      rw [hpending]
      omega)
    simpa only [Stops, conclusion, hanswer, hending] using hstops

/-- A status request that is not answered. -/
theorem served_unanswered (hfront : TakesPacket SBStatus w.stream.pending .statusRequest rest)
    (hanswer : ∀ p, server.answers addr handshake n ≠ .ok (some p)) :
    Served (server.answers addr handshake) n (rounds + 1) w [.statusRequest] rest
      ((Future.loop (statusRound server addr handshake) (rounds + 1) n).run.run w) := by
  obtain ⟨r, hpending, -, hround⟩ := status_round_of_takes server addr handshake n hfront
  obtain ⟨o, ho⟩ : ∃ o, conclusion (server.answers addr handshake) n [.statusRequest] = some o := by
    rw [conclusion]
    rcases hans : server.answers addr handshake n with (_ | p) | e | reason | _
    · exact ⟨_, rfl⟩
    · exact absurd hans (hanswer p)
    all_goals exact ⟨_, rfl⟩
  have hnothing : conversation (server.answers addr handshake) n [.statusRequest] = [] := by
    rw [conversation]
    split
    · next p hans => exact absurd hans (hanswer p)
    · rfl
  rw [status_arm_concluded hanswer ho] at hround
  rw [run_loop_break rounds hround]
  refine ⟨.cons hfront (.nil rest), ?_, fun _ => .inl ⟨ho, hpending⟩⟩
  rw [hnothing]
  simp [Future.run]

/-- A ping. -/
theorem served_ping {ping : PingRequest}
    (hfront : TakesPacket SBStatus w.stream.pending (.pingRequest ping) rest) :
    Served (server.answers addr handshake) n (rounds + 1) w [.pingRequest ping] rest
      ((Future.loop (statusRound server addr handshake) (rounds + 1) n).run.run w) := by
  obtain ⟨r, hpending, -, hround⟩ := status_round_of_takes server addr handshake n hfront
  have hbreak := run_loop_break rounds (t := pure ()) (hround.trans (status_arm_ping ping _))
  rw [hbreak]
  refine ⟨.cons hfront (.nil rest), ?_, fun _ => .inl ⟨rfl, hpending⟩⟩
  simp [conversation]

/-- No request. -/
theorem served_nothing (hfront : ∀ p rest, ¬ TakesPacket SBStatus w.stream.pending p rest) :
    Served (server.answers addr handshake) n (rounds + 1) w [] w.stream.pending
      ((Future.loop (statusRound server addr handshake) (rounds + 1) n).run.run w) := by
  obtain ⟨o, r, hround, hnone, hdiverge⟩ := status_round_of_none server addr handshake n hfront
  obtain ⟨o', hrun, hnone', hiff⟩ := run_loop_none rounds hround hnone
  rw [hrun]
  refine ⟨.nil _, ?_, fun _ => .inr ⟨rfl, hfront, hnone' (), fun hending => ?_⟩⟩
  · simp [conversation]
  · rw [Ne, hiff]
    exact hdiverge hending

end Rounds

/-- The rounds after `n` status requests. -/
theorem status_rounds {server : ServerBase J} {addr : SocketAddr} {handshake : Handshake}
    (hwritable : Writable (server.answers addr handshake)) (rounds n : Nat) (w : World Q R) :
    ∃ requests rest, Served (server.answers addr handshake) n rounds w requests rest
      ((Future.loop (statusRound server addr handshake) rounds n).run.run w) := by
  -- the induction is on the rounds, each of which takes a frame off the stream
  induction rounds generalizing n w with
  | zero =>
      refine ⟨[], _, .nil _, ?_, fun hlt => absurd hlt (Nat.not_lt_zero _)⟩
      simp [conversation, Future.loop, Future.run]
  | succ rounds ih =>
      by_cases hfront : ∃ p rest, TakesPacket SBStatus w.stream.pending p rest
      · obtain ⟨request, rest, hfront⟩ := hfront
        cases request with
        | statusRequest =>
            by_cases hanswer : ∃ p, server.answers addr handshake n = .ok (some p)
            · obtain ⟨p, hanswer⟩ := hanswer
              exact served_answered hfront hanswer (hwritable n p hanswer) (ih (n + 1))
            · exact ⟨_, _, served_unanswered hfront (by simpa using hanswer)⟩
        | pingRequest ping => exact ⟨_, _, served_ping hfront⟩
      · exact ⟨_, _, served_nothing (by simpa using hfront)⟩

/-- On every stream, the session sends a frame for each response to the requests at the front of
the stream, as the conversation should go, and nothing else. With more rounds than the stream has
bytes, it stops at the answer to a ping, at a request that the server does not answer, or where
no further request can be read. -/
theorem status_session {server : ServerBase J} {addr : SocketAddr} {handshake : Handshake}
    (hwritable : Writable (server.answers addr handshake)) (rounds : Nat) (w : World Q R) :
    ∃ requests rest, Served (server.answers addr handshake) 0 rounds w requests rest
      ((handleConnStatus server addr handshake rounds).run.run w) :=
  status_rounds hwritable rounds 0 w

/-- The stream of a client that sends a status request, and behind it a ping with the payload 7. -/
def requestAndPing : World String (Option String) :=
  ⟨⟨[], [⟨[1, 0], by decide⟩, ⟨[9, 1, 0, 0, 0, 0, 0, 0, 0, 7], by decide⟩], .closed⟩, [], [], []⟩

/-- What `plainServer` answers can be written. -/
theorem plain_writable (addr : SocketAddr) (handshake : Handshake) :
    letI := nullJson
    Writable (plainServer.answers addr handshake) :=
  letI := nullJson
  fun _ _ _ => show "null".utf8ByteSize ≤ i32Max by decide

/-- `plainServer` holds the conversation with this client. -/
theorem status_session_plain :
    letI := nullJson
    ∃ requests rest, Served (plainServer.answers ⟨"::1", 4⟩ ⟨⟨5⟩, ⟨"a"⟩, 80, .status⟩) 0 16
      requestAndPing requests rest ((handleConnStatus plainServer ⟨"::1", 4⟩
        ⟨⟨5⟩, ⟨"a"⟩, 80, .status⟩ 16).run.run requestAndPing) :=
  letI := nullJson
  status_session (plain_writable _ _) 16 requestAndPing

end Bws.Session
