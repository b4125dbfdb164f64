import Bws.Base.Interleaving
import Bws.Server.FirstRead
import Bws.Session.LegacyPing
import Bws.Session.Login

/-!
# Connections

`handle_conn` looks for a legacy ping, reads a handshake, and goes on with a session. Every part
of it but the first may be dropped for a shutdown wherever it awaits something, and any of them may
end in an error of the socket. `speaks_on_cue` says what has been sent and asked at any point of
any run: no more than answers the packets that have arrived by then.
-/

namespace Bws.Session

open Bws.Base Bws.Base.Proc Bws.Base.Future Bws.Protocol Bws.Server

variable {J : Type} [SerdeJson J]

/-! ## The connection -/

/-- The session that a handshake asks for. The source drops an error of it and logs one before it;
either way the task is over, so the error is kept here. -/
def handleSession (server : ServerBase J) (addr : SocketAddr) (libraries : Libraries J)
    (token : Token) (rounds : Nat) : SBHandshake → Future String (Option String) Unit
  | .handshake handshake =>
      match handshake.nextState with
      | .status => handleConnStatus server addr handshake rounds
      | .login => handleConnLogin server addr libraries token

/-- What is done behind the look for a legacy ping. -/
def handleModern (server : ServerBase J) (addr : SocketAddr) (libraries : Libraries J)
    (token : Token) (rounds : Nat) : Bool → Future String (Option String) Unit
  | true => pure ()
  | false => do
      handleSession server addr libraries token rounds (← readPacket SBHandshake)

/-- Handle a new connection, whose buffer is empty. -/
def handleConn (server : ServerBase J) (addr : SocketAddr) (libraries : Libraries J)
    (token : Token) (rounds : Nat) : Future String (Option String) Unit := do
  handleModern server addr libraries token rounds (← LegacyPing.handle server addr [])

/-! ## What it should do -/

/-- The ping that the server is told of. Only a 1.6 ping has a payload. -/
def pingOf : Server.LegacyPing.PingType → Server.LegacyPing.LegacyPingPayload → LegacyPing
  | .pre1_4, _ | .pre1_6, _ => .simple
  | .pre1_7, payload => LegacyPing.ofPayload payload

/-- The answer to a ping, if the server has one. -/
def answerTo (pingType : Server.LegacyPing.PingType) :
    Outcome (Option LegacyPingResponse) → Bytes
  | .ok (some response) => LegacyPing.packet pingType response
  | _ => []

/-- The answer to what a client has sent in its first reads. -/
def pingAnswer (server : ServerBase J) (addr : SocketAddr) :
    Outcome (Option (Server.LegacyPing.PingType × Server.LegacyPing.LegacyPingPayload)) → Bytes
  | .ok (some (pingType, payload)) =>
      answerTo pingType (server.legacyPing addr (pingOf pingType payload))
  | _ => []

/-- What a connection says to a client, and asks about it, when the client has sent these reads and
its stream ends like this: it answers a legacy ping, or all requests behind a handshake. -/
inductive Says (server : ServerBase J) (addr : SocketAddr) (libraries : Libraries J)
    (token : Token) (rounds : Nat) (reads : List Read) (ending : Ending) :
    Bytes → List String → Prop where
  | ping (htype : Server.LegacyPing.pingType (Server.LegacyPing.firstRead reads) ≠ none) :
      Says server addr libraries token rounds reads ending
        (pingAnswer server addr (Server.LegacyPing.verdict 0 reads ending)) []
  | nothing (htype : Server.LegacyPing.pingType (Server.LegacyPing.firstRead reads) = none)
      (hnone : ∀ p rest, ¬ TakesPacket SBHandshake (BufReader.bytes reads) p rest) :
      Says server addr libraries token rounds reads ending [] []
  | status {handshake : Handshake} {requests : List SBStatus} {middle rest : Bytes}
      (htype : Server.LegacyPing.pingType (Server.LegacyPing.firstRead reads) = none)
      (hhandshake : TakesPacket SBHandshake (BufReader.bytes reads) (.handshake handshake) middle)
      (hstate : handshake.nextState = .status)
      (hrequests : TakesPackets SBStatus middle requests rest)
      (hall : middle.length < rounds →
        conclusion (server.answers addr handshake) 0 requests ≠ none ∨
          ∀ p rest', ¬ TakesPacket SBStatus rest p rest') :
      Says server addr libraries token rounds reads ending
        ((conversation (server.answers addr handshake) 0 requests).flatMap packetFrame) []
  | login {handshake : Handshake} {packets : List SBLogin} {middle rest : Bytes}
      (htype : Server.LegacyPing.pingType (Server.LegacyPing.firstRead reads) = none)
      (hhandshake : TakesPacket SBHandshake (BufReader.bytes reads) (.handshake handshake) middle)
      (hstate : handshake.nextState = .login)
      (hpackets : TakesPackets SBLogin middle packets rest)
      (hall : loginConclusion server token [] packets ≠ none ∨
        ∀ p rest', ¬ TakesPacket SBLogin rest p rest') :
      Says server addr libraries token rounds reads ending
        ((loginReplies server libraries token packets).flatMap packetFrame)
        (loginQueries server addr libraries token packets)

/-! ## A legacy ping -/

section Pings

variable {Q R : Type}

omit [SerdeJson J] in
/-- What is sent in answer to a ping. -/
theorem respond_run (server : ServerBase J) (addr : SocketAddr) (ping : LegacyPing)
    (pingType : Server.LegacyPing.PingType) {send : LegacyPingResponse → Future Q R Unit}
    (hsend : ∀ response, send response = writeAll (LegacyPing.packet pingType response))
    (w : World Q R) :
    ∃ o, (LegacyPing.respond server addr ping send).run.run w =
        (o, { w with sent := w.sent ++ answerTo pingType (server.legacyPing addr ping) }) ∧
      o ≠ .ok false := by
  have hended : (Future.ended (server.legacyPing addr ping) : Future Q R _).run.run w =
      (server.legacyPing addr ping, w) := rfl
  rw [LegacyPing.respond, Future.run_bind]
  rcases hanswer : server.legacyPing addr ping with (_ | response) | e | reason | _
  all_goals rw [hanswer] at hended
  · refine ⟨.ok true, ?_, by simp⟩
    rw [bind_of_ok hended, answerTo, List.append_nil]
    · rfl
    · simp
  · refine ⟨.ok true, ?_, by simp⟩
    rw [bind_of_ok hended]
    dsimp only
    rw [hsend]
    rfl
  · exact ⟨.err e, by rw [bind_of_err hended]; simp [answerTo], by simp⟩
  · exact ⟨.panic reason, by rw [bind_of_panic hended]; simp [answerTo], by simp⟩
  · exact ⟨.diverge, by rw [bind_of_diverge hended]; simp [answerTo], by simp⟩

variable {read : Read}

/-- The world of a new connection behind its first read. -/
def firstWorld (read : Read) (reads : List Read) (ending : Ending) (answers : List R) :
    World Q R :=
  ⟨⟨read.val, reads, ending⟩, [], [], answers⟩

omit [SerdeJson J] in
/-- A ping is answered, if at all, and nothing is asked. -/
theorem arm_run (server : ServerBase J) (addr : SocketAddr)
    {pingType : Server.LegacyPing.PingType}
    (htype : Server.LegacyPing.pingType read.val = some pingType) (reads : List Read)
    (ending : Ending) (answers : List R) :
    ∃ o r, (LegacyPing.arm server addr [] (some pingType)).run.run
        (firstWorld (Q := Q) read reads ending answers) =
        (o, ⟨r, pingAnswer server addr (Server.LegacyPing.verdict 0 (read :: reads) ending), [],
          answers⟩) ∧ o ≠ .ok false := by
  rw [Server.LegacyPing.verdict, Server.LegacyPing.detect_cons, htype]
  cases pingType with
  | pre1_4 =>
      obtain ⟨o, hrun, hne⟩ := respond_run server addr .simple .pre1_4
        LegacyPing.send_pre1_4_response (firstWorld (Q := Q) read reads ending answers)
      exact ⟨o, _, hrun, hne⟩
  | pre1_6 =>
      obtain ⟨o, hrun, hne⟩ := respond_run server addr .simple .pre1_6
        LegacyPing.send14_16_response (firstWorld (Q := Q) read reads ending answers)
      exact ⟨o, _, hrun, hne⟩
  | pre1_7 =>
      have hmatches := LegacyPing.matches_read_data
        (firstWorld (Q := Q) read reads ending answers)
        (Server.LegacyPing.started 0 read reads ending) rfl
      rw [map_eq_pure_bind, Proc.run_bind] at hmatches
      obtain ⟨hread, -⟩ := hmatches
      rw [LegacyPing.arm, Future.run_bind, Server.LegacyPing.judge]
      have hpayload : Server.LegacyPing.readPayload .pre1_7 = Server.LegacyPing.read1_6 := rfl
      rw [hpayload]
      rcases hrun : Server.LegacyPing.read1_6.run (Server.LegacyPing.started 0 read reads ending)
        with ⟨payload | e | reason | _, ctx⟩
      all_goals rw [hrun] at hread
      · obtain ⟨o, hrespond, hne⟩ := respond_run server addr
          (LegacyPing.ofPayload payload) .pre1_7 LegacyPing.send14_16_response
          { firstWorld (Q := Q) read reads ending answers with stream := ctx.stream }
        rw [map_of_ok hrun]
        exact ⟨o, ctx.stream, by rw [bind_of_ok hread]; exact hrespond, hne⟩
      · rw [map_of_err hrun]
        exact ⟨.err e, _, by rw [bind_of_err hread]; rfl, by simp⟩
      · rw [map_of_panic hrun]
        exact ⟨.panic reason, _, by rw [bind_of_panic hread]; rfl, by simp⟩
      · rw [map_of_diverge hrun]
        exact ⟨.diverge, _, by rw [bind_of_diverge hread]; rfl, by simp⟩

end Pings

/-! ## The whole connection -/

section Connections

variable {server : ServerBase J} {addr : SocketAddr} {libraries : Libraries J} {token : Token}
  {rounds : Nat}

/-- What the sessions need of a server: that what it has them send can be written. -/
structure Sends (server : ServerBase J) (addr : SocketAddr) (libraries : Libraries J) : Prop where
  answers : ∀ handshake, Writable (server.answers addr handshake)
  publicKey : server.rsaKeypair.publicKeyDer.length ≤ i32Max
  reason : StringFits (SerdeJson.toString (libraries.jsonString "Incorrect verify token"))

/-- No frame is in front of an empty stream. -/
theorem takes_packet_nil {P : Type} [FromBytes P] (p : P) (rest : Bytes) :
    ¬ TakesPacket P [] p rest :=
  fun h => Nat.not_lt_zero _ h.lt

omit [SerdeJson J] in
/-- Whether a login goes on has nothing to do with the answers of the session server. -/
theorem login_conclusion_none {answers : List (Option String)} {packets : List SBLogin} :
    loginConclusion server token answers packets = none ↔
      loginConclusion server token [] packets = none := by
  unfold loginConclusion
  split <;> simp

/-- A connection whose first read is no ping says what its session does. -/
theorem modern_says (h : Sends server addr libraries) {reads : List Read} {ending : Ending}
    (htype : Server.LegacyPing.pingType (Server.LegacyPing.firstRead reads) = none)
    {w : World String (Option String)} (hpending : w.stream.pending = BufReader.bytes reads)
    (hsent : w.sent = []) (hasked : w.asked = []) :
    let run := (handleModern server addr libraries token rounds false).run.run w
    Says server addr libraries token rounds reads ending run.2.sent run.2.asked := by
  by_cases hfront : ∃ p rest, TakesPacket SBHandshake w.stream.pending p rest
  · obtain ⟨⟨handshake⟩, middle, hfront⟩ := hfront
    obtain ⟨r, hmiddle, -, hrun⟩ := run_read_bind
      (f := handleSession server addr libraries token rounds) hfront
    rw [hpending] at hfront
    rw [handleModern, hrun, handleSession]
    cases hstate : handshake.nextState with
    | status =>
        obtain ⟨requests, rest, htakes, hsends, hstops⟩ :=
          status_rounds (h.answers handshake) rounds 0 { w with stream := r }
        dsimp only [handleConnStatus]
        rw [hsends]
        dsimp only
        rw [hsent, hasked, List.nil_append]
        refine .status htype hfront hstate (hmiddle ▸ htakes) fun hlt => ?_
        rcases hstops (hmiddle ▸ hlt) with ⟨hconcluded, -⟩ | ⟨-, hnone, -⟩
        · exact .inl (by simp [hconcluded])
        · exact .inr hnone
    | login =>
        obtain ⟨packets, rest, htakes, hsends, hasks, hstops⟩ := login_runs addr token h.publicKey
          h.reason { w with stream := r }
        dsimp only at hsends hasks ⊢
        rw [hsends, hasks, hsent, hasked, List.nil_append, List.nil_append]
        refine .login htype hfront hstate (hmiddle ▸ htakes) ?_
        rcases hstops with ⟨hconcluded, -⟩ | ⟨-, hnone, -⟩
        · exact .inl fun hopen => by simp [login_conclusion_none.mpr hopen] at hconcluded
        · exact .inr hnone
  · push Not at hfront
    obtain ⟨o, r, hrun, -, -⟩ := run_none_bind
      (f := handleSession server addr libraries token rounds) hfront
      sb_handshake_terminating.ends_on_every_input.ends
    rw [handleModern, hrun]
    dsimp only
    rw [hsent, hasked]
    exact .nothing htype (hpending ▸ hfront)

/-- A connection whose first read is a ping answers it, if at all. -/
theorem ping_says {read : Read} {pingType : Server.LegacyPing.PingType}
    (htype : Server.LegacyPing.pingType read.val = some pingType) (reads : List Read)
    (ending : Ending) (answers : List (Option String)) :
    let run := (LegacyPing.arm server addr [] (some pingType) >>=
      handleModern server addr libraries token rounds).run.run
        (firstWorld read reads ending answers)
    Says server addr libraries token rounds (read :: reads) ending run.2.sent run.2.asked := by
  obtain ⟨o, r, harm, hne⟩ := arm_run (Q := String) server addr htype reads ending answers
  have hsays : Says server addr libraries token rounds (read :: reads) ending
      (pingAnswer server addr (Server.LegacyPing.verdict 0 (read :: reads) ending)) [] := by
    refine .ping ?_
    rw [Server.LegacyPing.firstRead, htype]
    simp
  dsimp only
  rw [Future.run_bind]
  rcases o with b | e | reason | _
  · cases b with
    | false => exact absurd rfl hne
    | true =>
        rw [bind_of_ok harm]
        exact hsays
  · rw [bind_of_err harm]
    exact hsays
  · rw [bind_of_panic harm]
    exact hsays
  · rw [bind_of_diverge harm]
    exact hsays

/-- What a connection sends and asks when nothing interferes, whatever the client sends. -/
theorem conn_says (h : Sends server addr libraries) (token : Token) (rounds : Nat)
    (reads : List Read) (ending : Ending) (answers : List (Option String)) :
    let run := (handleConn server addr libraries token rounds).run.run
      ⟨⟨[], reads, ending⟩, [], [], answers⟩
    Says server addr libraries token rounds reads ending run.2.sent run.2.asked := by
  -- a first read, or the end of the stream
  rw [handleConn, LegacyPing.handle_eq, Future.run_bind, Future.run_bind, run_fill_buf, bind_assoc]
  dsimp only
  cases reads with
  | nil =>
      cases ending with
      | closed =>
          have hfill : (zoom World.incoming BufReader.fillBuf).run
              (⟨⟨[], [], .closed⟩, [], [], answers⟩ : World String (Option String)) =
              (.ok [], ⟨⟨[], [], .closed⟩, [], [], answers⟩) := rfl
          rw [bind_of_ok hfill]
          exact modern_says h rfl rfl rfl rfl
      | failed e | silent => exact .nothing rfl takes_packet_nil
  | cons read reads =>
      have hfill : (zoom World.incoming BufReader.fillBuf).run
          (⟨⟨[], read :: reads, ending⟩, [], [], answers⟩ : World String (Option String)) =
          (.ok read.val, firstWorld read reads ending answers) := rfl
      rw [bind_of_ok hfill, ← Future.run_bind]
      cases htype : Server.LegacyPing.pingType read.val with
      | none =>
          have hfirst : Server.LegacyPing.pingType
              (Server.LegacyPing.firstRead (read :: reads)) = none := htype
          exact modern_says h hfirst rfl rfl rfl
      | some pingType => exact ping_says htype reads ending answers

/-- At any point of any run of a connection, wherever it may be dropped or fail, what it has sent
and asked is a prefix of what it should say to a client that has sent the reads that have come so
far. Without an error of its socket it is all of that, unless the connection awaits room in the
socket. -/
theorem speaks_on_cue (h : Sends server addr libraries) {token : Token} {rounds : Nat}
    {run : List (Event (Option String) × Config String (Option String) Unit)}
    (hrun : (system (handleConn server addr libraries token rounds)).Run
      (start (handleConn server addr libraries token rounds)) run) :
    ∃ ending sent asked,
      Says server addr libraries token rounds (arrived run) ending sent asked ∧
      let last := System.final (start (handleConn server addr libraries token rounds)) run
      last.sent <+: sent ∧ last.asked <+: asked ∧
        (Works run → last.AwaitsRoom ∨ (last.sent = sent ∧ last.asked = asked)) := by
  obtain ⟨ending, answers, hsent, hasked, hcaught⟩ := run_arrives hrun
  refine ⟨ending, _, _, conn_says h token rounds (arrived run) ending answers, hsent, hasked, ?_⟩
  exact fun hworks => (hcaught hworks).imp_right fun h => ⟨h.1, h.2.1⟩

omit [SerdeJson J] in
/-- Only a client that has sent back the token is asked about. -/
theorem asked_of_queries {packets : List SBLogin} {s rest : Bytes}
    (htakes : TakesPackets SBLogin s packets rest)
    (hasks : loginQueries server addr libraries token packets ≠ []) :
    ∃ start response secret rest',
      TakesPackets SBLogin s [.loginStart start, .encryptionResponse response] rest' ∧
      server.rsaKeypair.decrypt response.verifyToken.elems = some token.bytes ∧
      server.rsaKeypair.decrypt response.sharedSecret.elems = some secret ∧
      secret.length = 16 ∧ loginQueries server addr libraries token packets =
        [hasJoined libraries server.rsaKeypair.publicKeyDer start.name.inner secret addr] := by
  unfold loginQueries at hasks ⊢
  split at hasks
  · next start response more =>
      cases hjudge : judge server token response with
      | holder secret =>
          obtain ⟨htoken, hkey, hlength⟩ := holder_of_judge hjudge
          cases htakes with
          | cons hstart hbehind =>
              cases hbehind with
              | cons hresponse hmore =>
                  exact ⟨start, response, secret, _, .cons hstart (.cons hresponse (.nil _)),
                    htoken, hkey, hlength, by rw [Verdict.queries]⟩
      | undecryptable | wrongToken | badKey =>
          rw [hjudge] at hasks
          exact absurd rfl hasks
  · exact absurd rfl hasks

/-- In every run of a connection, the session server is asked about a client at most once, and only
when a handshake for a login, a name, and an answer that decrypts to the token of this connection
and to a key have arrived. The text of the URL is then put together of that name and the hash of
that key. -/
theorem asks_about_holders (h : Sends server addr libraries) {token : Token} {rounds : Nat}
    {run : List (Event (Option String) × Config String (Option String) Unit)}
    (hrun : (system (handleConn server addr libraries token rounds)).Run
      (start (handleConn server addr libraries token rounds)) run)
    (hasked : (System.final (start (handleConn server addr libraries token rounds)) run).asked ≠
      []) :
    ∃ handshake start response secret middle rest,
      TakesPacket SBHandshake (BufReader.bytes (arrived run)) (.handshake handshake) middle ∧
      handshake.nextState = .login ∧
      TakesPackets SBLogin middle [.loginStart start, .encryptionResponse response] rest ∧
      server.rsaKeypair.decrypt response.verifyToken.elems = some token.bytes ∧
      server.rsaKeypair.decrypt response.sharedSecret.elems = some secret ∧
      secret.length = 16 ∧
      (System.final (Future.start (handleConn server addr libraries token rounds)) run).asked =
        [hasJoined libraries server.rsaKeypair.publicKeyDer start.name.inner secret addr] := by
  obtain ⟨ending, answers, -, hsofar, -⟩ := run_arrives hrun
  have hsays := conn_says h token rounds (arrived run) ending answers
  generalize (handleConn server addr libraries token rounds).run.run
    ⟨⟨[], arrived run, ending⟩, [], [], answers⟩ = done at hsays hsofar
  obtain ⟨_, _, sent, asked, _⟩ := done
  dsimp only at hsays hsofar
  cases hsays with
  | nothing | ping | status => exact absurd (List.prefix_nil.mp hsofar) hasked
  | login _ hhandshake hstate hpackets _ =>
      have hasks : loginQueries server addr libraries token _ ≠ [] :=
        fun hnone => hasked (List.prefix_nil.mp (hnone ▸ hsofar))
      obtain ⟨start, response, secret, rest, htakes, htoken, hkey, hlength, hqueries⟩ :=
        asked_of_queries hpackets hasks
      refine ⟨_, start, response, secret, _, rest, hhandshake, hstate, htakes, htoken, hkey,
        hlength, ?_⟩
      rw [hqueries] at hsofar
      rcases List.prefix_cons_iff.mp hsofar with hnone | ⟨behind, hall, hbehind⟩
      · exact absurd hnone hasked
      · rw [hall, List.prefix_nil.mp hbehind]

end Connections

/-! ## A login -/

/-- Libraries without an effect. -/
def plainLibraries : Libraries Unit where
  sha1 _ := ⟨List.replicate 20 1, by decide⟩
  lowerHex _ := "01"
  jsonString _ := ()

/-- A token. -/
def sevens : Token := ⟨List.replicate 32 7, by decide⟩

/-- What `plainServer` has sent can be written. -/
theorem plain_sends :
    letI := nullJson
    Sends plainServer ⟨"::1", 4⟩ plainLibraries :=
  letI := nullJson
  { answers := plain_writable _
    publicKey := by decide
    reason := show "null".utf8ByteSize ≤ i32Max by decide }

/-- A connection of `plainServer`. -/
def plainConn : Future String (Option String) Unit :=
  letI := nullJson
  handleConn plainServer ⟨"::1", 4⟩ plainLibraries sevens 64

/-- A handshake for a login, the name `p1`, and an answer with a secret and the token. -/
def loginRead : Read :=
  ⟨[7, 0, 5, 1, 97, 0, 80, 2] ++ [5, 0, 2, 112, 49, 0] ++
    ([51, 1, 16] ++ List.replicate 16 9 ++ [32] ++ List.replicate 32 7), by decide⟩

/-- The connection when the login has come, and when the request for encryption has gone out. -/
def loginStages : Config String (Option String) Unit × Config String (Option String) Unit :=
  let first := ((start plainConn).step (.read loginRead)).getD (start plainConn)
  (first, (first.step (.took 40)).getD first)

/-- The login as a run. -/
def loginRun : List (Event (Option String) × Config String (Option String) Unit) :=
  [(.read loginRead, loginStages.1), (.took 40, loginStages.2)]

/-- A step that is possible leads to what it leads to. -/
theorem step_get {α : Type} {o : Option α} (h : o.isSome = true) (a : α) : o = some (o.getD a) := by
  cases o with
  | none => cases h
  | some b => rfl

theorem login_run : (system plainConn).Run (start plainConn) loginRun :=
  ⟨step_get (by decide +kernel) (start plainConn),
    step_get (by decide +kernel) loginStages.1, trivial⟩

/-- What has been sent at the end of the login answers it. -/
theorem speaks_on_cue_login :
    letI := nullJson
    ∃ ending sent asked,
      Says plainServer ⟨"::1", 4⟩ plainLibraries sevens 64 (arrived loginRun) ending sent asked ∧
      loginStages.2.sent <+: sent ∧ loginStages.2.asked <+: asked ∧
        (Works loginRun → loginStages.2.AwaitsRoom ∨
          (loginStages.2.sent = sent ∧ loginStages.2.asked = asked)) :=
  letI := nullJson
  speaks_on_cue plain_sends login_run

/-- The session server is asked about the client at the end of the login. -/
theorem asks_about_login :
    ∃ (start : LoginStart) (secret : Bytes), secret.length = 16 ∧ loginStages.2.asked =
      [hasJoined plainLibraries [1, 2, 3] start.name.inner secret ⟨"::1", 4⟩] := by
  let := nullJson
  have hasked : loginStages.2.asked ≠ [] :=
    fun h => absurd (congrArg List.length h) (by decide +kernel)
  obtain ⟨-, start, -, secret, -, -, -, -, -, -, -, hlength, hall⟩ :=
    asks_about_holders plain_sends login_run hasked
  exact ⟨start, secret, hlength, hall⟩

end Bws.Session
