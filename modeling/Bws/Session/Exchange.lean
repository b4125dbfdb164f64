import Bws.Session.Connection

/-!
# Exchanges with a client

What comes of a connection when a client of today sends its packets: `status_exchange` for a client
that looks for servers, and `login_exchange` for one that logs in. Both rest on the packets in
front of a stream being determined by its bytes, so behind the first read, which must not be taken
for a legacy ping, the packets may arrive in whatever parts.
-/

namespace Bws.Session

open Bws.Base Bws.Base.Proc Bws.Base.Future Bws.Protocol Bws.Server

variable {J : Type} [SerdeJson J]

/-! ## What is in front of a stream -/

section Front

variable {P : Type} [FromBytes P] {s rest rest' : Bytes} {p p' : P}

/-- A stream has one packet in front. -/
theorem TakesPacket.unique (h : TakesPacket P s p rest) (h' : TakesPacket P s p' rest') :
    p = p' ∧ rest = rest' := by
  have hread := (packet_reader_ok_iff.mpr h).symm.trans (packet_reader_ok_iff.mpr h')
  obtain ⟨hp, hrest⟩ := Prod.mk.inj hread
  exact ⟨Outcome.ok.inj hp, hrest⟩

/-- What is sent of a packet is taken as the packet. -/
theorem takes_sent [ToBytes P] {bytes : Bytes}
    (hundoes : Reader.UndoesAt (fun rest => rest = []) (writeTo p) readFrom p)
    (hbytes : StreamCtx.Encodes p bytes) (hle : bytes.length ≤ i32Max) (rest : Bytes) :
    TakesPacket P (packetFrame p ++ rest) p rest := by
  obtain ⟨bytes', hout, hread⟩ := hundoes [] _ _ (hbytes.appends [])
  obtain rfl : bytes = bytes' := hout
  have hback := hread [] rfl
  rw [List.append_nil] at hback
  rw [packetFrame, encoding_of_encodes hbytes]
  exact ⟨bytes, StreamCtx.starts_with_frame hle rest, by rw [hback]⟩

/-- What is sent of packets is taken as the packets, if it is of each of them. -/
theorem takes_all_sent [ToBytes P] {ps : List P}
    (h : ∀ p ∈ ps, ∀ rest, TakesPacket P (packetFrame p ++ rest) p rest) (rest : Bytes) :
    TakesPackets P (ps.flatMap packetFrame ++ rest) ps rest := by
  induction ps with
  | nil => exact .nil rest
  | cons p ps ih =>
      obtain ⟨hfirst, hps⟩ := List.forall_mem_cons.mp h
      rw [List.flatMap_cons, List.append_assoc]
      exact .cons (hfirst _) (ih hps)

end Front

/-- A handshake is taken as it is sent, if its address is within its bound. -/
theorem takes_handshake {handshake : Handshake} (h : handshake.serverAddress.Bounded)
    (rest : Bytes) :
    TakesPacket SBHandshake (packetFrame (SBHandshake.handshake handshake) ++ rest)
      (.handshake handshake) rest := by
  have hfits : handshake.Fits := by
    unfold BString.Bounded at h
    unfold Handshake.Fits StringFits i32Max
    omega
  obtain ⟨n, out, hrun⟩ := (sb_handshake_succeeds (.handshake handshake) []).mpr hfits
  obtain ⟨bytes, hbytes, hlen, -, -⟩ := StreamCtx.encodes_of_ok (sb_handshake_format.counts _) hrun
  have hsize := Server.LegacyPing.handshake_size_le h
  have hundoes := StreamCtx.undoes_last (sb_handshake_round_trips (.handshake handshake)) trivial
  refine takes_sent hundoes hbytes ?_ rest
  rw [hlen, SBHandshake.size]
  unfold i32Max
  omega

/-- Every request for a status is taken as it is sent. -/
theorem takes_status (p : SBStatus) (rest : Bytes) :
    TakesPacket SBStatus (packetFrame p ++ rest) p rest := by
  obtain ⟨n, out, hrun⟩ := (sb_status_succeeds p []).mpr trivial
  obtain ⟨bytes, hbytes, hlen, -, -⟩ := StreamCtx.encodes_of_ok (sb_status_format.counts _) hrun
  refine takes_sent (StreamCtx.undoes_last (sb_status_round_trips p) trivial) hbytes ?_ rest
  rw [hlen]
  cases p <;> simp [SBStatus.size, i32Max]

/-- A login packet is taken as it is sent, if it fits. -/
theorem takes_login {p : SBLogin} (h : p.Fits) (hlength : (encoding p).length ≤ i32Max)
    (rest : Bytes) :
    TakesPacket SBLogin (packetFrame p ++ rest) p rest := by
  obtain ⟨n, out, hrun⟩ := (sb_login_succeeds p []).mpr h
  obtain ⟨bytes, hbytes, -, -, -⟩ := StreamCtx.encodes_of_ok (sb_login_format.counts _) hrun
  have hundoes := StreamCtx.undoes_last (sb_login_round_trips p) (by cases p <;> trivial)
  exact takes_sent hundoes hbytes (encoding_of_encodes hbytes ▸ hlength) rest

/-! ## What is said -/

section Exchanges

variable {server : ServerBase J} {addr : SocketAddr} {libraries : Libraries J} {token : Token}
  {rounds : Nat} {handshake : Handshake}

omit [SerdeJson J] in
/-- Of the requests in front of a stream, all that bring a session to its conclusion are answered,
whatever is behind them. -/
theorem conversation_unique {answers : Answers J} {n : Nat} {requests requests' : List SBStatus}
    {s rest rest' : Bytes} (h : TakesPackets SBStatus s requests rest)
    (h' : TakesPackets SBStatus s requests' rest') (hends : conclusion answers n requests ≠ none)
    (hall : conclusion answers n requests' ≠ none ∨
      ∀ p rest'', ¬ TakesPacket SBStatus rest' p rest'') :
    conversation answers n requests' = conversation answers n requests ∧
      conclusion answers n requests' = conclusion answers n requests := by
  induction h generalizing n requests' with
  | nil => exact absurd rfl hends
  | @cons s middle rest request requests hfirst hrest ih =>
      cases h' with
      | nil =>
          rcases hall with hopen | hnone
          · exact absurd rfl hopen
          · exact absurd hfirst (hnone _ _)
      | cons hfirst' hrest' =>
          obtain ⟨rfl, rfl⟩ := hfirst.unique hfirst'
          cases request with
          | pingRequest r => exact ⟨rfl, rfl⟩
          | statusRequest =>
              rcases hanswer : answers n with (_ | p) | e | reason | _
              all_goals simp only [conversation, conclusion, hanswer] at hends hall ⊢
              · exact ⟨trivial, trivial⟩
              · obtain ⟨hsame, hend⟩ := ih hrest' hends hall
                exact ⟨by rw [hsame], hend⟩
              all_goals exact ⟨trivial, trivial⟩

/-- The first read of a handshake is taken for no ping, once three bytes of its frame have come. -/
theorem handshake_first_read (h : handshake.serverAddress.Bounded) {bytes : Bytes}
    (hfirst : (packetFrame (SBHandshake.handshake handshake)).take 3 <+: bytes) :
    Server.LegacyPing.pingType bytes = none := by
  have hfits : handshake.Fits := by
    unfold BString.Bounded at h
    unfold Handshake.Fits StringFits i32Max
    omega
  obtain ⟨fields, hwrite, hsize⟩ := Server.LegacyPing.write_handshake_run hfits
  have hle := Server.LegacyPing.handshake_size_le h
  have hencoding : encoding (SBHandshake.handshake handshake) = 0 :: fields := by
    rw [encoding, hwrite]
  rw [packetFrame, hencoding] at hfirst
  refine Server.LegacyPing.ping_type_of_frame ?_ hfirst
  rw [List.length_cons]
  omega

/-- A connection goes on with the session of the handshake in front. -/
theorem conn_run_of_handshake {reads : List Read} {middle : Bytes} (server : ServerBase J)
    (addr : SocketAddr) (libraries : Libraries J) (token : Token) (rounds : Nat)
    (htype : Server.LegacyPing.pingType (Server.LegacyPing.firstRead reads) = none)
    (hfront : TakesPacket SBHandshake (BufReader.bytes reads) (.handshake handshake) middle)
    (ending : Ending) (answers : List (Option String)) :
    ∃ r : BufReader, r.pending = middle ∧ r.ending = ending ∧
      (handleConn server addr libraries token rounds).run.run
          ⟨⟨[], reads, ending⟩, [], [], answers⟩ =
        (handleSession server addr libraries token rounds (.handshake handshake)).run.run
          ⟨r, [], [], answers⟩ := by
  cases reads with
  | nil => exact absurd hfront (takes_packet_nil _ _)
  | cons read reads =>
      have hfill : (zoom World.incoming BufReader.fillBuf).run
          (⟨⟨[], read :: reads, ending⟩, [], [], answers⟩ : World String (Option String)) =
          (.ok read.val, firstWorld read reads ending answers) := rfl
      rw [handleConn, LegacyPing.handle_eq, Future.run_bind, Future.run_bind, run_fill_buf,
        bind_assoc, bind_of_ok hfill, ← Future.run_bind]
      have hnone : Server.LegacyPing.pingType read.val = none := htype
      rw [hnone]
      exact run_read_bind (f := handleSession server addr libraries token rounds)
        (w := firstWorld read reads ending answers) hfront

/-- The session of a status handshake on requests that conclude it. -/
theorem status_session_run (libraries : Libraries J) (token : Token)
    (h : Writable (server.answers addr handshake)) (hstate : handshake.nextState = .status)
    {requests : List SBStatus} {o : Outcome Unit}
    (hends : conclusion (server.answers addr handshake) 0 requests = some o) {rest : Bytes}
    (w : World String (Option String))
    (hpending : w.stream.pending = requests.flatMap packetFrame ++ rest)
    (hrounds : w.stream.pending.length < rounds) :
    ∃ r, (handleSession server addr libraries token rounds (.handshake handshake)).run.run w =
      (o, { w with
        stream := r
        sent := w.sent ++
          (conversation (server.answers addr handshake) 0 requests).flatMap packetFrame }) := by
  obtain ⟨requests', rest', htakes, hsends, hstops⟩ := status_rounds h rounds 0 w
  have htakes' : TakesPackets SBStatus (requests.flatMap packetFrame ++ rest) requests rest :=
    takes_all_sent (fun p _ => takes_status p) rest
  rw [← hpending] at htakes'
  have hopen : conclusion (server.answers addr handshake) 0 requests ≠ none := by simp [hends]
  rw [handleSession, hstate]
  dsimp only
  rw [handleConnStatus]
  rcases hrun : (Future.loop (statusRound server addr handshake) rounds 0).run.run w with ⟨o', w'⟩
  rw [hrun] at hsends hstops
  dsimp only at hsends
  rcases hstops hrounds with ⟨hconcluded, -⟩ | ⟨hnone, hfront, -⟩
  · obtain ⟨hsame, hend⟩ := conversation_unique htakes' htakes hopen (.inl (by simp [hconcluded]))
    refine ⟨w'.stream, ?_⟩
    rw [hsends, hsame]
    rw [hend, hends] at hconcluded
    rw [Option.some.inj hconcluded]
  · obtain ⟨-, hend⟩ := conversation_unique htakes' htakes hopen (.inr hfront)
    rw [hend] at hnone
    exact absurd hnone hopen

/-- A client that looks for servers sends a handshake, requests, and whatever else. If the first
read has the first three bytes of the handshake in it, then however the rest arrives, once it has
and as long as the socket has no error, the connection is over and has sent the responses to the
requests, or it awaits room in the socket for them. -/
theorem status_exchange (h : Writable (server.answers addr handshake))
    (haddress : handshake.serverAddress.Bounded) (hstate : handshake.nextState = .status)
    {requests : List SBStatus} {o : Outcome Unit}
    (hends : conclusion (server.answers addr handshake) 0 requests = some o) (ho : o ≠ .diverge)
    {run : List (Event (Option String) × Config String (Option String) Unit)}
    (hrun : (system (handleConn server addr libraries token rounds)).Run
      (start (handleConn server addr libraries token rounds)) run)
    (hworks : Works run) {rest : Bytes}
    (harrived : BufReader.bytes (arrived run) = packetFrame (SBHandshake.handshake handshake) ++
      (requests.flatMap packetFrame ++ rest))
    (hfirst : (packetFrame (SBHandshake.handshake handshake)).take 3 <+:
      Server.LegacyPing.firstRead (arrived run))
    (hrounds : (BufReader.bytes (arrived run)).length < rounds) :
    let last := System.final (start (handleConn server addr libraries token rounds)) run
    let said := (conversation (server.answers addr handshake) 0 requests).flatMap packetFrame
    last.asked = [] ∧ last.sent <+: said ∧
      (last.AwaitsRoom ∨ (last.future = .ended o ∧ last.sent = said)) := by
  obtain ⟨ending, answers, hsent, hasked, hcaught⟩ := run_arrives hrun
  have hhandshake := takes_handshake haddress (requests.flatMap packetFrame ++ rest)
  rw [← harrived] at hhandshake
  obtain ⟨r, hmiddle, -, hconn⟩ := conn_run_of_handshake server addr libraries token rounds
    (handshake_first_read haddress hfirst) hhandshake ending answers
  have hshort : r.pending.length < rounds := by
    have hlt := hhandshake.lt
    rw [hmiddle]
    omega
  obtain ⟨r', hsession⟩ := status_session_run libraries token h hstate hends
    ⟨r, [], [], answers⟩ hmiddle hshort
  rw [hconn, hsession] at hsent hasked hcaught
  refine ⟨List.prefix_nil.mp hasked, hsent, (hcaught hworks).imp_right fun hdone => ?_⟩
  exact ⟨hdone.2.2 ho, hdone.1⟩

omit [SerdeJson J] in
/-- Where a name and an answer are in front of a stream, a login has read them. -/
theorem login_packets_unique {start : LoginStart} {response : EncryptionResponse}
    {packets : List SBLogin} {s middle rest rest' : Bytes}
    (hstart : TakesPacket SBLogin s (.loginStart start) middle)
    (hresponse : TakesPacket SBLogin middle (.encryptionResponse response) rest)
    (h : TakesPackets SBLogin s packets rest') {answers : List (Option String)}
    (hall : loginConclusion server token answers packets ≠ none ∨
      ∀ p rest'', ¬ TakesPacket SBLogin rest' p rest'') :
    ∃ more, packets = .loginStart start :: .encryptionResponse response :: more := by
  cases h with
  | nil =>
      rcases hall with hopen | hnone
      · exact absurd rfl hopen
      · exact absurd hstart (hnone _ _)
  | cons hfirst hbehind =>
      obtain ⟨rfl, rfl⟩ := hstart.unique hfirst
      cases hbehind with
      | nil =>
          rcases hall with hopen | hnone
          · exact absurd rfl hopen
          · exact absurd hresponse (hnone _ _)
      | cons hsecond _ =>
          obtain ⟨rfl, rfl⟩ := hresponse.unique hsecond
          exact ⟨_, rfl⟩

/-- A client that logs in sends a handshake, its name, and an answer to the request for encryption.
If the first read has the first three bytes of the handshake in it, then however the rest arrives,
once it has and as long as the socket has no error, the verdict on the answer has been acted on, and
the session server has been asked if the client has the token and a key, or the connection awaits
room in the socket. -/
theorem login_exchange (h : Sends server addr libraries)
    (haddress : handshake.serverAddress.Bounded) (hstate : handshake.nextState = .login)
    {start : LoginStart} (hstart : start.Fits)
    (hstart' : (encoding (SBLogin.loginStart start)).length ≤ i32Max)
    {response : EncryptionResponse} (hresponse : response.Fits)
    (hresponse' : (encoding (SBLogin.encryptionResponse response)).length ≤ i32Max)
    {run : List (Event (Option String) × Config String (Option String) Unit)}
    (hrun : (system (handleConn server addr libraries token rounds)).Run
      (Future.start (handleConn server addr libraries token rounds)) run)
    (hworks : Works run) {rest : Bytes}
    (harrived : BufReader.bytes (arrived run) = packetFrame (SBHandshake.handshake handshake) ++
      (packetFrame (SBLogin.loginStart start) ++
        (packetFrame (SBLogin.encryptionResponse response) ++ rest)))
    (hfirst : (packetFrame (SBHandshake.handshake handshake)).take 3 <+:
      Server.LegacyPing.firstRead (arrived run)) :
    let last := System.final (Future.start (handleConn server addr libraries token rounds)) run
    let verdict := judge server token response
    last.AwaitsRoom ∨
      (last.sent = packetFrame (encryptionRequest server token) ++
          (verdict.replies libraries).flatMap packetFrame ∧
        last.asked = verdict.queries server addr libraries start.name.inner) := by
  obtain ⟨ending, answers, -, -, hcaught⟩ := run_arrives hrun
  have hhandshake := takes_handshake haddress (packetFrame (SBLogin.loginStart start) ++
    (packetFrame (SBLogin.encryptionResponse response) ++ rest))
  rw [← harrived] at hhandshake
  obtain ⟨r, hmiddle, -, hconn⟩ := conn_run_of_handshake server addr libraries token rounds
    (handshake_first_read haddress hfirst) hhandshake ending answers
  have hsecond := takes_login (p := .loginStart start) hstart hstart'
    (packetFrame (SBLogin.encryptionResponse response) ++ rest)
  have hthird := takes_login (p := .encryptionResponse response) hresponse hresponse' rest
  rw [← hmiddle] at hsecond
  refine (hcaught hworks).imp_right fun hdone => ?_
  obtain ⟨packets, rest', htakes, hsends, hasks, hstops⟩ := login_runs addr token h.publicKey
    h.reason ⟨r, [], [], answers⟩
  obtain ⟨hsent, hasked, -⟩ := hdone
  rw [hconn, handleSession, hstate] at hsent hasked
  dsimp only at hsent hasked hsends hasks
  have hall : loginConclusion server token answers packets ≠ none ∨
      ∀ p rest'', ¬ TakesPacket SBLogin rest' p rest'' := by
    rcases hstops with ⟨hconcluded, -⟩ | ⟨-, hnone, -⟩
    · exact .inl (by simp [hconcluded])
    · exact .inr hnone
  obtain ⟨more, rfl⟩ := login_packets_unique hsecond hthird htakes hall
  rw [hsent, hsends, hasked, hasks]
  exact ⟨by simp [loginReplies], by simp [loginQueries]⟩

end Exchanges

/-! ## Two clients -/

/-- The frame of a packet of fewer than 128 bytes. -/
theorem packet_frame_of_lt {P : Type} [ToBytes P] {p : P} (h : (encoding p).length < 128) :
    packetFrame p = UInt8.ofNat (encoding p).length :: encoding p := by
  have hprefix := Server.LegacyPing.length_prefix_bytes (n := (encoding p).length)
    (by unfold i32Max; omega)
  rw [packetFrame, StreamCtx.frame, hprefix, Leb128.encode_of_lt h, List.singleton_append]

/-- The handshake of a client that looks for servers. -/
def statusHandshake : Handshake := ⟨⟨5⟩, ⟨"a"⟩, 80, .status⟩

/-- A handshake, a request for the status, and a ping. -/
def statusRead : Read :=
  ⟨[7, 0, 5, 1, 97, 0, 80, 1] ++ [1, 0] ++ [9, 1, 0, 0, 0, 0, 0, 0, 0, 7], by decide⟩

/-- The connection when these have come, when the status has gone out, and at its end. -/
def statusStages : Config String (Option String) Unit × Config String (Option String) Unit ×
    Config String (Option String) Unit :=
  let first := ((start plainConn).step (.read statusRead)).getD (start plainConn)
  let second := (first.step (.took 7)).getD first
  (first, second, (second.step (.took 10)).getD second)

/-- The exchange as a run. -/
def statusRun : List (Event (Option String) × Config String (Option String) Unit) :=
  [(.read statusRead, statusStages.1), (.took 7, statusStages.2.1), (.took 10, statusStages.2.2)]

theorem status_run : (system plainConn).Run (start plainConn) statusRun :=
  ⟨step_get (by decide +kernel) (start plainConn), step_get (by decide +kernel) statusStages.1,
    step_get (by decide +kernel) statusStages.2.1, trivial⟩

/-- The client of `statusRun` gets the status and its ping back. -/
theorem status_exchange_plain :
    letI := nullJson
    statusStages.2.2.asked = [] ∧
      (statusStages.2.2.AwaitsRoom ∨ (statusStages.2.2.future = .ended (.ok ()) ∧
        statusStages.2.2.sent = packetFrame (.statusResponse ⟨⟨()⟩⟩ : CBStatus Unit) ++
          (packetFrame (.pingResponse ⟨7⟩ : CBStatus Unit) ++ []))) := by
  let := nullJson
  have hhandshake := packet_frame_of_lt (p := SBHandshake.handshake statusHandshake) (by decide)
  have hrequest := packet_frame_of_lt (p := SBStatus.statusRequest) (by decide)
  have hping := packet_frame_of_lt (p := SBStatus.pingRequest ⟨7⟩) (by decide)
  have harrived : BufReader.bytes (arrived statusRun) =
      packetFrame (SBHandshake.handshake statusHandshake) ++
        ([SBStatus.statusRequest, .pingRequest ⟨7⟩].flatMap packetFrame ++ []) := by
    rw [List.flatMap_cons, List.flatMap_cons, hhandshake, hrequest, hping]
    decide
  have hfirst : (packetFrame (SBHandshake.handshake statusHandshake)).take 3 <+:
      Server.LegacyPing.firstRead (arrived statusRun) := by
    rw [hhandshake]
    decide
  have hworks : Works statusRun := by simp [Works, statusRun]
  obtain ⟨hasked, -, hdone⟩ := status_exchange (plain_sends.answers statusHandshake) (by decide)
    rfl rfl (by simp) status_run hworks harrived hfirst (by decide)
  exact ⟨hasked, hdone⟩

/-- The handshake of `loginRead`. -/
def loginHandshake : Handshake := ⟨⟨5⟩, ⟨"a"⟩, 80, .login⟩

/-- The client of `loginRun` holds the token, so the session server is asked about it. -/
theorem login_exchange_holder :
    letI := nullJson
    loginStages.2.AwaitsRoom ∨
      (loginStages.2.sent = packetFrame (encryptionRequest plainServer sevens) ++ [] ∧
        loginStages.2.asked =
          [hasJoined plainLibraries [1, 2, 3] "p1" (List.replicate 16 9) ⟨"::1", 4⟩]) := by
  let := nullJson
  let answer : EncryptionResponse := ⟨⟨List.replicate 16 9⟩, ⟨List.replicate 32 7⟩⟩
  have hhandshake := packet_frame_of_lt (p := SBHandshake.handshake loginHandshake) (by decide)
  have hstart := packet_frame_of_lt (p := SBLogin.loginStart ⟨⟨"p1"⟩, none⟩) (by decide)
  have hanswer := packet_frame_of_lt (p := SBLogin.encryptionResponse answer) (by decide)
  have harrived : BufReader.bytes (arrived loginRun) =
      packetFrame (SBHandshake.handshake loginHandshake) ++
        (packetFrame (SBLogin.loginStart ⟨⟨"p1"⟩, none⟩) ++
          (packetFrame (SBLogin.encryptionResponse answer) ++ [])) := by
    rw [hhandshake, hstart, hanswer]
    decide
  have hfirst : (packetFrame (SBHandshake.handshake loginHandshake)).take 3 <+:
      Server.LegacyPing.firstRead (arrived loginRun) := by
    rw [hhandshake]
    decide
  have hworks : Works loginRun := by simp [Works, loginRun]
  have hname : LoginStart.Fits ⟨⟨"p1"⟩, none⟩ := show "p1".utf8ByteSize ≤ i32Max by decide
  have hfits : answer.Fits :=
    ⟨show 16 ≤ i32Max by decide, show 32 ≤ i32Max by decide⟩
  exact login_exchange plain_sends (by decide) rfl hname (by decide) hfits (by decide) login_run
    hworks harrived hfirst

end Bws.Session
