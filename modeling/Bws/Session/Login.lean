import Bws.Protocol.PacketReaders
import Bws.Session.Status
import Bws.Server.SessionHash

/-!
# The login session

`handle_conn_login` sends a token, and goes on with a client only if it has returned the token
encrypted with the key of the server. `login_runs` says on every stream what the session sends and
asks, in terms of the packets that it has read: the session server is asked about a client exactly
when the client has sent back the token and a secret of the right length.
-/

namespace Bws.Session

open Bws.Base Bws.Base.Proc Bws.Base.Future Bws.Protocol Bws.Server

variable {Q R J : Type} [SerdeJson J]

/-- The random bytes of a login. -/
structure Token where
  bytes : Bytes
  length_eq : bytes.length = 32

/-- What the session is given by libraries: a SHA-1 digest, its digits, and a JSON string. -/
structure Libraries (J : Type) where
  sha1 : Bytes → SessionHash.Digest
  lowerHex : Bytes → String
  jsonString : String → J

/-! ## The session -/

/-- `.expect(message)`. -/
def expect {α : Type} (message : String) : Option α → Future Q R α
  | some a => pure a
  | none => Future.unwind (.explicit message)

/-- The error of a packet that does not come next. -/
def notFollowing : Error := ⟨.invalidInput, "Client not following format"⟩

/-- `GenericArray::from_slice`, for the key and the start of a cipher. -/
def keyFromSlice (secret : Bytes) : Future Q R Unit :=
  if secret.length = 16 then pure ()
  else Future.unwind (.explicit "assertion `left == right` failed")

/-- The text of the URL that `reqwest::get` is called with. The name is put into it as it is, so a
client with a `&` or a `#` in its name decides what is asked. -/
def hasJoined (libraries : Libraries J) (publicKey : Bytes) (name : String) (secret : Bytes)
    (addr : SocketAddr) : String :=
  "https://sessionserver.mojang.com/session/minecraft/hasJoined?username=" ++ name ++
    "&serverId=" ++
      SessionHash.serverId libraries.lowerHex (libraries.sha1 (secret ++ publicKey)) ++
    "&ip=" ++ addr.ip

/-- What is done with the answer to the request for encryption. -/
def handleResponse (server : ServerBase J) (addr : SocketAddr) (libraries : Libraries J)
    (token : Token) (start : LoginStart) (response : EncryptionResponse) :
    Future String (Option String) Unit := do
  let verifyToken ← expect "error decrypting verify token"
    (server.rsaKeypair.decrypt response.verifyToken.elems)
  if verifyToken ≠ token.bytes then
    writePacket (.disconnect ⟨⟨libraries.jsonString "Incorrect verify token"⟩⟩ : CBLogin J)
  else do
    let sharedSecret ← expect "error decrypting shared secret"
      (server.rsaKeypair.decrypt response.sharedSecret.elems)
    -- the ciphers are kept, and used by nothing
    keyFromSlice sharedSecret
    let url := hasJoined libraries server.rsaKeypair.publicKeyDer start.name.toInner sharedSecret
      addr
    .ask url (.answer fun body => do
      let _ ← expect "called `Result::unwrap()` on an `Err` value" body
      pure ())

/-- What is done with the packet behind the request. -/
def handleAnswer (server : ServerBase J) (addr : SocketAddr) (libraries : Libraries J)
    (token : Token) (start : LoginStart) : SBLogin → Future String (Option String) Unit
  | .encryptionResponse response => handleResponse server addr libraries token start response
  | _ => Future.fail notFollowing

/-- What is done with the first packet. -/
def handleStart (server : ServerBase J) (addr : SocketAddr) (libraries : Libraries J)
    (token : Token) : SBLogin → Future String (Option String) Unit
  | .loginStart start => do
      let publicKey := server.rsaKeypair.publicKeyDer
      let serverId ← expect "called `Option::unwrap()` on a `None` value" (BString.new 20 "")
      writePacket (.encryptionRequest ⟨serverId, ⟨publicKey⟩, ⟨token.bytes⟩⟩ : CBLogin J)
      handleAnswer server addr libraries token start (← readPacket SBLogin)
  | _ => Future.fail notFollowing

/-- Handle a connection in the login state. -/
def handleConnLogin (server : ServerBase J) (addr : SocketAddr) (libraries : Libraries J)
    (token : Token) : Future String (Option String) Unit := do
  handleStart server addr libraries token (← readPacket SBLogin)

/-! ## What it should do -/

/-- What is made of a client's answer to the request. -/
inductive Verdict where
  | undecryptable (message : String)
  | wrongToken
  | badKey
  | holder (secret : Bytes)
  deriving DecidableEq

section Script

variable (server : ServerBase J) (addr : SocketAddr) (libraries : Libraries J) (token : Token)

/-- The request that every login begins with. -/
def encryptionRequest : CBLogin J :=
  .encryptionRequest ⟨⟨""⟩, ⟨server.rsaKeypair.publicKeyDer⟩, ⟨token.bytes⟩⟩

/-- The packet that a wrong token is answered with. -/
def wrongToken : CBLogin J :=
  .disconnect ⟨⟨libraries.jsonString "Incorrect verify token"⟩⟩

/-- Whether an answer has the token, and a secret that is a key. -/
def judge (response : EncryptionResponse) : Verdict :=
  match server.rsaKeypair.decrypt response.verifyToken.elems with
  | none => .undecryptable "error decrypting verify token"
  | some verifyToken =>
      if verifyToken ≠ token.bytes then .wrongToken
      else
        match server.rsaKeypair.decrypt response.sharedSecret.elems with
        | none => .undecryptable "error decrypting shared secret"
        | some secret => if secret.length = 16 then .holder secret else .badKey

/-- The packets that are sent on a verdict. -/
def Verdict.replies : Verdict → List (CBLogin J)
  | .wrongToken => [Session.wrongToken libraries]
  | _ => []

/-- What the session server is asked on a verdict on the client with this name. -/
def Verdict.queries (name : String) : Verdict → List String
  | .holder secret => [hasJoined libraries server.rsaKeypair.publicKeyDer name secret addr]
  | _ => []

/-- How a login ends on a verdict, where the session server gives these answers. -/
def Verdict.outcome (answers : List (Option String)) : Verdict → Outcome Unit
  | .undecryptable message => .panic (.explicit message)
  | .wrongToken => .ok ()
  | .badKey => .panic (.explicit "assertion `left == right` failed")
  | .holder _ =>
      match answers with
      | [] => .diverge
      | none :: _ => .panic (.explicit "called `Result::unwrap()` on an `Err` value")
      | some _ :: _ => .ok ()

/-- The packets that are sent to a client that has sent these. -/
def loginReplies : List SBLogin → List (CBLogin J)
  | .loginStart _ :: .encryptionResponse response :: _ =>
      encryptionRequest server token :: (judge server token response).replies libraries
  | .loginStart _ :: _ => [encryptionRequest server token]
  | _ => []

/-- What the session server is asked about a client that has sent these packets. -/
def loginQueries : List SBLogin → List String
  | .loginStart start :: .encryptionResponse response :: _ =>
      (judge server token response).queries server addr libraries start.name.inner
  | _ => []

/-- How a login ends that has read these packets, if it does not read on; `answers` are those of
the session server. -/
def loginConclusion (answers : List (Option String)) : List SBLogin → Option (Outcome Unit)
  | [] => none
  | [.loginStart _] => none
  | .loginStart _ :: .encryptionResponse response :: _ =>
      some ((judge server token response).outcome answers)
  | _ => some (.err notFollowing)

/-- What a login has done in a run, with the packets it has read. -/
structure LoggedIn (w : World String (Option String)) (packets : List SBLogin) (rest : Bytes)
    (run : Outcome Unit × World String (Option String)) : Prop where
  takes : TakesPackets SBLogin w.stream.pending packets rest
  sends : run.2.sent = w.sent ++ (loginReplies server libraries token packets).flatMap packetFrame
  asks : run.2.asked = w.asked ++ loginQueries server addr libraries token packets
  stops : (loginConclusion server token w.answers packets = some run.1 ∧
      run.2.stream.pending = rest) ∨
    (loginConclusion server token w.answers packets = none ∧
      (∀ p rest', ¬ TakesPacket SBLogin rest p rest') ∧ run.1 ≠ .ok () ∧
      (w.stream.ending ≠ .silent → run.1 ≠ .diverge))

end Script

/-! ## The session -/

/-- A packet that fits is sent in its frame. -/
theorem write_login_packet {p : CBLogin J} (h : p.Fits) :
    (writePacket p : Future Q R Unit) = writeAll (packetFrame p) := by
  obtain ⟨-, hwrite⟩ | ⟨hfails, -⟩ := write_packet_cases cb_login_format p
  · exact hwrite
  · exact absurd ((cb_login_succeeds p []).mpr h) hfails

section Runs

variable {server : ServerBase J} {addr : SocketAddr} {libraries : Libraries J} {token : Token}

omit [SerdeJson J] in
/-- A holder has sent back the token, and a key. -/
theorem holder_of_judge {response : EncryptionResponse} {secret : Bytes}
    (h : judge server token response = .holder secret) :
    server.rsaKeypair.decrypt response.verifyToken.elems = some token.bytes ∧
      server.rsaKeypair.decrypt response.sharedSecret.elems = some secret ∧
      secret.length = 16 := by
  unfold judge at h
  split at h
  · cases h
  · next verifyToken htoken =>
      split at h
      · cases h
      · next hright =>
          split at h
          · cases h
          · next key hkey =>
              split at h
              · next hlength =>
                  obtain rfl := Verdict.holder.inj h
                  exact ⟨not_not.mp hright ▸ htoken, hkey, hlength⟩
              · cases h

@[simp] theorem expect_some_bind {α β : Type} (message : String) (a : α)
    (f : α → Future Q R β) : (expect message (some a) >>= f) = f a := rfl

@[simp] theorem expect_none_bind {α β : Type} (message : String) (f : α → Future Q R β) :
    (expect message none >>= f) = Future.unwind (.explicit message) := rfl

section Answer

variable {start : LoginStart} {response : EncryptionResponse} {verifyToken secret : Bytes}

/-- An answer whose token does not decrypt. -/
theorem handle_response_undecryptable
    (htoken : server.rsaKeypair.decrypt response.verifyToken.elems = none) :
    handleResponse server addr libraries token start response =
      Future.unwind (.explicit "error decrypting verify token") := by
  rw [handleResponse, htoken, expect_none_bind]

/-- An answer with another token. -/
theorem handle_response_wrong
    (htoken : server.rsaKeypair.decrypt response.verifyToken.elems = some verifyToken)
    (hwrong : verifyToken ≠ token.bytes) :
    handleResponse server addr libraries token start response =
      writePacket (wrongToken libraries) := by
  rw [handleResponse, htoken, expect_some_bind, if_pos hwrong]
  rfl

/-- An answer with the token. -/
theorem handle_response_right
    (htoken : server.rsaKeypair.decrypt response.verifyToken.elems = some token.bytes) :
    handleResponse server addr libraries token start response =
      (expect "error decrypting shared secret"
        (server.rsaKeypair.decrypt response.sharedSecret.elems) >>= fun sharedSecret => do
          keyFromSlice sharedSecret
          .ask (hasJoined libraries server.rsaKeypair.publicKeyDer start.name.inner sharedSecret
              addr)
            (.answer fun body =>
              expect "called `Result::unwrap()` on an `Err` value" body >>= fun _ => pure ())) := by
  rw [handleResponse, htoken, expect_some_bind, if_neg (not_not.mpr rfl)]
  rfl

end Answer

variable (server addr token) in
/-- The answer to the request is judged, and the verdict is acted on. -/
theorem handle_response_run
    (hreason : StringFits (SerdeJson.toString (libraries.jsonString "Incorrect verify token")))
    (start : LoginStart) (response : EncryptionResponse) (w : World String (Option String)) :
    ∃ answers, (handleResponse server addr libraries token start response).run.run w =
      ((judge server token response).outcome w.answers, { w with
        sent := w.sent ++ ((judge server token response).replies libraries).flatMap packetFrame
        asked := w.asked ++
          (judge server token response).queries server addr libraries start.name.inner
        answers := answers }) := by
  rcases htoken : server.rsaKeypair.decrypt response.verifyToken.elems with _ | verifyToken
  · refine ⟨w.answers, ?_⟩
    have hjudge : judge server token response =
        .undecryptable "error decrypting verify token" := by simp [judge, htoken]
    rw [handle_response_undecryptable htoken, hjudge]
    simp [Verdict.outcome, Verdict.replies, Verdict.queries]
  by_cases heq : verifyToken = token.bytes
  · subst heq
    rw [handle_response_right htoken]
    rcases hsecret : server.rsaKeypair.decrypt response.sharedSecret.elems with _ | secret
    · refine ⟨w.answers, ?_⟩
      have hjudge : judge server token response =
          .undecryptable "error decrypting shared secret" := by simp [judge, htoken, hsecret]
      rw [expect_none_bind, hjudge]
      simp [Verdict.outcome, Verdict.replies, Verdict.queries]
    rw [expect_some_bind, keyFromSlice]
    by_cases hlength : secret.length = 16
    · have hjudge : judge server token response = .holder secret := by
        simp [judge, htoken, hsecret, hlength]
      rw [if_pos hlength, hjudge]
      obtain ⟨stream, sent, asked, answers⟩ := w
      rcases answers with _ | ⟨_ | body, answers⟩
      · exact ⟨[], by simp [Verdict.replies]; rfl⟩
      · exact ⟨answers, by simp [Verdict.replies]; rfl⟩
      · exact ⟨answers, by simp [Verdict.replies]; rfl⟩
    · refine ⟨w.answers, ?_⟩
      have hjudge : judge server token response = .badKey := by
        simp [judge, htoken, hsecret, hlength]
      rw [if_neg hlength, hjudge]
      simp [Verdict.outcome, Verdict.replies, Verdict.queries]
      rfl
  · refine ⟨w.answers, ?_⟩
    have hjudge : judge server token response = .wrongToken := by simp [judge, htoken, heq]
    rw [handle_response_wrong htoken heq, write_login_packet (p := wrongToken libraries) hreason,
      hjudge, run_write_all]
    simp [World.send, Verdict.outcome, Verdict.replies, Verdict.queries]

/-- The request for encryption goes out, and the answer is read. -/
theorem handle_start_run (hkey : server.rsaKeypair.publicKeyDer.length ≤ i32Max)
    (start : LoginStart) (w : World String (Option String)) :
    (handleStart server addr libraries token (.loginStart start)).run.run w =
      (readPacket SBLogin >>= handleAnswer server addr libraries token start).run.run
        { w with sent := w.sent ++ packetFrame (encryptionRequest server token) } := by
  have hfits : (encryptionRequest server token).Fits :=
    ⟨by simp [StringFits], hkey, by
      change token.bytes.length ≤ i32Max
      rw [token.length_eq]
      decide⟩
  have hstart : handleStart server addr libraries token (.loginStart start) =
      (writePacket (encryptionRequest server token) >>= fun _ =>
        readPacket SBLogin >>= handleAnswer server addr libraries token start) := rfl
  rw [hstart, write_login_packet hfits]
  rfl

/-- No packet. -/
theorem logged_in_of_nothing {w : World String (Option String)}
    (hfront : ∀ p rest, ¬ TakesPacket SBLogin w.stream.pending p rest) :
    LoggedIn server addr libraries token w [] w.stream.pending
      ((handleConnLogin server addr libraries token).run.run w) := by
  obtain ⟨o, r, hrun, hnone, hdiverge⟩ := run_none_bind
    (f := handleStart server addr libraries token) hfront
    sb_login_terminating.ends_on_every_input.ends
  rw [handleConnLogin, hrun]
  exact ⟨.nil _, by simp [loginReplies], by simp [loginQueries],
    .inr ⟨rfl, hfront, hnone (), hdiverge⟩⟩

/-- A first packet that gives no name. -/
theorem logged_in_of_other {w : World String (Option String)} {packet : SBLogin} {rest : Bytes}
    (hfront : TakesPacket SBLogin w.stream.pending packet rest)
    (hother : ∀ start, packet ≠ .loginStart start) :
    LoggedIn server addr libraries token w [packet] rest
      ((handleConnLogin server addr libraries token).run.run w) := by
  obtain ⟨r, hpending, -, hrun⟩ := run_read_bind
    (f := handleStart server addr libraries token) hfront
  rw [handleConnLogin, hrun]
  cases packet with
  | loginStart start => exact absurd rfl (hother start)
  | encryptionResponse | pluginResponse =>
      exact ⟨.cons hfront (.nil rest), by simp [loginReplies, handleStart],
        by simp [loginQueries, handleStart], .inl ⟨rfl, hpending⟩⟩

/-- A name, and what comes behind it. -/
theorem logged_in_of_start (hkey : server.rsaKeypair.publicKeyDer.length ≤ i32Max)
    (hreason : StringFits (SerdeJson.toString (libraries.jsonString "Incorrect verify token")))
    {w : World String (Option String)} {start : LoginStart} {middle : Bytes}
    (hfront : TakesPacket SBLogin w.stream.pending (.loginStart start) middle) :
    ∃ packets rest, LoggedIn server addr libraries token w (.loginStart start :: packets) rest
      ((handleConnLogin server addr libraries token).run.run w) := by
  obtain ⟨r, hpending, hending, hrun⟩ := run_read_bind
    (f := handleStart server addr libraries token) hfront
  rw [handle_start_run hkey] at hrun
  rw [handleConnLogin, hrun]
  by_cases hsecond : ∃ p rest, TakesPacket SBLogin middle p rest
  · obtain ⟨packet, rest, hsecond⟩ := hsecond
    have htakes : TakesPackets SBLogin w.stream.pending [.loginStart start, packet] rest :=
      .cons hfront (.cons hsecond (.nil rest))
    obtain ⟨r', hpending', -, hrun'⟩ := run_read_bind
      (f := handleAnswer server addr libraries token start)
      (w := { w with
        stream := r, sent := w.sent ++ packetFrame (encryptionRequest server token) })
      (hpending ▸ hsecond)
    rw [hrun']
    refine ⟨[packet], rest, ?_⟩
    cases packet with
    | encryptionResponse response =>
        obtain ⟨answers, hanswer⟩ := handle_response_run server addr token hreason start response _
        rw [handleAnswer, hanswer]
        exact ⟨htakes, by simp [loginReplies], by simp [loginQueries], .inl ⟨rfl, hpending'⟩⟩
    | loginStart | pluginResponse =>
        exact ⟨htakes, by simp [loginReplies, handleAnswer],
          by simp [loginQueries, handleAnswer], .inl ⟨rfl, hpending'⟩⟩
  · push Not at hsecond
    obtain ⟨o, r', hrun', hnone, hdiverge⟩ := run_none_bind
      (f := handleAnswer server addr libraries token start)
      (w := { w with
        stream := r, sent := w.sent ++ packetFrame (encryptionRequest server token) })
      (hpending ▸ hsecond) sb_login_terminating.ends_on_every_input.ends
    rw [hrun']
    exact ⟨[], middle, .cons hfront (.nil middle), by simp [loginReplies],
      by simp [loginQueries], .inr ⟨rfl, hsecond, hnone (), hending ▸ hdiverge⟩⟩

variable (addr token) in
/-- On every stream, a login sends the request for encryption to a client that has given its name,
asks the session server about it if it has answered with the token and a key, and stops at the
first packet that is not as it should be. -/
theorem login_runs (hkey : server.rsaKeypair.publicKeyDer.length ≤ i32Max)
    (hreason : StringFits (SerdeJson.toString (libraries.jsonString "Incorrect verify token")))
    (w : World String (Option String)) :
    ∃ packets rest, LoggedIn server addr libraries token w packets rest
      ((handleConnLogin server addr libraries token).run.run w) := by
  by_cases hfront : ∃ p rest, TakesPacket SBLogin w.stream.pending p rest
  · obtain ⟨packet, middle, hfront⟩ := hfront
    cases packet with
    | loginStart start =>
        obtain ⟨packets, rest, hlogin⟩ := logged_in_of_start hkey hreason hfront
        exact ⟨_, _, hlogin⟩
    | encryptionResponse | pluginResponse =>
        exact ⟨_, _, logged_in_of_other hfront (by simp)⟩
  · push Not at hfront
    exact ⟨_, _, logged_in_of_nothing hfront⟩

end Runs

end Bws.Session
