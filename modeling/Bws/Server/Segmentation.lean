import Bws.Server.LegacyPing

/-!
# Legacy pings and the reads they arrive in

The bytes of a client may be split into reads anywhere. What is read of a 1.6 ping behind its
first read does not depend on the split, but the type of the ping is decided by the first read
alone. `verdict_of_splits` says for which streams the verdict is the same however they arrive.
-/

namespace Bws.Server.LegacyPing

open Bws.Base Bws.Base.Proc ConnCtx

/-- The same connection with everything its client sends in the buffer of the reader. -/
def gathered (ctx : ConnCtx) : ConnCtx := socket.set ctx (socket.get ctx).gather

/-- Replacing the buffer does not depend on how the stream is split. -/
theorem set_buf_respects (f : Bytes → Bytes) : Respects gathered (setBuf f) := by
  rintro ⟨id, stream, outgoing, buf⟩ ⟨id', stream', outgoing', buf'⟩ h
  obtain ⟨rfl, hgather, rfl, rfl⟩ := ConnCtx.mk.inj h
  exact ⟨rfl, congrArg (fun r => ConnCtx.mk id r outgoing (f buf)) hgather⟩

/-- The length of the buffer does not depend on how the stream is split. -/
theorem buf_length_respects : Respects gathered bufLength := by
  rintro ⟨id, stream, outgoing, buf⟩ ⟨id', stream', outgoing', buf'⟩ h
  obtain ⟨rfl, -, rfl, rfl⟩ := ConnCtx.mk.inj h
  exact ⟨rfl, h⟩

/-- Filling the buffer does not depend on how the stream is split. -/
theorem fill_buf_respects : Respects gathered fillBuf := by
  refine respects_bind buf_length_respects fun n => ?_
  refine respects_bind (respects_zoom socket (BufReader.read_exact_respects _ n)) fun bytes => ?_
  exact respects_bind (set_buf_respects _) fun _ => respects_pure _

/-- Reading a number does not depend on how the stream is split. -/
theorem read_number_respects (n : Nat) : Respects gathered (readNumber n) :=
  respects_map (respects_zoom socket (BufReader.read_exact_respects _ n)) _

/-- A subtraction reads nothing. -/
theorem subtract_respects (a b : UInt16) : Respects gathered (subtract a b) := by
  unfold subtract
  split
  · exact respects_pure _
  · exact respects_unwind _

/-- Decoding units reads nothing. -/
theorem units_respects (bytes : Bytes) : Respects gathered (units bytes) := by
  induction bytes using units.induct with
  | case1 => exact respects_pure _
  | case2 a => exact respects_unwind _
  | case3 a b rest ih => exact respects_bind ih fun _ => respects_pure _

/-- The payload of a 1.6 ping does not depend on how the stream is split. -/
theorem read1_6_respects : Respects gathered read1_6 := by
  refine respects_bind (set_buf_respects _) fun _ => ?_
  refine respects_bind fill_buf_respects fun _ => ?_
  refine respects_bind (respects_map (read_number_respects 2) _) fun total => ?_
  refine respects_bind (subtract_respects total 7) fun hostnameLen => ?_
  refine respects_bind (respects_map (read_number_respects 1) _) fun protocol => ?_
  refine respects_bind (respects_map (read_number_respects 2) _) fun _ => ?_
  refine respects_bind (set_buf_respects _) fun _ => ?_
  refine respects_bind fill_buf_respects fun bytes => ?_
  refine respects_bind (units_respects bytes) fun hostname => ?_
  exact respects_bind (respects_map (read_number_respects 4) _) fun _ => respects_pure _

/-- No payload depends on how the stream is split. -/
theorem read_payload_respects (pingType : PingType) :
    Respects gathered (readPayload pingType) := by
  cases pingType with
  | pre1_4 | pre1_6 => exact respects_pure _
  | pre1_7 => exact read1_6_respects

/-! ## The verdict -/

/-- The verdict on a client that sends `reads`. -/
def verdict (id : Nat) (reads : List Read) (ending : Ending) :
    Outcome (Option (PingType × LegacyPingPayload)) :=
  (detect.run (.new id reads ending)).1

/-- The bytes of the first read, if there is one. -/
def firstRead : List Read → Bytes
  | [] => []
  | read :: _ => read.val

/-- What is done after the first read. -/
def judge : Option PingType → Proc ConnCtx (Option (PingType × LegacyPingPayload))
  | none => pure none
  | some pingType => (fun payload => some (pingType, payload)) <$> readPayload pingType

/-- The connection after its first read. -/
def started (id : Nat) (read : Read) (reads : List Read) (ending : Ending) : ConnCtx :=
  ⟨id, ⟨read.val, reads, ending⟩, [], []⟩

/-- The detection behind the first read. -/
theorem detect_cons (id : Nat) (read : Read) (reads : List Read) (ending : Ending) :
    detect.run (.new id (read :: reads) ending) =
      (judge (pingType read.val)).run (started id read reads ending) := by
  have hfill : (zoom socket BufReader.fillBuf).run (.new id (read :: reads) ending) =
      (.ok read.val, started id read reads ending) := rfl
  rw [detect, bind_of_ok hfill]
  cases pingType read.val with
  | none => rfl
  | some t => rw [judge, map_eq_pure_bind]

/-- After the first reads, two splits of one stream look the same. -/
theorem gathered_started (id : Nat) (ending : Ending) {x y : Read} {xs ys : List Read}
    (h : BufReader.bytes (x :: xs) = BufReader.bytes (y :: ys)) :
    gathered (started id x xs ending) = gathered (started id y ys ending) :=
  congrArg (fun bytes => ConnCtx.mk id ⟨bytes, [], ending⟩ [] []) h

/-- Nothing that is done after the first read depends on how the stream is split. -/
theorem judge_respects (pingType : Option PingType) : Respects gathered (judge pingType) := by
  cases pingType with
  | none => exact respects_pure _
  | some t => exact respects_map (read_payload_respects t) _

/-- The type of ping that a verdict tells. Only a 1.6 ping has a payload that can fail. -/
def typeOf : Outcome (Option (PingType × LegacyPingPayload)) → Option PingType
  | .ok none => none
  | .ok (some (pingType, _)) => some pingType
  | .err _ | .panic _ | .diverge => some .pre1_7

/-- The verdict tells the type of ping. -/
theorem type_of_judge (pingType : Option PingType) (ctx : ConnCtx) :
    typeOf ((judge pingType).run ctx).1 = pingType := by
  cases pingType with
  | none => rfl
  | some t =>
      cases t with
      | pre1_4 | pre1_6 => rfl
      | pre1_7 =>
          rw [judge, map_eq_pure_bind, run_bind]
          rcases (readPayload .pre1_7).run ctx with ⟨_ | _ | _ | _, _⟩ <;> rfl

/-- A stream that has bytes has a first read. -/
theorem bytes_eq_nil {reads : List Read} (h : BufReader.bytes reads = []) : reads = [] := by
  cases reads with
  | nil => rfl
  | cons read reads => exact absurd (List.append_eq_nil_iff.mp h).1 read.property

/-- On two splits of one stream the verdict is the same exactly when the first reads match the
same arm. -/
theorem verdict_eq_iff (id : Nat) (ending : Ending) {a b : List Read}
    (h : BufReader.bytes a = BufReader.bytes b) :
    verdict id a ending = verdict id b ending ↔
      pingType (firstRead a) = pingType (firstRead b) := by
  cases a with
  | nil =>
      obtain rfl := bytes_eq_nil h.symm
      exact iff_of_true rfl rfl
  | cons x xs =>
      cases b with
      | nil => cases bytes_eq_nil h
      | cons y ys =>
          rw [verdict, verdict, detect_cons, detect_cons, firstRead, firstRead]
          constructor
          · -- the verdict tells the arm, even when the payload fails
            intro hverdict
            have htype := congrArg typeOf hverdict
            rwa [type_of_judge, type_of_judge] at htype
          · -- behind the same arm the split is no longer seen
            intro htype
            rw [htype]
            exact (judge_respects _ _ _ (gathered_started id ending h)).1

/-- Writing the buffer does not depend on how the stream is split. -/
theorem write_buf_respects : Respects gathered writeBuf := by
  rintro ⟨id, stream, outgoing, buf⟩ ⟨id', stream', outgoing', buf'⟩ h
  obtain ⟨rfl, hgather, rfl, rfl⟩ := ConnCtx.mk.inj h
  exact ⟨rfl, congrArg (fun r => ConnCtx.mk id r (outgoing ++ buf) buf) hgather⟩

/-- A response does not depend on how the stream is split. -/
theorem write_response_respects (pingType : PingType) (response : LegacyPingResponse) :
    Respects gathered (writeResponse pingType response) := by
  unfold writeResponse
  split
  · exact respects_fail _
  · cases pingType with
    | pre1_4 | pre1_6 | pre1_7 =>
        exact respects_bind (set_buf_respects _) fun _ => write_buf_respects

/-- The handlers do not see how the stream is split. -/
theorem ask_handlers_respects (handlers : List Handler) (payload : LegacyPingPayload) :
    Respects gathered (askHandlers handlers payload) := by
  unfold askHandlers
  generalize (none : Option LegacyPingResponse) = response
  induction handlers generalizing response with
  | nil => exact respects_pure _
  | cons handler handlers ih =>
      rw [List.foldlM_cons]
      refine respects_bind ?_ ih
      rintro ⟨id, stream, outgoing, buf⟩ ⟨id', stream', outgoing', buf'⟩ h
      obtain ⟨rfl, -, rfl, rfl⟩ := ConnCtx.mk.inj h
      exact ⟨rfl, h⟩

/-- An answer does not depend on how the stream is split. -/
theorem answer_respects (handlers : List Handler)
    (ping : Option (PingType × LegacyPingPayload)) :
    Respects gathered (answer handlers ping) := by
  cases ping with
  | none => exact respects_pure _
  | some ping =>
      refine respects_bind (ask_handlers_respects handlers ping.2) fun response => ?_
      cases response with
      | none => exact respects_pure _
      | some response =>
          exact respects_bind (write_response_respects _ response) fun _ => respects_pure _

/-- When the first reads match the same arm, a connection is handled the same: the result and
the bytes sent do not depend on the split. -/
theorem handle_same_arm (handlers : List Handler) (id : Nat) (ending : Ending)
    {a b : List Read} (h : BufReader.bytes a = BufReader.bytes b)
    (harm : pingType (firstRead a) = pingType (firstRead b)) :
    let runA := (handle handlers).run (.new id a ending)
    let runB := (handle handlers).run (.new id b ending)
    runA.1 = runB.1 ∧ runA.2.outgoing = runB.2.outgoing := by
  cases a with
  | nil =>
      obtain rfl := bytes_eq_nil h.symm
      exact ⟨rfl, rfl⟩
  | cons x xs =>
      cases b with
      | nil => cases bytes_eq_nil h
      | cons y ys =>
          have hresp := respects_bind (judge_respects (pingType x.val)) (answer_respects handlers)
          obtain ⟨hresult, hstate⟩ := hresp _ _ (gathered_started id ending h)
          change pingType x.val = pingType y.val at harm
          rw [handle, run_bind, run_bind, detect_cons, detect_cons, ← run_bind, ← run_bind,
            ← harm]
          obtain ⟨-, -, houtgoing, -⟩ := ConnCtx.mk.inj hstate
          exact ⟨hresult, houtgoing⟩

/-- Only a first read of one byte is a ping of a client before 1.4. -/
theorem ping_type_long (x y : UInt8) (rest : Bytes) :
    pingType (x :: y :: rest) ≠ some .pre1_4 := by
  unfold pingType
  split <;> simp_all

/-- A first byte other than `0xFE` is not a ping. -/
theorem ping_type_other {c : UInt8} (hc : c ≠ 0xFE) (rest : Bytes) :
    pingType (c :: rest) = none := by
  unfold pingType
  split <;> simp_all

/-- The first read of a stream that is a single byte, or does not begin with `0xFE`, matches the
same arm as the whole stream. -/
theorem ping_type_first_read {reads : List Read}
    (h : ∀ y rest, BufReader.bytes reads ≠ 0xFE :: y :: rest) :
    pingType (firstRead reads) = pingType (BufReader.bytes reads) := by
  cases reads with
  | nil => rfl
  | cons read reads =>
      obtain ⟨bs, hne⟩ := read
      cases bs with
      | nil => exact absurd rfl hne
      | cons c tail =>
          change pingType (c :: tail) = pingType (c :: (tail ++ BufReader.bytes reads))
          by_cases hc : c = 0xFE
          · subst hc
            cases hrest : tail ++ BufReader.bytes reads with
            | nil => rw [(List.append_eq_nil_iff.mp hrest).1]
            | cons y rest => exact absurd (congrArg (0xFE :: ·) hrest) (h y rest)
          · rw [ping_type_other hc, ping_type_other hc]

/-- The verdict on a stream depends on how it is split exactly when it is longer than one byte
and begins with `0xFE`. -/
theorem same_verdict_iff (id : Nat) (ending : Ending) (s : Bytes) :
    (∀ a b : List Read, BufReader.bytes a = s → BufReader.bytes b = s →
      verdict id a ending = verdict id b ending) ↔ ∀ y rest, s ≠ 0xFE :: y :: rest := by
  constructor
  · rintro hsame y rest rfl
    -- the first byte alone, and all bytes at once
    have hverdict := hsame [⟨[0xFE], nofun⟩, ⟨y :: rest, nofun⟩] [⟨0xFE :: y :: rest, nofun⟩]
      (by simp [BufReader.bytes]) (by simp [BufReader.bytes])
    rw [verdict_eq_iff id ending (by simp [BufReader.bytes])] at hverdict
    exact ping_type_long _ _ _ hverdict.symm
  · rintro hs a b rfl hb
    rw [verdict_eq_iff id ending hb.symm, ping_type_first_read hs,
      ping_type_first_read (hb ▸ hs), hb]

/-- A stream has one verdict however it is split exactly when it is at most one byte long or
does not begin with `0xFE`. On any stream, two splits have one verdict exactly when their first
reads match the same arm. -/
theorem verdict_of_splits (id : Nat) (ending : Ending) (s : Bytes) :
    ((∀ a b : List Read, BufReader.bytes a = s → BufReader.bytes b = s →
        verdict id a ending = verdict id b ending) ↔ ∀ y rest, s ≠ 0xFE :: y :: rest) ∧
      ∀ a b : List Read, BufReader.bytes a = s → BufReader.bytes b = s →
        (verdict id a ending = verdict id b ending ↔
          pingType (firstRead a) = pingType (firstRead b)) :=
  ⟨same_verdict_iff id ending s, fun _ _ ha hb => verdict_eq_iff id ending (ha.trans hb.symm)⟩

/-- The ping of a 1.6 client with no hostname. -/
def ping1_6 : Bytes :=
  [0xFE, 0x01, 0xFA, 0x00, 0x0B, 0x00, 0x4D, 0x00, 0x43, 0x00, 0x7C, 0x00, 0x50, 0x00, 0x69,
    0x00, 0x6E, 0x00, 0x67, 0x00, 0x48, 0x00, 0x6F, 0x00, 0x73, 0x00, 0x74] ++
    [0x00, 0x07, 0x4A, 0x00, 0x00, 0x00, 0x00, 0x63, 0xDD]

/-- A 1.6 ping whose first byte arrives alone is answered as one from before 1.4. -/
theorem ping1_6_split : ∃ a b : List Read,
    BufReader.bytes a = ping1_6 ∧ BufReader.bytes b = ping1_6 ∧
      verdict 0 a .closed = .ok (some (.pre1_4, default)) ∧
      verdict 0 b .closed = .ok (some (.pre1_7, ⟨74, "", 25565⟩)) ∧
      verdict 0 a .closed ≠ verdict 0 b .closed := by
  refine ⟨[⟨[0xFE], nofun⟩, ⟨ping1_6.tail, nofun⟩], [⟨ping1_6, nofun⟩], rfl, rfl, ?_⟩
  decide

end Bws.Server.LegacyPing
