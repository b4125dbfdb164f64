import Bws.Base.Transition
import Bws.Protocol.DeriveLaws
import Bws.Protocol.Packets

/-!
# The bound of a `BString`

The bound over everything a program does with values of the type: it obtains them with `new`,
with the derived reader and with `clone`, and changes them with `mutate`, which leaves a string
that is too long in place when it panics. `bounds_iff` says which runs keep every value within
the bound, and which packets are decoded with a name or an address within it.
-/

namespace Bws.Protocol

open Bws.Base

variable {max : Nat}

/-- An operation on the values in reach, which are numbered. -/
inductive BString.Op where
  | new (s : String)
  | readFrom (input : Bytes)
  | clone (i : Nat)
  | mutate (i : Nat) (f : Proc String Unit)

/-- The values in reach after an operation. A panic in `mutate` is caught; a closure that never
comes back never gives its value back. -/
def BString.Op.apply : BString.Op → List (BString max) → List (BString max)
  | .new s, values => values ++ (BString.new max s).toList
  | .readFrom input, values =>
      match (Protocol.readFrom : Reader (BString max)).run input with
      | (.ok value, _) => values ++ [value]
      | _ => values
  | .clone i, values => values ++ values[i]?.toList
  | .mutate i f, values =>
      match values[i]? with
      | none => values
      | some value =>
          match (BString.mutate f).run value with
          | (.diverge, _) => values.eraseIdx i
          | (_, value) => values.set i value

/-- A program that starts with no value and does one operation after the other. -/
def BString.program (max : Nat) : System (List (BString max)) BString.Op where
  Init values := values = []
  Step values op values' := values' = op.apply values

/-- Every value in reach is within the bound. -/
def AllBounded (values : List (BString max)) : Prop := ∀ value ∈ values, value.Bounded

/-- An operation that keeps the bound: a string that is read is not longer, and neither is the
one that a closure comes back with. -/
def BString.Op.KeepsBound (values : List (BString max)) : BString.Op → Prop
  | .new _ | .clone _ => True
  | .readFrom input =>
      ∀ string rest, StartsWithBlock input (asBytes string) rest → string.utf8ByteSize ≤ max
  | .mutate i f =>
      ∀ value, values[i]? = some value → (f.run value.inner).1 ≠ .diverge →
        (f.run value.inner).2.utf8ByteSize ≤ max

/-! ## One operation -/

/-- Adding a value keeps the bound exactly when it is within. -/
theorem all_bounded_append_iff {values : List (BString max)} (h : AllBounded values)
    (value : BString max) : AllBounded (values ++ [value]) ↔ value.Bounded := by
  constructor
  · exact fun hall => hall value (by simp)
  · intro hvalue v hv
    rcases List.mem_append.mp hv with hold | hnew
    · exact h v hold
    · rwa [List.mem_singleton.mp hnew]

/-- Replacing a value keeps the bound exactly when the new one is within. -/
theorem all_bounded_set_iff {values : List (BString max)} (h : AllBounded values) {i : Nat}
    (hi : i < values.length) (value : BString max) :
    AllBounded (values.set i value) ↔ value.Bounded := by
  constructor
  · exact fun hall => hall value (List.mem_set hi value)
  · intro hvalue v hv
    rcases List.mem_or_eq_of_mem_set hv with hold | rfl
    · exact h v hold
    · exact hvalue

/-- `new` gives values within the bound. -/
theorem new_bounded {s : String} {value : BString max} (h : BString.new max s = some value) :
    value.Bounded := by
  unfold BString.new at h
  split at h
  · cases h
  · cases h
    exact Nat.le_of_not_lt ‹_›

/-- The derived reader reads the string inside and checks nothing else. -/
theorem read_bstring_ok_iff {s rest : Bytes} {value : BString max} :
    (readFrom : Reader (BString max)).run s = (.ok value, rest) ↔
      StartsWithBlock s (asBytes value.inner) rest := by
  have hfields : (readFrom : Reader (BString max)).run s = (.ok value, rest) ↔
      (readFields [⟨none, String⟩]).run s = (.ok (value.inner, ()), rest) := derived_ok_iff rfl
  exact hfields.trans (read_field_ok_iff.trans read_string_ok_iff)

/-- What `mutate` leaves inside is what the closure does, and it comes back when the closure
does. -/
theorem mutate_run (f : Proc String Unit) (value : BString max) :
    ((BString.mutate f).run value).2 = ⟨(f.run value.inner).2⟩ ∧
      (((BString.mutate f).run value).1 = .diverge ↔ (f.run value.inner).1 = .diverge) := by
  rcases hf : f.run value.inner with ⟨_ | _ | _ | _, inner⟩
  · simp only [BString.mutate, hf]
    split <;> simp
  · simp [BString.mutate, hf]
  · simp [BString.mutate, hf]
  · simp [BString.mutate, hf]

/-- Reading a value keeps the bound exactly when the string read is not longer. -/
theorem read_keeps_bound_iff {values : List (BString max)} (h : AllBounded values)
    (input : Bytes) :
    AllBounded ((BString.Op.readFrom input).apply values) ↔
      (BString.Op.readFrom input).KeepsBound values := by
  by_cases hs : ∃ string rest, StartsWithBlock input (asBytes string) rest
  · obtain ⟨string, rest, hblock⟩ := hs
    have hread : (readFrom : Reader (BString max)).run input = (.ok ⟨string⟩, rest) :=
      read_bstring_ok_iff.mpr hblock
    have happly : (BString.Op.readFrom input).apply values = values ++ [⟨string⟩] := by
      simp only [BString.Op.apply, hread]
    rw [happly, all_bounded_append_iff h]
    constructor
    · intro hbound string' rest' hblock'
      have hread' : (readFrom : Reader (BString max)).run input = (.ok ⟨string'⟩, rest') :=
        read_bstring_ok_iff.mpr hblock'
      obtain ⟨rfl, -⟩ : string = string' ∧ rest = rest' := by
        simpa using hread.symm.trans hread'
      exact hbound
    · exact fun hkeeps => hkeeps string rest hblock
  · have happly : (BString.Op.readFrom input).apply values = values := by
      rcases hread : (readFrom : Reader (BString max)).run input with ⟨value | _ | _ | _, rest⟩
      · exact absurd ⟨_, rest, read_bstring_ok_iff.mp hread⟩ hs
      all_goals simp only [BString.Op.apply, hread]
    rw [happly]
    exact iff_of_true h fun string rest hblock => absurd ⟨string, rest, hblock⟩ hs

/-- Changing a value keeps the bound exactly when the closure leaves a string within. -/
theorem mutate_keeps_bound_iff {values : List (BString max)} (h : AllBounded values) (i : Nat)
    (f : Proc String Unit) :
    AllBounded ((BString.Op.mutate i f).apply values) ↔
      (BString.Op.mutate i f).KeepsBound values := by
  rcases hi : values[i]? with _ | value
  · have happly : (BString.Op.mutate i f).apply values = values := by
      simp only [BString.Op.apply, hi]
    rw [happly]
    exact iff_of_true h fun value hvalue => absurd (hi.symm.trans hvalue) (by simp)
  · -- the value is written back also when the closure unwinds, but not when it never ends
    obtain ⟨hinner, hdiverge⟩ := mutate_run f value
    have hkeeps : (BString.Op.mutate i f).KeepsBound values ↔
        ((f.run value.inner).1 ≠ .diverge → (f.run value.inner).2.utf8ByteSize ≤ max) := by
      simp [BString.Op.KeepsBound, hi]
    rw [hkeeps]
    by_cases hback : (f.run value.inner).1 = .diverge
    · have happly : (BString.Op.mutate i f).apply values = values.eraseIdx i := by
        rcases hrun : (BString.mutate f).run value with ⟨outcome, left⟩
        obtain rfl : outcome = .diverge := by rw [← hdiverge.mpr hback, hrun]
        simp only [BString.Op.apply, hi, hrun]
      rw [happly]
      exact iff_of_true (fun v hv => h v (List.mem_of_mem_eraseIdx hv)) fun hne => absurd hback hne
    · have happly : (BString.Op.mutate i f).apply values =
          values.set i ⟨(f.run value.inner).2⟩ := by
        rw [← hinner]
        rcases hrun : (BString.mutate f).run value with ⟨_ | _ | _ | _, left⟩
        · simp only [BString.Op.apply, hi, hrun]
        · simp only [BString.Op.apply, hi, hrun]
        · simp only [BString.Op.apply, hi, hrun]
        · exact absurd (hdiverge.mp (by rw [hrun])) hback
      obtain ⟨hlt, -⟩ := List.getElem?_eq_some_iff.mp hi
      rw [happly, all_bounded_set_iff h hlt]
      exact ⟨fun hbound _ => hbound, fun hbound => hbound hback⟩

/-- An operation on values within the bound keeps it exactly when `KeepsBound` says so. -/
theorem apply_bounded_iff {values : List (BString max)} (h : AllBounded values)
    (op : BString.Op) : AllBounded (op.apply values) ↔ op.KeepsBound values := by
  cases op with
  | new s =>
      refine iff_of_true ?_ trivial
      rcases hnew : BString.new max s with _ | value
      · simpa [BString.Op.apply, hnew] using h
      · simpa [BString.Op.apply, hnew] using
          (all_bounded_append_iff h value).mpr (new_bounded hnew)
  | readFrom input => exact read_keeps_bound_iff h input
  | clone i =>
      refine iff_of_true ?_ trivial
      rcases hi : values[i]? with _ | value
      · simpa [BString.Op.apply, hi] using h
      · simpa [BString.Op.apply, hi] using
          (all_bounded_append_iff h value).mpr (h value (List.mem_of_getElem? hi))
  | mutate i f => exact mutate_keeps_bound_iff h i f

/-! ## Packets -/

/-- A bound string that is read is within the bound exactly when its length is. -/
theorem read_bstring_bounded_iff {s rest : Bytes} {value : BString max}
    (h : (readFrom : Reader (BString max)).run s = (.ok value, rest)) :
    value.Bounded ↔ ∀ n after, StartsWithVarInt s n after → n.toInt ≤ max := by
  obtain ⟨n, hstart, hlen⟩ := read_bstring_ok_iff.mp h
  rw [length_as_bytes] at hlen
  unfold BString.Bounded
  constructor
  · intro hbound n' after hstart'
    obtain ⟨rfl, -⟩ := hstart.unique hstart'
    omega
  · intro hall
    have hn := hall n _ hstart
    omega

/-- The length of the address in the bytes of a handshake packet. -/
def AddressLength (s : Bytes) (n : Int32) : Prop :=
  ∃ body version address after, StartsWithVarInt s 0 body ∧ StartsWithVarInt body version address ∧
    StartsWithVarInt address n after

/-- The length of the name in the bytes of a login packet. -/
def NameLength (s : Bytes) (n : Int32) : Prop :=
  ∃ name after, StartsWithVarInt s 0 name ∧ StartsWithVarInt name n after

/-- The address of a handshake packet is within its bound exactly when its length is. -/
theorem address_bounded_iff {s rest : Bytes} {p : Handshake}
    (h : (readFrom : Reader SBHandshake).run s = (.ok (.handshake p), rest)) :
    p.serverAddress.Bounded ↔ ∀ n, AddressLength s n → n.toInt ≤ 255 := by
  obtain ⟨body, htag, hbody⟩ := read_first_variant_ok_iff.mp ((derived_ok_iff rfl).mp h)
  have hpacket := (derived_ok_iff rfl).mp hbody
  obtain ⟨address, hversion, hrest⟩ := read_fields_cons_ok_iff.mp hpacket
  obtain ⟨after, haddress, -⟩ := read_fields_cons_ok_iff.mp hrest
  have hversion := read_varint_ok_iff.mp hversion
  rw [read_bstring_bounded_iff haddress]
  constructor
  · rintro hall n ⟨body', version', address', after', htag', hversion', hlength⟩
    obtain ⟨-, rfl⟩ := htag.unique htag'
    obtain ⟨-, rfl⟩ := hversion.unique hversion'
    exact hall n after' hlength
  · exact fun hall n after hlength => hall n ⟨body, _, address, after, htag, hversion, hlength⟩

/-- The name of a login packet is within its bound exactly when its length is. -/
theorem name_bounded_iff {s rest : Bytes} {p : LoginStart}
    (h : (readFrom : Reader SBLogin).run s = (.ok (.loginStart p), rest)) :
    p.name.Bounded ↔ ∀ n, NameLength s n → n.toInt ≤ 16 := by
  obtain ⟨body, htag, hbody⟩ := read_first_variant_ok_iff.mp ((derived_ok_iff rfl).mp h)
  have hpacket := (derived_ok_iff rfl).mp hbody
  obtain ⟨after, hname, -⟩ := read_fields_cons_ok_iff.mp hpacket
  rw [read_bstring_bounded_iff hname]
  constructor
  · rintro hall n ⟨body', after', htag', hlength⟩
    obtain ⟨-, rfl⟩ := htag.unique htag'
    exact hall n after' hlength
  · exact fun hall n after hlength => hall n ⟨body, after, htag, hlength⟩

/-- A program keeps every value of a `BString` within its bound throughout exactly when each of
its operations does by `KeepsBound`; a packet that is decoded has an address or a name within
its bound exactly when the length in front of it is. -/
theorem bounds_iff (max : Nat) (run : List (BString.Op × List (BString max))) (s : Bytes) :
    ((BString.program max).Run [] run →
      (System.States AllBounded [] run ↔ System.Steps (fun s op => op.KeepsBound s) [] run)) ∧
    (∀ p rest, (readFrom : Reader SBHandshake).run s = (.ok (.handshake p), rest) →
      (p.serverAddress.Bounded ↔ ∀ n, AddressLength s n → n.toInt ≤ 255)) ∧
    ∀ p rest, (readFrom : Reader SBLogin).run s = (.ok (.loginStart p), rest) →
      (p.name.Bounded ↔ ∀ n, NameLength s n → n.toInt ≤ 16) := by
  refine ⟨fun hrun => ?_, fun p rest => address_bounded_iff, fun p rest => name_bounded_iff⟩
  refine System.states_iff_steps (fun values op values' _ h hstep => ?_) (.init rfl)
    (fun value hvalue => by simp at hvalue) hrun
  obtain rfl : values' = op.apply values := hstep
  exact apply_bounded_iff h op

/-- The closure that puts an `x` behind the string. -/
def pushX : Proc String Unit := ⟨fun s => (.ok (), s.push 'x')⟩

/-- A name that is made, copied and changed within the bound, with its three states. -/
def changedName : List (BString.Op × List (BString 16)) :=
  [(.new "steve", [⟨"steve"⟩]), (.clone 0, [⟨"steve"⟩, ⟨"steve"⟩]),
    (.mutate 1 pushX, [⟨"steve"⟩, ⟨"stevex"⟩])]

/-- The changes keep the bound. -/
theorem bounds_iff_changed_name : System.States AllBounded [] changedName := by
  refine ((bounds_iff 16 changedName []).1 ?_).mpr ⟨trivial, trivial, ?_, trivial⟩
  · exact ⟨rfl, rfl, rfl, trivial⟩
  · rintro value hvalue -
    obtain rfl : (⟨"steve"⟩ : BString 16) = value := by simpa using hvalue
    decide

/-- Seventeen letters are read as a `BString<16>`. -/
theorem long_name_read :
    (readFrom : Reader (BString 16)).run (17 :: List.replicate 17 97) =
      (.ok ⟨"aaaaaaaaaaaaaaaaa"⟩, []) ∧
    ¬ ∀ max run, (BString.program max).Run [] run → System.States AllBounded [] run := by
  have hread : (readFrom : Reader (BString 16)).run (17 :: List.replicate 17 97) =
      (.ok ⟨"aaaaaaaaaaaaaaaaa"⟩, []) := by
    refine read_bstring_ok_iff.mpr ⟨17, ⟨[17], by decide, .last 17 (by decide), by decide, rfl⟩, ?_⟩
    decide
  refine ⟨hread, fun h => ?_⟩
  have hrun : (BString.program 16).Run [] [(.readFrom (17 :: List.replicate 17 97),
      [⟨"aaaaaaaaaaaaaaaaa"⟩])] := by
    refine ⟨?_, trivial⟩
    change _ = BString.Op.apply _ _
    simp only [BString.Op.apply, hread, List.nil_append]
  have hbound := (h 16 _ hrun).2 _ (List.mem_singleton_self _) _ (List.mem_singleton_self _)
  exact absurd hbound (by decide)

end Bws.Protocol
